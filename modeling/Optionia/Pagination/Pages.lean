import Optionia.Lib.Keyset
import Optionia.Pagination.Cursors
import Optionia.Delivery.Writers
/-!
# A catalogue and a list of sets, page by page

Products are listed by name and option sets by the time they were created, ids
telling apart what ties, a page at a time: one row more than the page is read,
what it is cut from begins after the key a cursor carries, and a page that has
more after it ends with the cursor of its last row. Every row is listed once
exactly where no page ends with a name whose cursor is too long to be read
back (`listsEverything_iff`).
-/

namespace Optionia.Pagination

open Js Keyset

/-! ## The tables -/

/-- What is read of a row of `stores`. -/
structure Store where
  id : String
  tenantId : String
  deriving DecidableEq

/-- A row of `store_products`. -/
structure StoreProduct where
  id : Uuid
  storeId : String
  externalId : String
  name : String
  sku : Option String
  type : String
  priceMinor : Option ℤ
  status : String
  permalink : Option String
  imageUrl : Option String
  deriving DecidableEq

/-- What is read of a row of `option_sets`. -/
structure OptionSet where
  id : Uuid
  tenantId : String
  storeId : String
  status : Delivery.OptionSetStatus
  name : String
  createdAt : Instant
  live : Bool
  deriving DecidableEq

/-- The database: its tables, how it compares texts, and how it matches a
pattern. No two ids of a table compare equal. -/
structure Database where
  stores : List Store
  products : List StoreProduct
  optionSets : List OptionSet
  collate : Collation (List Char)
  like : List Char → List Char → Bool
  products_apart : products.Pairwise fun p q => ¬ collate.eq p.id.text q.id.text = true
  optionSets_apart : optionSets.Pairwise fun s t => ¬ collate.eq s.id.text t.id.text = true

/-- `text.replace(/c/g, by)`. -/
def replaceAll (c : Char) (by' : List Char) (cs : List Char) : List Char :=
  cs.flatMap fun d => if d = c then by' else [d]

/-! ## Products -/

structure ListProductsDto where
  storeId : String
  search : Option (List Char)
  limit : Option ℕ
  cursor : Option (List Char)

structure ProductPageQuery where
  storeId : String
  search : Option (List Char)
  limit : ℕ
  after : Option TextCursorKey

structure ProductSummary where
  id : List Char
  externalId : String
  name : String
  sku : Option String
  type : String
  priceMinor : Option ℤ
  status : String
  permalink : Option String
  imageUrl : Option String
  deriving DecidableEq

structure ProductPage where
  items : List ProductSummary
  cursor : Option (List Char)
  hasMore : Bool
  limit : ℕ
  deriving DecidableEq

def toSummary (product : StoreProduct) : ProductSummary where
  id := product.id.text
  externalId := product.externalId
  name := product.name
  sku := product.sku
  type := product.type
  priceMinor := product.priceMinor
  status := product.status
  permalink := product.permalink
  imageUrl := product.imageUrl

/-- `escapeLike` of the products: a backslash first, then the wildcards. -/
def escapeProductLike (term : List Char) : List Char :=
  replaceAll '_' ['\\', '_'] (replaceAll '%' ['\\', '%'] (replaceAll '\\' ['\\', '\\'] term))

/-- `(p.name, p.id)`. -/
def StoreProduct.key (p : StoreProduct) : List Char × List Char := (p.name.toList, p.id.text)

namespace Database

variable (db : Database)

/-- The tenant's products of a store whose name begins as asked. A store's id
is a key, so that the join gives a product once. -/
def matchingProducts (tenantId storeId : String) (search : Option (List Char)) :
    List StoreProduct :=
  ((db.products.filter fun p => db.stores.any fun s =>
      decide (s.id = p.storeId ∧ s.tenantId = tenantId)).filter
    fun p => p.storeId = storeId).filter fun p =>
      match search with
      | none | some [] => true
      | some term => db.like p.name.toList (escapeProductLike term ++ ['%'])

/-- `ORDER BY p.name, p.id`. -/
def productOrder : Collation (List Char × List Char) := db.collate.lex db.collate

/-- `(p.name, p.id) > (:afterName, :afterId)`. -/
def productAfter (after : TextCursorKey) (p : StoreProduct) : Bool :=
  db.collate.gt p.name.toList after.value ||
    db.collate.eq p.name.toList after.value && db.collate.gt p.id.text after.id

def page (tenantId : String) (query : ProductPageQuery) : List StoreProduct :=
  let rows := (db.matchingProducts tenantId query.storeId query.search).filter fun p =>
    query.after.all fun after => db.productAfter after p
  (orderBy db.productOrder StoreProduct.key rows).take query.limit

/-- `ProductsService.list`. -/
def listProducts (tenantId : String) (query : ListProductsDto) : Except Invalid ProductPage := do
  let limit := query.limit.getD 25
  let after ← decodeTextCursor query.cursor
  let rows := db.page tenantId
    { storeId := query.storeId, search := query.search, limit := limit + 1, after := after }
  let hasMore := decide (limit < rows.length)
  let items := if hasMore then rows.take limit else rows
  return {
    items := items.map toSummary
    cursor := if hasMore then
      items.getLast?.map fun last => encodeTextCursor last.name.toList last.id.text else none
    hasMore := hasMore
    limit := limit }

end Database

/-! ## Option sets -/

structure ListFilters where
  status : Option Delivery.OptionSetStatus
  storeId : Option String
  q : Option (List Char)
  limit : ℕ
  cursor : Option (List Char)

structure ListPage where
  items : List OptionSet
  hasMore : Bool
  cursor : Option (List Char)

/-- `escapeLike` of the option sets: a backslash before each. -/
def escapeSetLike (term : List Char) : List Char :=
  term.flatMap fun c => if c = '\\' ∨ c = '%' ∨ c = '_' then ['\\', c] else [c]

/-- `(s.createdAt, s.id)`. -/
def OptionSet.key (s : OptionSet) : ℤ × List Char := (s.createdAt.ms, s.id.text)

namespace Database

variable (db : Database)

/-- The tenant's live sets that fit. An empty store or term is none. -/
def matchingSets (tenantId : String) (filters : ListFilters) : List OptionSet :=
  (((db.optionSets.filter fun s => decide (s.tenantId = tenantId) && s.live).filter
    fun s => filters.status.all fun status => decide (s.status = status)).filter
    fun s => filters.storeId.all fun storeId => decide (storeId = "" ∨ s.storeId = storeId)).filter
    fun s => filters.q.all fun q =>
      decide (q = []) || db.like s.name.toList (escapeSetLike q ++ ['%'])

/-- `ORDER BY s.createdAt, s.id`. -/
def setOrder : Collation (ℤ × List Char) := (Collation.number id).lex db.collate

/-- `s.createdAt > :createdAt OR (s.createdAt = :createdAt AND s.id > :id)`. -/
def setAfter (decoded : CursorKey) (s : OptionSet) : Bool :=
  decide (decoded.createdAt.ms < s.createdAt.ms) ||
    decide (s.createdAt.ms = decoded.createdAt.ms) && db.collate.gt s.id.text decoded.id

/-- `OptionSetsRepository.list`. -/
def listSets (tenantId : String) (filters : ListFilters) : Except Invalid ListPage := do
  let decoded ← decodeCursor filters.cursor
  let rows := (orderBy db.setOrder OptionSet.key
    ((db.matchingSets tenantId filters).filter fun s =>
      decoded.all fun key => db.setAfter key s)).take (filters.limit + 1)
  let hasMore := decide (filters.limit < rows.length)
  let items := if hasMore then rows.take filters.limit else rows
  return {
    items := items
    hasMore := hasMore
    cursor := if hasMore then
      items.getLast?.map fun last => encodeCursor last.createdAt last.id.text else none }

end Database

/-! ## Following the cursors -/

namespace Database

variable (db : Database)

/-- What a request for the page at a cursor brings: its rows and its cursor,
or nothing where it is refused. -/
def fetchProducts (tenantId : String) (query : ListProductsDto) (cursor : Option (List Char)) :
    Option (List ProductSummary × Option (List Char)) :=
  (db.listProducts tenantId { query with cursor := cursor }).toOption.map fun p =>
    (p.items, p.cursor)

def fetchSets (tenantId : String) (filters : ListFilters) (cursor : Option (List Char)) :
    Option (List OptionSet × Option (List Char)) :=
  (db.listSets tenantId { filters with cursor := cursor }).toOption.map fun p =>
    (p.items, p.cursor)

/-- A product that a page of a query ends with. -/
def EndsProductPage (tenantId : String) (query : ListProductsDto) : StoreProduct → Prop :=
  EndsPage (query.limit.getD 25) (orderBy db.productOrder StoreProduct.key
    (db.matchingProducts tenantId query.storeId query.search))

/-- A set that a page of a query ends with. -/
def EndsSetPage (tenantId : String) (filters : ListFilters) : OptionSet → Prop :=
  EndsPage filters.limit (orderBy db.setOrder OptionSet.key (db.matchingSets tenantId filters))

/-- Both lists are walked to their end, every matching row once and in order,
and every key a page ends with is read back from its cursor. -/
structure ListsEverything (tenantId : String) (query : ListProductsDto) (filters : ListFilters) :
    Prop where
  products : Lists (db.fetchProducts tenantId query) toSummary
    (db.matchingProducts tenantId query.storeId query.search)
    fun p q => db.productOrder.gt q.key p.key = true
  optionSets : Lists (db.fetchSets tenantId filters) id (db.matchingSets tenantId filters)
    fun s t => db.setOrder.gt t.key s.key = true
  productKeys : ∀ p, db.EndsProductPage tenantId query p →
    decodeTextCursor (some (encodeTextCursor p.name.toList p.id.text)) =
      .ok (some ⟨p.name.toList, p.id.text⟩)
  setKeys : ∀ s, db.EndsSetPage tenantId filters s →
    decodeCursor (some (encodeCursor s.createdAt s.id.text)) = .ok (some ⟨s.createdAt, s.id.text⟩)

variable {db}

theorem productAfter_key (p q : StoreProduct) :
    db.productAfter ⟨p.name.toList, p.id.text⟩ q = db.productOrder.gt q.key p.key :=
  (Collation.gt_lex db.collate db.collate q.key p.key).symm

theorem setAfter_key (s t : OptionSet) :
    db.setAfter ⟨s.createdAt, s.id.text⟩ t = db.setOrder.gt t.key s.key := by
  rw [setOrder, Collation.gt_lex, setAfter]
  have hgt : (Collation.number id).gt t.key.1 s.key.1 =
      decide (s.createdAt.ms < t.createdAt.ms) := by
    unfold Collation.gt Collation.number OptionSet.key
    dsimp only
    rw [← decide_not]
    exact decide_eq_decide.2 Int.not_le
  have heq : (Collation.number id).eq t.key.1 s.key.1 =
      decide (t.createdAt.ms = s.createdAt.ms) := by
    unfold Collation.eq Collation.number OptionSet.key
    dsimp only [id]
    rw [← Bool.decide_and]
    refine decide_eq_decide.2 ?_
    omega
  rw [hgt, heq]
  rfl

theorem matchingProducts_apart (tenantId storeId : String) (search : Option (List Char)) :
    (db.matchingProducts tenantId storeId search).Pairwise fun p q =>
      ¬ db.productOrder.eq p.key q.key = true := by
  refine (((db.products_apart.filter _).filter _).filter _).imp ?_
  intro p q hne heq
  rw [productOrder, Collation.eq_lex, Bool.and_eq_true] at heq
  exact hne heq.2

theorem matchingSets_apart (tenantId : String) (filters : ListFilters) :
    (db.matchingSets tenantId filters).Pairwise fun s t =>
      ¬ db.setOrder.eq s.key t.key = true := by
  refine ((((db.optionSets_apart.filter _).filter _).filter _).filter _).imp ?_
  intro s t hne heq
  rw [setOrder, Collation.eq_lex, Bool.and_eq_true] at heq
  exact hne heq.2

section Fetch

variable (tenantId : String) (query : ListProductsDto) (filters : ListFilters)
  {cursor : Option (List Char)}

theorem fetchProducts_eq {after : Option TextCursorKey} (h : decodeTextCursor cursor = .ok after) :
    db.fetchProducts tenantId query cursor = some (pageOf (query.limit.getD 25) toSummary
      (fun p => encodeTextCursor p.name.toList p.id.text)
      (orderBy db.productOrder StoreProduct.key
        ((db.matchingProducts tenantId query.storeId query.search).filter fun p =>
          after.all fun key => db.productAfter key p))) := by
  rw [← page_take]
  unfold fetchProducts listProducts
  dsimp only
  rw [h]
  simp only [decide_eq_true_eq]
  rfl

theorem fetchProducts_refused {e : Invalid} (h : decodeTextCursor cursor = .error e) :
    db.fetchProducts tenantId query cursor = none := by
  unfold fetchProducts listProducts
  dsimp only
  rw [h]
  rfl

theorem fetchSets_eq {decoded : Option CursorKey} (h : decodeCursor cursor = .ok decoded) :
    db.fetchSets tenantId filters cursor = some (pageOf filters.limit id
      (fun s => encodeCursor s.createdAt s.id.text)
      (orderBy db.setOrder OptionSet.key ((db.matchingSets tenantId filters).filter fun s =>
        decoded.all fun key => db.setAfter key s))) := by
  rw [← page_take]
  unfold fetchSets listSets
  dsimp only
  rw [h]
  simp only [decide_eq_true_eq, List.map_id]
  rfl

end Fetch

/-! ## The two lists -/

theorem decodeTextCursor_eq_ok_iff (value : List Char) (id : Uuid) :
    decodeTextCursor (some (encodeTextCursor value id.text)) = .ok (some ⟨value, id.text⟩) ↔
      FitsCursor value := by
  change (decodeTextCursorOrNull (encodeTextCursor value id.text)).elim _ _ = _ ↔ _
  rw [decodeTextCursorOrNull_encodeTextCursor]
  by_cases hfits : FitsCursor value
  · rw [if_pos hfits]
    exact iff_of_true rfl hfits
  · rw [if_neg hfits]
    refine iff_of_false (fun h => ?_) hfits
    cases h

theorem decodeTextCursor_refused {value : List Char} (h : ¬ FitsCursor value) (id : Uuid) :
    decodeTextCursor (some (encodeTextCursor value id.text)) = .error invalidCursor := by
  change (decodeTextCursorOrNull (encodeTextCursor value id.text)).elim _ _ = _
  rw [decodeTextCursorOrNull_encodeTextCursor, if_neg h]
  rfl

/-- **A timestamp's cursor is always taken.** -/
theorem decodeCursor_encodeCursor (t : Instant) (id : Uuid) :
    decodeCursor (some (encodeCursor t id.text)) = .ok (some ⟨t, id.text⟩) := by
  change (decodeCursorOrNull (encodeCursor t id.text)).elim _ _ = _
  rw [decodeCursorOrNull_encodeCursor]
  rfl

/-- **Every product is listed once where the names that end a page have a
cursor that is read back.** -/
theorem listsProducts_iff (tenantId : String) (query : ListProductsDto)
    (hlimit : 0 < query.limit.getD 25) :
    Lists (db.fetchProducts tenantId query) toSummary
        (db.matchingProducts tenantId query.storeId query.search)
        (fun p q => db.productOrder.gt q.key p.key = true) ↔
      ∀ p, db.EndsProductPage tenantId query p → FitsCursor p.name.toList := by
  refine lists_iff (fun p => encodeTextCursor p.name.toList p.id.text)
    (fun p => FitsCursor p.name.toList) hlimit (matchingProducts_apart _ _ _) ?_
    (fun p _ hfits => ?_) fun p _ hlong => ?_
  · have hfirst : decodeTextCursor none = .ok none := rfl
    rw [fetchProducts_eq tenantId query hfirst]
    have hall : ((db.matchingProducts tenantId query.storeId query.search).filter
        fun p => (none : Option TextCursorKey).all fun key => db.productAfter key p) =
        db.matchingProducts tenantId query.storeId query.search :=
      List.filter_eq_self.2 fun _ _ => rfl
    rw [hall]
  · rw [fetchProducts_eq tenantId query ((decodeTextCursor_eq_ok_iff _ p.id).2 hfits)]
    simp only [Option.all_some, productAfter_key]
  · exact fetchProducts_refused tenantId query (decodeTextCursor_refused hlong p.id)

/-- **Every set is listed once.** -/
theorem listsSets (tenantId : String) (filters : ListFilters) (hlimit : 0 < filters.limit) :
    Lists (db.fetchSets tenantId filters) id (db.matchingSets tenantId filters)
      fun s t => db.setOrder.gt t.key s.key = true := by
  refine (lists_iff (fun s => encodeCursor s.createdAt s.id.text) (fun _ => True) hlimit
    (matchingSets_apart _ _) ?_ (fun s _ _ => ?_) fun s _ hno => absurd trivial hno).2
    fun _ _ => trivial
  · have hfirst : decodeCursor none = .ok none := rfl
    rw [fetchSets_eq tenantId filters hfirst]
    have hall : ((db.matchingSets tenantId filters).filter
        fun s => (none : Option CursorKey).all fun key => db.setAfter key s) =
        db.matchingSets tenantId filters :=
      List.filter_eq_self.2 fun _ _ => rfl
    rw [hall]
  · rw [fetchSets_eq tenantId filters (decodeCursor_encodeCursor s.createdAt s.id)]
    simp only [Option.all_some, setAfter_key]

/-- **Both lists give everything once exactly where no page of products ends
with a name whose cursor is too long.** -/
theorem listsEverything_iff (db : Database) (tenantId : String) (query : ListProductsDto)
    (filters : ListFilters) (hlimit : 1 ≤ query.limit.getD 25) (hlimit' : 1 ≤ filters.limit) :
    db.ListsEverything tenantId query filters ↔
      ∀ p, db.EndsProductPage tenantId query p → FitsCursor p.name.toList := by
  constructor
  · intro h
    exact (listsProducts_iff tenantId query hlimit).1 h.products
  · intro h
    exact
      { products := (listsProducts_iff tenantId query hlimit).2 h
        optionSets := listsSets tenantId filters hlimit'
        productKeys := fun p hp => (decodeTextCursor_eq_ok_iff _ p.id).2 (h p hp)
        setKeys := fun s _ => decodeCursor_encodeCursor s.createdAt s.id }

/-! ## A catalogue of two products -/

def firstId : Uuid := ⟨"01890a5d-ac96-774b-bcce-b302099a8057".toList, by decide⟩

def secondId : Uuid := ⟨"01890a5d-ac96-774b-bcce-b302099a8058".toList, by decide⟩

/-- A product of the one store. -/
def productNamed (id : Uuid) (name : String) : StoreProduct where
  id := id
  storeId := "s"
  externalId := "20"
  name := name
  sku := none
  type := "simple"
  priceMinor := some 1000
  status := "publish"
  permalink := none
  imageUrl := none

def byCodePoint : Collation (List Char) := (Collation.number fun c : Char => (c.toNat : ℤ)).words

theorem ids_apart : ¬ byCodePoint.eq firstId.text secondId.text = true := by decide

/-- Two products of one name, compared by code points, and no search. -/
def twoNamed (name : String) : Database where
  stores := [⟨"s", "t"⟩]
  products := [productNamed firstId name, productNamed secondId name]
  optionSets := []
  collate := byCodePoint
  like _ _ := true
  products_apart := List.pairwise_pair.2 ids_apart
  optionSets_apart := List.Pairwise.nil

def oneEach : ListProductsDto := ⟨"s", none, some 1, none⟩

def allSets : ListFilters := ⟨none, none, none, 25, none⟩

theorem matching_twoNamed (name : String) :
    (twoNamed name).matchingProducts "t" "s" none = (twoNamed name).products := by
  unfold matchingProducts
  simp [twoNamed, productNamed]

theorem exists_endsProductPage (name : String) :
    ∃ p ∈ (twoNamed name).products, (twoNamed name).EndsProductPage "t" oneEach p := by
  have hperm := perm_orderBy (twoNamed name).productOrder StoreProduct.key
    (twoNamed name).products
  have hlength : (orderBy (twoNamed name).productOrder StoreProduct.key
      (twoNamed name).products).length = 2 := hperm.length_eq
  have hfirst : 0 < (orderBy (twoNamed name).productOrder StoreProduct.key
      (twoNamed name).products).length := by
    rw [hlength]
    decide
  refine ⟨_, hperm.mem_iff.1 (List.getElem_mem hfirst), 0, ?_, ?_, Nat.dvd_refl 1⟩
  · change (orderBy _ _ ((twoNamed name).matchingProducts "t" "s" none))[0]? = _
    rw [matching_twoNamed]
    exact List.getElem?_eq_getElem hfirst
  · change 0 + 1 < (orderBy _ _ ((twoNamed name).matchingProducts "t" "s" none)).length
    rw [matching_twoNamed, hlength]
    decide

/-- Two hundred letters of two bytes: as many as a column admits, and more
than a cursor carries. -/
def longName : String := String.ofList (List.replicate 200 'é')

theorem length_le_of_fitsCursor {value : List Char} (h : FitsCursor value) :
    (Js.utf8Bytes value).length ≤ 347 := (Nat.le_add_left _ _).trans h

theorem toList_longName : longName.toList = List.replicate 200 'é' := String.toList_ofList

theorem length_utf8Bytes_replicate (n : ℕ) :
    (Js.utf8Bytes (List.replicate n 'é')).length = 2 * n := by
  induction n with
  | zero => rfl
  | succ n ih =>
    have hletter : (String.utf8EncodeChar 'é').length = 2 := by decide
    rw [List.replicate_succ, Js.utf8Bytes_cons, List.length_append, ih, hletter]
    omega

theorem not_fitsCursor_replicate {n : ℕ} (hn : 200 ≤ n) : ¬ FitsCursor (List.replicate n 'é') := by
  intro h
  have hle := length_le_of_fitsCursor h
  rw [length_utf8Bytes_replicate] at hle
  omega

theorem listsEverything_twins : (twoNamed "Custom Hoodie").ListsEverything "t" oneEach allSets := by
  refine (listsEverything_iff (twoNamed "Custom Hoodie") "t" oneEach allSets (by decide)
    (by decide)).2 ?_
  rintro p ⟨i, hp, -, -⟩
  have hmem := (perm_orderBy _ _ _).mem_iff.1 (List.mem_of_getElem? hp)
  have hproduct := List.mem_of_mem_filter (List.mem_of_mem_filter (List.mem_of_mem_filter hmem))
  have hfits : ∀ q ∈ (twoNamed "Custom Hoodie").products, FitsCursor q.name.toList := by decide
  exact hfits p hproduct

/-- **A walk ends at a name of two hundred letters of two bytes.** -/
theorem not_forall_listsEverything :
    ¬ ∀ (db : Database) (tenantId : String) (query : ListProductsDto) (filters : ListFilters),
      1 ≤ query.limit.getD 25 → 1 ≤ filters.limit → db.ListsEverything tenantId query filters := by
  intro h
  have hends := (listsEverything_iff (twoNamed longName) "t" oneEach allSets (by decide)
    (by decide)).1 (h (twoNamed longName) "t" oneEach allSets (by decide) (by decide))
  have hlong : ¬ FitsCursor longName.toList := by
    rw [toList_longName]
    exact not_fitsCursor_replicate (Nat.le_refl 200)
  obtain ⟨p, hp, hend⟩ := exists_endsProductPage longName
  have hname : p.name = longName := by
    rcases List.mem_pair.1 hp with rfl | rfl
    · rfl
    · rfl
  refine hlong ?_
  rw [← hname]
  exact hends p hend

end Database

end Optionia.Pagination
