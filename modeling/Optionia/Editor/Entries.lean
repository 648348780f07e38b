import Optionia.Lib.Precedence
/-!
# The entries of a group, and moving one

`entries.ts`: a group's options and its presentational items are one sequence,
ordered by the number that both tables share. Moving an entry past its
neighbour numbers the table of each of the two by where its rows now stand; a
table that neither is of keeps its numbers.
-/

namespace Optionia.Editor

/-! ## The merged sequence -/

/-- Which table an entry is of. -/
inductive Kind where
  | option
  | item
  deriving DecidableEq

/-- A row of either table. -/
structure Row (α : Type) where
  id : String
  sortOrder : ℤ
  columns : α
  deriving DecidableEq

/-- What is in a group. -/
structure Group (TOption TItem : Type) where
  options : List (Row TOption)
  items : List (Row TItem)

inductive Entry (TOption TItem : Type) where
  | option (row : Row TOption)
  | item (row : Row TItem)
  deriving DecidableEq

section Entries

variable {TOption TItem : Type}

def Entry.kind : Entry TOption TItem → Kind
  | .option _ => .option
  | .item _ => .item

def Entry.id : Entry TOption TItem → String
  | .option row => row.id
  | .item row => row.id

def Entry.sortOrder : Entry TOption TItem → ℤ
  | .option row => row.sortOrder
  | .item row => row.sortOrder

/-- What tells an entry from every other of its group. -/
def Entry.key (entry : Entry TOption TItem) : Kind × String := (entry.kind, entry.id)

/-- The entries as they arrive: options first. -/
def Group.entries (group : Group TOption TItem) : List (Entry TOption TItem) :=
  group.options.map .option ++ group.items.map .item

def mergedEntries (group : Group TOption TItem) : List (Entry TOption TItem) :=
  group.entries.insertionSort fun a b => a.sortOrder ≤ b.sortOrder

end Entries

/-! ## Moving -/

structure SortEntry where
  id : String
  sortOrder : ℤ
  deriving DecidableEq

def sortOrderFor (mergedIndex : ℕ) : ℤ := (mergedIndex + 1) * 10

/-- `-1 | 1` -/
inductive Direction where
  | up
  | down

def Direction.step : Direction → ℤ
  | up => -1
  | down => 1

/-- `[next[i], next[j]] = [next[j], next[i]]` -/
def exchange {α : Type} (l : List α) (i j : ℕ) : List α :=
  match l[i]?, l[j]? with
  | some a, some b => (l.set i b).set j a
  | _, _ => l

/-- Where an entry is moved to, where there is such a place. -/
def target? (length index : ℕ) (direction : Direction) : Option ℕ :=
  let target := index + direction.step
  if target < 0 ∨ (length : ℤ) ≤ target then none else some target.toNat

/-- What `reorderPayloads` returns. -/
structure Payloads where
  options : Option (List SortEntry)
  items : Option (List SortEntry)
  deriving DecidableEq

section Moving

variable {TOption TItem : Type}

/-- The entries of a kind, numbered by where they stand. -/
def numberedOf (next : List (Entry TOption TItem)) (kind : Kind) : List SortEntry :=
  ((next.mapIdx fun position entry => (entry.kind, (⟨entry.id, sortOrderFor position⟩ : SortEntry))).filter
    (·.1 = kind)).map (·.2)

/-- The kinds of the entries at two places. -/
def movedKinds (next : List (Entry TOption TItem)) (i j : ℕ) : List Kind :=
  ([next[i]?, next[j]?].filterMap id).map (·.kind)

def reorderPayloads (entries : List (Entry TOption TItem)) (index : ℕ) (direction : Direction) :
    Payloads :=
  match target? entries.length index direction with
  | none => ⟨none, none⟩
  | some target =>
    let next := exchange entries index target
    let moved := movedKinds next index target
    { options := if .option ∈ moved then some (numberedOf next .option) else none
      items := if .item ∈ moved then some (numberedOf next .item) else none }

/-! ## Writing a payload -/

/-- A row as a payload leaves it. -/
def Row.renumbered {α : Type} (payload : Option (List SortEntry)) (row : Row α) : Row α :=
  match (payload.getD []).find? (·.id == row.id) with
  | some entry => { row with sortOrder := entry.sortOrder }
  | none => row

/-- A group as the payloads leave it; a table without one is left alone. -/
def Group.reordered (group : Group TOption TItem) (payloads : Payloads) : Group TOption TItem where
  options := group.options.map (·.renumbered payloads.options)
  items := group.items.map (·.renumbered payloads.items)

/-- What moving one entry should make of a sequence. -/
def movedOne {α : Type} (l : List α) (index : ℕ) (direction : Direction) : List α :=
  match target? l.length index direction with
  | none => l
  | some target => exchange l index target

/-- The entries that keep their numbers stand among those numbered anew as they
stood before; a tie goes to the option. -/
def KeepPlaces (l : List (Entry TOption TItem)) (kind : Kind) : Prop :=
  ∀ p q e f, l[p]? = some e → l[q]? = some f → e.kind ≠ kind → f.kind = kind →
    (p < q → if kind = .item then e.sortOrder ≤ sortOrderFor q else e.sortOrder < sortOrderFor q) ∧
      (q < p → if kind = .item then sortOrderFor q < e.sortOrder else sortOrderFor q ≤ e.sortOrder)

end Moving

/-! ## Exchanging two places -/

section Exchange

variable {α β : Type} {l : List α} {i j : ℕ}

theorem target?_lt {length index target : ℕ} {direction : Direction}
    (h : target? length index direction = some target) : target < length := by
  unfold target? at h
  dsimp only at h
  split at h
  · simp at h
  · have := Option.some.inj h
    omega

theorem target?_ne {length index target : ℕ} {direction : Direction}
    (h : target? length index direction = some target) : target ≠ index := by
  unfold target? at h
  dsimp only at h
  split at h
  · simp at h
  · have htarget := Option.some.inj h
    cases direction with
    | up =>
      change (index + (-1 : ℤ)).toNat = target at htarget
      rename_i hrange
      change ¬ (index + (-1 : ℤ) < 0 ∨ _) at hrange
      omega
    | down =>
      change (index + (1 : ℤ)).toNat = target at htarget
      omega

theorem getElem?_exchange (hi : i < l.length) (hj : j < l.length) (k : ℕ) :
    (exchange l i j)[k]? = if k = j then l[i]? else if k = i then l[j]? else l[k]? := by
  unfold exchange
  rw [List.getElem?_eq_getElem hi, List.getElem?_eq_getElem hj]
  dsimp only
  by_cases hkj : k = j
  · rw [if_pos hkj, hkj, List.getElem?_set_self (by rw [List.length_set]; exact hj)]
  · rw [if_neg hkj, List.getElem?_set_ne (Ne.symm hkj)]
    by_cases hki : k = i
    · rw [if_pos hki, hki, List.getElem?_set_self hi]
    · rw [if_neg hki, List.getElem?_set_ne (Ne.symm hki)]

/-- **An exchange loses nothing.** -/
theorem exchange_perm (hi : i < l.length) (hj : j < l.length) : (exchange l i j).Perm l := by
  unfold exchange
  rw [List.getElem?_eq_getElem hi, List.getElem?_eq_getElem hj]
  exact List.set_set_perm hi hj

end Exchange

/-! ## The order of a merged sequence -/

section Order

variable {TOption TItem : Type} {group : Group TOption TItem}

/-- The keys of a group, in the order its rows arrive. -/
def Group.keys (group : Group TOption TItem) : List (Kind × String) := group.entries.map (·.key)

/-- Rows have ids of their own in their table. -/
structure Group.Keyed (group : Group TOption TItem) : Prop where
  options : (group.options.map (·.id)).Nodup
  items : (group.items.map (·.id)).Nodup

theorem keys_eq (group : Group TOption TItem) : group.keys =
    group.options.map (fun row => (Kind.option, row.id)) ++
      group.items.map fun row => (Kind.item, row.id) := by
  unfold Group.keys Group.entries
  rw [List.map_append, List.map_map, List.map_map]
  rfl

/-- **No two entries have a key in common.** -/
theorem Group.Keyed.nodup (h : group.Keyed) : group.keys.Nodup := by
  have hinj : ∀ kind : Kind, Function.Injective fun id : String => (kind, id) :=
    fun kind a b heq => congrArg Prod.snd heq
  rw [keys_eq]
  refine List.Nodup.append ?_ ?_ ?_
  · have := h.options.map (hinj .option)
    rwa [List.map_map] at this
  · have := h.items.map (hinj .item)
    rwa [List.map_map] at this
  · intro key hoption hitem
    obtain ⟨row, -, rfl⟩ := List.mem_map.1 hoption
    obtain ⟨row', -, heq⟩ := List.mem_map.1 hitem
    exact absurd (congrArg Prod.fst heq) (by simp)

def ArrivesBefore (keys : List (Kind × String)) (a b : Entry TOption TItem) : Prop :=
  keys.idxOf a.key < keys.idxOf b.key

/-- One entry stands before another: by its number, and among equal ones by its
arrival. -/
abbrev StandsBefore (keys : List (Kind × String)) :
    Entry TOption TItem → Entry TOption TItem → Prop :=
  Sorting.Lex (fun a b => a.sortOrder ≤ b.sortOrder) (ArrivesBefore keys)

theorem pairwise_arrives (h : group.Keyed) : group.entries.Pairwise (ArrivesBefore group.keys) := by
  rw [List.pairwise_iff_getElem]
  intro i j hi hj hij
  have hidx : ∀ k (hk : k < group.entries.length),
      group.keys.idxOf (group.entries[k]).key = k := by
    intro k hk
    have hkeys : k < group.keys.length := by
      unfold Group.keys
      rwa [List.length_map]
    have hget : group.keys[k] = (group.entries[k]).key := List.getElem_map _
    rw [← hget]
    exact h.nodup.idxOf_getElem k hkeys
  unfold ArrivesBefore
  rw [hidx i hi, hidx j hj]
  exact hij

/-- **A list of the entries is the merged sequence** exactly where each stands
before what follows it. -/
theorem mergedEntries_eq_iff (h : group.Keyed) {l : List (Entry TOption TItem)}
    (hperm : l.Perm group.entries) :
    mergedEntries group = l ↔ l.Pairwise (StandsBefore group.keys) := by
  have hsorted : (mergedEntries group).Pairwise (StandsBefore group.keys) :=
    Sorting.pairwise_lex_insertionSort (r := fun a b => a.sortOrder ≤ b.sortOrder)
      (fun a b => le_total a.sortOrder b.sortOrder) (fun a b c => le_trans) (pairwise_arrives h)
  constructor
  · rintro rfl
    exact hsorted
  · intro hl
    refine List.Perm.eq_of_pairwise (fun a b _ _ hab hba => ?_) hsorted hl
      ((List.perm_insertionSort _ _).trans hperm.symm)
    exact absurd (hab.2 hba.1) (hba.2 hab.1).asymm

theorem arrivesBefore_of_kind {a b : Entry TOption TItem} (ha : a ∈ group.entries)
    (hb : b ∈ group.entries) (hkind : a.kind ≠ b.kind) :
    ArrivesBefore group.keys a b ↔ a.kind = .option := by
  have hoption : ∀ {e : Entry TOption TItem}, e ∈ group.entries → e.kind = .option →
      e.key ∈ group.options.map fun row => (Kind.option, row.id) := by
    intro e he hk
    obtain he | he := List.mem_append.1 he
    · obtain ⟨row, hrow, rfl⟩ := List.mem_map.1 he
      exact List.mem_map_of_mem hrow
    · obtain ⟨row, -, rfl⟩ := List.mem_map.1 he
      exact absurd hk (by simp [Entry.kind])
  have hitem : ∀ {e : Entry TOption TItem}, e.kind = .item →
      e.key ∉ group.options.map fun row => (Kind.option, row.id) := by
    intro e hk hmem
    obtain ⟨row, -, heq⟩ := List.mem_map.1 hmem
    have hfst : Kind.option = e.kind := congrArg Prod.fst heq
    rw [hk] at hfst
    simp at hfst
  have hlt : ∀ {e f : Entry TOption TItem}, e ∈ group.entries → e.kind = .option →
      f.kind = .item → group.keys.idxOf e.key < group.keys.idxOf f.key := by
    intro e f he hek hfk
    rw [keys_eq, List.idxOf_append_of_mem (hoption he hek),
      List.idxOf_append_of_notMem (hitem hfk)]
    exact Nat.lt_add_right _ (List.idxOf_lt_length_of_mem (hoption he hek))
  unfold ArrivesBefore
  cases hak : a.kind with
  | option =>
    cases hbk : b.kind with
    | option => exact absurd (hak.trans hbk.symm) hkind
    | item => exact iff_of_true (hlt ha hak hbk) rfl
  | item =>
    cases hbk : b.kind with
    | option => exact iff_of_false (hlt hb hbk hak).asymm (by simp)
    | item => exact absurd (hak.trans hbk.symm) hkind

/-- Two entries of different tables stand in the order of their numbers, and an
option before an item of its own number. -/
theorem standsBefore_iff {a b : Entry TOption TItem} (ha : a.key ∈ group.keys)
    (hb : b.key ∈ group.keys) (hkind : a.kind ≠ b.kind) : StandsBefore group.keys a b ↔
      if a.kind = .option then a.sortOrder ≤ b.sortOrder else a.sortOrder < b.sortOrder := by
  obtain ⟨a', ha', hakey⟩ := List.mem_map.1 ha
  obtain ⟨b', hb', hbkey⟩ := List.mem_map.1 hb
  have hakind : a'.kind = a.kind := congrArg Prod.fst hakey
  have hbkind : b'.kind = b.kind := congrArg Prod.fst hbkey
  have harrives : ArrivesBefore group.keys a b ↔ a.kind = .option := by
    have := arrivesBefore_of_kind ha' hb' (by rwa [hakind, hbkind])
    unfold ArrivesBefore at this ⊢
    rwa [hakey, hbkey, hakind] at this
  unfold StandsBefore Sorting.Lex
  rw [harrives]
  split
  · next hoption => simp [hoption]
  · next hoption =>
    simp only [hoption, imp_false, not_le]
    omega

end Order

/-! ## What a payload writes -/

section Written

variable {TOption TItem : Type} {next : List (Entry TOption TItem)} {kind : Kind}

theorem mem_numberedOf {entry : SortEntry} : entry ∈ numberedOf next kind ↔
    ∃ position e, next[position]? = some e ∧ e.kind = kind ∧ entry = ⟨e.id, sortOrderFor position⟩ := by
  unfold numberedOf
  rw [List.mem_map]
  constructor
  · rintro ⟨p, hp, rfl⟩
    obtain ⟨hmem, hkind⟩ := List.mem_filter.1 hp
    obtain ⟨position, hlt, rfl⟩ := List.mem_mapIdx.1 hmem
    exact ⟨position, next[position], List.getElem?_eq_getElem hlt, of_decide_eq_true hkind, rfl⟩
  · rintro ⟨position, e, he, hkind, rfl⟩
    obtain ⟨hlt, rfl⟩ := List.getElem?_eq_some_iff.1 he
    exact ⟨(next[position].kind, ⟨next[position].id, sortOrderFor position⟩),
      List.mem_filter.2 ⟨List.mem_mapIdx.2 ⟨position, hlt, rfl⟩, decide_eq_true hkind⟩, rfl⟩

/-- **An entry that is written gets the number of its place.** -/
theorem find?_numberedOf (hnodup : (next.map (·.key)).Nodup) {position : ℕ}
    {e : Entry TOption TItem} (he : next[position]? = some e) (hkind : e.kind = kind) :
    (numberedOf next kind).find? (·.id == e.id) = some ⟨e.id, sortOrderFor position⟩ := by
  have hmem : (⟨e.id, sortOrderFor position⟩ : SortEntry) ∈ numberedOf next kind :=
    mem_numberedOf.2 ⟨position, e, he, hkind, rfl⟩
  have hsome : ((numberedOf next kind).find? (·.id == e.id)).isSome = true := by
    rw [List.find?_isSome]
    exact ⟨_, hmem, beq_self_eq_true e.id⟩
  obtain ⟨found, hfound⟩ := Option.isSome_iff_exists.1 hsome
  have hid : found.id = e.id := by simpa using List.find?_some hfound
  obtain ⟨position', e', he', hkind', rfl⟩ := mem_numberedOf.1 (List.mem_of_find?_eq_some hfound)
  -- Its key is at one place alone.
  have hkey : (next.map (·.key))[position']? = (next.map (·.key))[position]? := by
    rw [List.getElem?_map, List.getElem?_map, he', he]
    exact congrArg some (Prod.ext (hkind'.trans hkind.symm) hid)
  have hlt : position' < (next.map (·.key)).length := by
    rw [List.length_map]
    exact (List.getElem?_eq_some_iff.1 he').1
  obtain rfl := (List.getElem?_inj hlt hnodup).1 hkey
  rw [he] at he'
  obtain rfl := Option.some.inj he'
  exact hfound

/-- An entry as the payloads leave it. -/
def Entry.renumbered (payloads : Payloads) : Entry TOption TItem → Entry TOption TItem
  | .option row => .option (row.renumbered payloads.options)
  | .item row => .item (row.renumbered payloads.items)

theorem entries_reordered (group : Group TOption TItem) (payloads : Payloads) :
    (group.reordered payloads).entries = group.entries.map (·.renumbered payloads) := by
  unfold Group.entries Group.reordered
  rw [List.map_append, List.map_map, List.map_map, List.map_map, List.map_map]
  rfl

theorem id_renumbered {α : Type} (payload : Option (List SortEntry)) (row : Row α) :
    (row.renumbered payload).id = row.id := by
  unfold Row.renumbered
  split <;> rfl

/-- **An entry stays the same one**, under another number. -/
theorem key_renumbered (payloads : Payloads) (e : Entry TOption TItem) :
    (e.renumbered payloads).key = e.key := by
  cases e with
  | option option => exact congrArg (Prod.mk Kind.option) (id_renumbered _ option)
  | item item => exact congrArg (Prod.mk Kind.item) (id_renumbered _ item)

def Payloads.of (payloads : Payloads) : Kind → Option (List SortEntry)
  | .option => payloads.options
  | .item => payloads.items

theorem sortOrder_renumbered (payloads : Payloads) (e : Entry TOption TItem) :
    (e.renumbered payloads).sortOrder =
      ((((payloads.of e.kind).getD []).find? (·.id == e.id)).map (·.sortOrder)).getD e.sortOrder := by
  have hrow : ∀ {α : Type} (payload : Option (List SortEntry)) (row : Row α),
      (row.renumbered payload).sortOrder =
        (((payload.getD []).find? (·.id == row.id)).map (·.sortOrder)).getD row.sortOrder := by
    intro α payload row
    unfold Row.renumbered
    cases (payload.getD []).find? (·.id == row.id) <;> rfl
  cases e with
  | option option => exact hrow payloads.options option
  | item item => exact hrow payloads.items item

end Written

/-! ## A move -/

section Moves

variable {TOption TItem : Type} {group : Group TOption TItem} {payloads : Payloads}

theorem keys_reordered (group : Group TOption TItem) (payloads : Payloads) :
    (group.reordered payloads).keys = group.keys := by
  unfold Group.keys
  rw [entries_reordered, List.map_map]
  exact List.map_congr_left fun e _ => key_renumbered payloads e

theorem Group.Keyed.reordered (h : group.Keyed) (payloads : Payloads) :
    (group.reordered payloads).Keyed := by
  have hids : ∀ {α : Type} (payload : Option (List SortEntry)) (rows : List (Row α)),
      (rows.map (·.renumbered payload)).map (·.id) = rows.map (·.id) := by
    intro α payload rows
    rw [List.map_map]
    exact List.map_congr_left fun row _ => id_renumbered payload row
  refine ⟨?_, ?_⟩
  · unfold Group.reordered
    rw [hids]
    exact h.options
  · unfold Group.reordered
    rw [hids]
    exact h.items

theorem reordered_none (group : Group TOption TItem) : group.reordered ⟨none, none⟩ = group := by
  unfold Group.reordered
  have hrow : ∀ {α : Type} (rows : List (Row α)), rows.map (·.renumbered none) = rows := by
    intro α rows
    exact (List.map_congr_left fun row _ => rfl).trans (List.map_id rows)
  rw [hrow, hrow]

theorem eq_of_map_eq {α β : Type} {f : α → β} {s : List α} (hs : (s.map f).Nodup) {l m : List α}
    (hl : ∀ a ∈ l, a ∈ s) (hm : ∀ a ∈ m, a ∈ s) (h : l.map f = m.map f) : l = m := by
  induction l generalizing m with
  | nil => exact (List.map_eq_nil_iff.1 h.symm).symm
  | cons a l ih =>
    cases m with
    | nil => simp at h
    | cons b m =>
      rw [List.map_cons, List.map_cons, List.cons.injEq] at h
      rw [List.inj_on_of_nodup_map hs (hl a List.mem_cons_self) (hm b List.mem_cons_self) h.1,
        ih (fun c hc => hl c (List.mem_cons_of_mem a hc))
          (fun c hc => hm c (List.mem_cons_of_mem b hc)) h.2]

/-- A move as it is carried out: of a sequence, where its entry goes, and what
is written. -/
structure Move (group : Group TOption TItem) (index target : ℕ) (payloads : Payloads) : Prop where
  keyed : group.Keyed
  index_lt : index < (mergedEntries group).length
  target_lt : target < (mergedEntries group).length
  ne : target ≠ index
  /-- What is written: the kinds of the two, as they stand afterwards. -/
  written : ∀ kind, payloads.of kind =
    if kind = ((mergedEntries group)[index]).kind ∨ kind = ((mergedEntries group)[target]).kind then
      some (numberedOf (exchange (mergedEntries group) index target) kind)
    else none

namespace Move

variable {index target : ℕ} (h : Move group index target payloads)

include h

theorem perm : ((exchange (mergedEntries group) index target).map
    (·.renumbered payloads)).Perm (group.reordered payloads).entries := by
  rw [entries_reordered]
  exact ((exchange_perm h.index_lt h.target_lt).trans (List.perm_insertionSort _ _)).map _

theorem nodup_keys : ((exchange (mergedEntries group) index target).map (·.key)).Nodup :=
  ((((exchange_perm h.index_lt h.target_lt).trans
    (List.perm_insertionSort _ _)).map _).nodup_iff).2 h.keyed.nodup

/-- **What number an entry has after the move**: that of its place, where its
kind is written. -/
theorem sortOrder {position : ℕ} {e : Entry TOption TItem}
    (he : (exchange (mergedEntries group) index target)[position]? = some e) :
    (e.renumbered payloads).sortOrder =
      if e.kind = (getElem (mergedEntries group) index h.index_lt).kind ∨
        e.kind = (getElem (mergedEntries group) target h.target_lt).kind then sortOrderFor position
      else e.sortOrder := by
  rw [sortOrder_renumbered, h.written]
  split
  · rw [Option.getD_some, find?_numberedOf h.nodup_keys he rfl]
    rfl
  · rfl

/-- **The move is made** exactly where all stands in order once it is. -/
theorem made_iff : (mergedEntries (group.reordered payloads)).map (·.key) =
      (exchange (mergedEntries group) index target).map (·.key) ↔
    ∀ (i j : ℕ) (e f : Entry TOption TItem),
      (exchange (mergedEntries group) index target)[i]? = some e →
      (exchange (mergedEntries group) index target)[j]? = some f → i < j →
        StandsBefore group.keys (e.renumbered payloads) (f.renumbered payloads) := by
  have hkeyed := h.keyed.reordered payloads
  have hkeys : (exchange (mergedEntries group) index target).map (·.key) =
      ((exchange (mergedEntries group) index target).map (·.renumbered payloads)).map (·.key) := by
    rw [List.map_map]
    exact List.map_congr_left fun e _ => (key_renumbered payloads e).symm
  have hsame : (mergedEntries (group.reordered payloads)).map (·.key) =
      (exchange (mergedEntries group) index target).map (·.key) ↔
      mergedEntries (group.reordered payloads) =
        (exchange (mergedEntries group) index target).map (·.renumbered payloads) := by
    rw [hkeys]
    refine ⟨fun heq => eq_of_map_eq hkeyed.nodup (fun a ha => ?_) (fun a ha => ?_) heq,
      fun heq => by rw [heq]⟩
    · exact (List.mem_insertionSort _).1 ha
    · exact h.perm.mem_iff.1 ha
  rw [hsame, mergedEntries_eq_iff hkeyed h.perm, keys_reordered, List.pairwise_map,
    List.pairwise_iff_getElem]
  constructor
  · intro hall i j e f he hf hij
    obtain ⟨hi, rfl⟩ := List.getElem?_eq_some_iff.1 he
    obtain ⟨hj, rfl⟩ := List.getElem?_eq_some_iff.1 hf
    exact hall i j hi hj hij
  · intro hall i j hi hj hij
    exact hall i j _ _ (List.getElem?_eq_getElem hi) (List.getElem?_eq_getElem hj) hij

omit h in
theorem standsBefore_of_written {i j : ℕ} {e f : Entry TOption TItem} (hij : i < j)
    (he : (e.renumbered payloads).sortOrder = sortOrderFor i)
    (hf : (f.renumbered payloads).sortOrder = sortOrderFor j) :
    StandsBefore group.keys (e.renumbered payloads) (f.renumbered payloads) := by
  have hlt : (e.renumbered payloads).sortOrder < (f.renumbered payloads).sortOrder := by
    rw [he, hf]
    unfold sortOrderFor
    omega
  exact ⟨hlt.le, fun hle => absurd hlt (not_lt.2 hle)⟩

theorem mem_keys {position : ℕ} {e : Entry TOption TItem}
    (he : (exchange (mergedEntries group) index target)[position]? = some e) :
    (e.renumbered payloads).key ∈ group.keys := by
  rw [key_renumbered]
  refine List.mem_map_of_mem ?_
  exact (List.mem_insertionSort _).1
    ((exchange_perm h.index_lt h.target_lt).mem_iff.1 (List.mem_of_getElem? he))

theorem made_of_kinds (hkinds : (getElem (mergedEntries group) index h.index_lt).kind ≠
    (getElem (mergedEntries group) target h.target_lt).kind) :
    (mergedEntries (group.reordered payloads)).map (·.key) =
      (exchange (mergedEntries group) index target).map (·.key) := by
  refine h.made_iff.2 fun i j e f he hf hij => standsBefore_of_written hij ?_ ?_
  all_goals
    rw [h.sortOrder (by assumption), if_pos]
    generalize Entry.kind _ = a at hkinds ⊢
    generalize Entry.kind _ = b at hkinds ⊢
    generalize Entry.kind _ = c at hkinds ⊢
    revert hkinds
    cases a <;> cases b <;> cases c <;> simp

/-! Where both are of one kind, an entry of another kind stands where it stood,
and a place of that kind is one still. -/

section
variable {kind : Kind} (hindex : (getElem (mergedEntries group) index h.index_lt).kind = kind)
  (htarget : (getElem (mergedEntries group) target h.target_lt).kind = kind)
include h hindex htarget

theorem exchanged_cases (p : ℕ) :
    ((∃ e : Entry TOption TItem, e.kind = kind ∧
        (exchange (mergedEntries group) index target)[p]? = some e) ∧
      ∃ e : Entry TOption TItem, e.kind = kind ∧ (mergedEntries group)[p]? = some e) ∨
    (exchange (mergedEntries group) index target)[p]? = (mergedEntries group)[p]? := by
  rw [getElem?_exchange h.index_lt h.target_lt]
  split
  · next heq =>
    rw [heq, List.getElem?_eq_getElem h.index_lt, List.getElem?_eq_getElem h.target_lt]
    exact .inl ⟨⟨_, hindex, rfl⟩, _, htarget, rfl⟩
  · split
    · next heq =>
      rw [heq, List.getElem?_eq_getElem h.index_lt, List.getElem?_eq_getElem h.target_lt]
      exact .inl ⟨⟨_, htarget, rfl⟩, _, hindex, rfl⟩
    · exact .inr rfl

theorem kept_of_kind_ne {p : ℕ} {e : Entry TOption TItem} (he : e.kind ≠ kind) :
    (exchange (mergedEntries group) index target)[p]? = some e ↔
      (mergedEntries group)[p]? = some e := by
  obtain ⟨⟨f, hf, hfp⟩, g, hg, hgp⟩ | hsame := h.exchanged_cases hindex htarget p
  · rw [hfp, hgp]
    exact iff_of_false (fun heq => he (Option.some.inj heq ▸ hf))
      (fun heq => he (Option.some.inj heq ▸ hg))
  · rw [hsame]

theorem place_of_kind (q : ℕ) :
    (∃ f : Entry TOption TItem, f.kind = kind ∧
      (exchange (mergedEntries group) index target)[q]? = some f) ↔
        ∃ f : Entry TOption TItem, f.kind = kind ∧ (mergedEntries group)[q]? = some f := by
  obtain ⟨hafter, hbefore⟩ | hsame := h.exchanged_cases hindex htarget q
  · exact iff_of_true hafter hbefore
  · rw [hsame]

theorem sortOrder_of_kind {p : ℕ} {e : Entry TOption TItem}
    (he : (exchange (mergedEntries group) index target)[p]? = some e) :
    (e.renumbered payloads).sortOrder =
      if e.kind = kind then sortOrderFor p else e.sortOrder := by
  rw [h.sortOrder he, hindex, htarget]
  exact if_congr or_self_iff rfl rfl

end

omit h in
theorem standsBefore_of_kept {e f : Entry TOption TItem}
    (he : (e.renumbered payloads).sortOrder = e.sortOrder)
    (hf : (f.renumbered payloads).sortOrder = f.sortOrder)
    (hstands : StandsBefore group.keys e f) :
    StandsBefore group.keys (e.renumbered payloads) (f.renumbered payloads) := by
  unfold StandsBefore Sorting.Lex ArrivesBefore at *
  simpa only [he, hf, key_renumbered] using hstands

/-- **Where both are of one kind, the entries of the other keep their places.** -/
theorem made_iff_keepPlaces {kind : Kind}
    (hindex : (getElem (mergedEntries group) index h.index_lt).kind = kind)
    (htarget : (getElem (mergedEntries group) target h.target_lt).kind = kind) :
    (mergedEntries (group.reordered payloads)).map (·.key) =
      (exchange (mergedEntries group) index target).map (·.key) ↔
        KeepPlaces (mergedEntries group) kind := by
  have hnumber : ∀ {p : ℕ} {e : Entry TOption TItem},
      (exchange (mergedEntries group) index target)[p]? = some e → (e.renumbered payloads).sortOrder
        = if e.kind = kind then sortOrderFor p else e.sortOrder :=
    h.sortOrder_of_kind hindex htarget
  have hkept : ∀ {p : ℕ} {e : Entry TOption TItem}, e.kind ≠ kind →
      ((exchange (mergedEntries group) index target)[p]? = some e ↔
        (mergedEntries group)[p]? = some e) := h.kept_of_kind_ne hindex htarget
  have hplace := h.place_of_kind hindex htarget
  have hrenumberedKind : ∀ e : Entry TOption TItem, (e.renumbered payloads).kind = e.kind :=
    fun e => congrArg Prod.fst (key_renumbered payloads e)
  -- The other kind is an option exactly where the one written is an item.
  have hother : ∀ {e : Entry TOption TItem}, e.kind ≠ kind → (e.kind = .option ↔ kind = .item) := by
    intro e he
    cases hk : e.kind <;> cases kind <;> simp_all
  rw [h.made_iff]
  constructor
  · intro hall p q e f he hf hekind hfkind
    obtain ⟨f', hf'kind, hf'⟩ := (hplace q).2 ⟨f, hfkind, hf⟩
    have he' := (hkept hekind).2 he
    have hne : (e.renumbered payloads).kind ≠ (f'.renumbered payloads).kind := by
      rw [hrenumberedKind, hrenumberedKind, hf'kind]
      exact hekind
    refine ⟨fun hlt => ?_, fun hlt => ?_⟩
    · have hstands := (standsBefore_iff (h.mem_keys he') (h.mem_keys hf') hne).1
        (hall p q e f' he' hf' hlt)
      rw [hnumber he', hnumber hf', if_neg hekind, if_pos hf'kind, hrenumberedKind] at hstands
      simpa only [hother hekind] using hstands
    · have hstands := (standsBefore_iff (h.mem_keys hf') (h.mem_keys he') hne.symm).1
        (hall q p f' e hf' he' hlt)
      rw [hnumber he', hnumber hf', if_neg hekind, if_pos hf'kind, hrenumberedKind, hf'kind]
        at hstands
      cases kind with
      | option => simpa using hstands
      | item => simpa using hstands
  · intro hkeep i j e f he hf hij
    by_cases hekind : e.kind = kind
    · by_cases hfkind : f.kind = kind
      · exact standsBefore_of_written hij (by rw [hnumber he, if_pos hekind])
          (by rw [hnumber hf, if_pos hfkind])
      · obtain ⟨e', he'kind, he'⟩ := (hplace i).1 ⟨e, hekind, he⟩
        have hplaces := (hkeep j i f e' ((hkept hfkind).1 hf) he' hfkind he'kind).2 hij
        refine (standsBefore_iff (h.mem_keys he) (h.mem_keys hf) ?_).2 ?_
        · rw [hrenumberedKind, hrenumberedKind, hekind]
          exact Ne.symm hfkind
        · rw [hnumber he, hnumber hf, if_pos hekind, if_neg hfkind, hrenumberedKind, hekind]
          cases kind with
          | option => simpa using hplaces
          | item => simpa using hplaces
    · by_cases hfkind : f.kind = kind
      · obtain ⟨f', hf'kind, hf'⟩ := (hplace j).1 ⟨f, hfkind, hf⟩
        have hplaces := (hkeep i j e f' ((hkept hekind).1 he) hf' hekind hf'kind).1 hij
        refine (standsBefore_iff (h.mem_keys he) (h.mem_keys hf) ?_).2 ?_
        · rw [hrenumberedKind, hrenumberedKind, hfkind]
          exact hekind
        · rw [hnumber he, hnumber hf, if_neg hekind, if_pos hfkind, hrenumberedKind]
          simpa only [hother hekind] using hplaces
      · -- Neither is written: they stand as they stood.
        have hsorted := (mergedEntries_eq_iff h.keyed (List.perm_insertionSort _ _)).1 rfl
        obtain ⟨hi, rfl⟩ := List.getElem?_eq_some_iff.1 ((hkept hekind).1 he)
        obtain ⟨hj, rfl⟩ := List.getElem?_eq_some_iff.1 ((hkept hfkind).1 hf)
        have hbefore := List.pairwise_iff_getElem.1 hsorted i j hi hj hij
        exact standsBefore_of_kept ((hnumber he).trans (if_neg hekind))
          ((hnumber hf).trans (if_neg hfkind)) hbefore

end Move

theorem move_of_target (h : group.Keyed) {index target : ℕ} {direction : Direction}
    (hindex : index < (mergedEntries group).length)
    (htarget : target? (mergedEntries group).length index direction = some target) :
    Move group index target (reorderPayloads (mergedEntries group) index direction) := by
  have hlt := target?_lt htarget
  have hne := target?_ne htarget
  refine ⟨h, hindex, hlt, hne, fun kind => ?_⟩
  have hmoved : movedKinds (exchange (mergedEntries group) index target) index target =
      [((mergedEntries group)[target]).kind, ((mergedEntries group)[index]).kind] := by
    unfold movedKinds
    rw [getElem?_exchange hindex hlt, getElem?_exchange hindex hlt, if_neg hne.symm, if_pos rfl,
      if_pos rfl, List.getElem?_eq_getElem hindex, List.getElem?_eq_getElem hlt]
    rfl
  unfold reorderPayloads
  rw [htarget]
  dsimp only
  rw [hmoved]
  have hmem : ∀ a b c : Kind, a ∈ [b, c] ↔ a = c ∨ a = b := by
    intro a b c
    rw [List.mem_pair]
    exact or_comm
  cases kind with
  | option => exact if_congr (hmem _ _ _) rfl rfl
  | item => exact if_congr (hmem _ _ _) rfl rfl

/-- **Moving an entry moves exactly that entry** where its neighbour is of the
other kind, and where it is of its own exactly where the other table's numbers
happen to lie between those of the places its rows stand among. -/
theorem moves_one_iff (h : group.Keyed) {index : ℕ} (hindex : index < (mergedEntries group).length)
    (direction : Direction) :
    (mergedEntries (group.reordered
        (reorderPayloads (mergedEntries group) index direction))).map (·.key) =
      (movedOne (mergedEntries group) index direction).map (·.key) ↔
    ∀ target kind, target? (mergedEntries group).length index direction = some target →
      (mergedEntries group)[index]?.map (·.kind) = some kind →
        (mergedEntries group)[target]?.map (·.kind) = some kind →
          KeepPlaces (mergedEntries group) kind := by
  unfold movedOne
  cases htarget : target? (mergedEntries group).length index direction with
  | none =>
    refine iff_of_true ?_ fun target kind hnone => absurd hnone.symm (Option.some_ne_none target)
    unfold reorderPayloads
    rw [htarget]
    exact congrArg (fun g => (mergedEntries g).map (·.key)) (reordered_none group)
  | some target =>
    have hmove := move_of_target h hindex htarget
    have hlt := hmove.target_lt
    dsimp only
    by_cases hkinds : ((mergedEntries group)[index]).kind = ((mergedEntries group)[target]).kind
    · rw [hmove.made_iff_keepPlaces hkinds rfl]
      constructor
      · intro hkeep target' kind htarget' _ hkind
        obtain rfl := Option.some.inj htarget'
        rw [List.getElem?_eq_getElem hlt] at hkind
        obtain rfl := Option.some.inj hkind
        exact hkeep
      · intro hall
        refine hall target _ rfl ?_ ?_
        · rw [List.getElem?_eq_getElem hindex]
          exact congrArg some hkinds
        · rw [List.getElem?_eq_getElem hlt]
          rfl
    · refine iff_of_true (hmove.made_of_kinds hkinds) fun target' kind htarget' hkind hkind' => ?_
      obtain rfl := Option.some.inj htarget'
      rw [List.getElem?_eq_getElem hindex] at hkind
      rw [List.getElem?_eq_getElem hlt] at hkind'
      exact absurd ((Option.some.inj hkind).trans (Option.some.inj hkind').symm) hkinds

/-- Two options and three items, numbered by where they stand. -/
def numberedTogether : Group Unit Unit where
  options := [⟨"A", 10, ()⟩, ⟨"B", 30, ()⟩]
  items := [⟨"h", 20, ()⟩, ⟨"p", 40, ()⟩, ⟨"d", 50, ()⟩]

/-- Its paragraph moves past its divider, and the options keep their places. -/
theorem keepPlaces_numberedTogether : KeepPlaces (mergedEntries numberedTogether) .item :=
  (moves_one_iff ⟨by decide, by decide⟩ (by decide) .down).1 (by decide : (mergedEntries
    (numberedTogether.reordered (reorderPayloads (mergedEntries numberedTogether) 3 .down))).map
      (·.key) = (movedOne (mergedEntries numberedTogether) 3 .down).map (·.key)) 4 .item rfl rfl rfl

/-- They, numbered as each table numbers its own. -/
def numberedApart : Group Unit Unit where
  options := [⟨"A", 10, ()⟩, ⟨"B", 20, ()⟩]
  items := [⟨"h", 10, ()⟩, ⟨"p", 20, ()⟩, ⟨"d", 30, ()⟩]

/-- **Moving the paragraph past the divider puts the second option before the
heading.** -/
theorem moves_another : ¬ ∀ (group : Group Unit Unit), group.Keyed → ∀ index direction,
    index < (mergedEntries group).length →
      (mergedEntries (group.reordered
          (reorderPayloads (mergedEntries group) index direction))).map (·.key) =
        (movedOne (mergedEntries group) index direction).map (·.key) := by
  intro h
  have hmoved := h numberedApart ⟨by decide, by decide⟩ 3 .down (by decide)
  revert hmoved
  decide

end Moves

/-! ## Moving a group -/

end Optionia.Editor
