import Optionia.Engine.HiddenInputs
import Optionia.Engine.Written
import Optionia.Php.Keys
import Mathlib.Algebra.BigOperators.Group.List.Basic
import Mathlib.Algebra.Order.Ring.Nat
/-!
# Selections in another order

What a selection comes to is up to the selection (`turn_eq`): what was taken
before it tells only whether all texts together are too much. So a loop that
refuses nothing writes its entries in the order of the selections
(`holds_takeAll`), and it refuses nothing of them in another order either
(`takeAll_perm`). Only the price is summed in that order.
-/

namespace Optionia.Engine.SelectionResolver

open Php Rules

/-! ## What a selection comes to -/

/-- What a selection comes to, whatever was taken before it. -/
inductive Verdict where
  | refused (violation : Violation)
  | skipped
  | answered (option : Value) (answer : String)
  | chosen (option : Value) (keys : List String)

/-- What the keys sent for an option come to. -/
def verdictOfKeys (ctx : Context) (option : Value) (keys : List String) : Verdict :=
  match read ctx.platform ctx.today option (keys.headD "") with
  | some .skipped => .skipped
  | some (.refused violation) => .refused violation
  | some (.taken answer) => .answered option answer
  | none =>
    match choiceViolation ctx option keys with
    | some violation => .refused violation
    | none => .chosen option (authored option keys)

def verdict (ctx : Context) (selection : String × Value) : Verdict :=
  match ctx.options.get? selection.1 with
  | none => .refused ⟨errorUnknownOption, []⟩
  | some option =>
    if ctx.ruleHidden selection.1 then .refused ⟨errorHiddenByRule, []⟩
    else match sentKeys option selection.2 with
      | none => .refused ⟨errorNotScalar, []⟩
      | some [] => .skipped
      | some keys => verdictOfKeys ctx option (distinct (keys.map Value.castString))

def Taken.settle (t : Taken) (ctx : Context) (id : String) : Verdict → Taken
  | .refused violation => t.refuse id violation
  | .skipped => t
  | .answered option answer => t.answer ctx id option (.taken answer)
  | .chosen option keys => t.choose ctx id option keys

theorem take_eq (ctx : Context) (t : Taken) (id : String) (option : Value) (keys : List String) :
    t.take ctx id option keys = t.settle ctx id (verdictOfKeys ctx option keys) := by
  unfold Taken.take verdictOfKeys
  cases hread : read ctx.platform ctx.today option (keys.headD "") with
  | some reading =>
    cases reading with
    | skipped => rfl
    | refused violation => rfl
    | taken answer => rfl
  | none =>
    dsimp only
    cases choiceViolation ctx option keys with
    | some violation => rfl
    | none => rfl

/-- **A turn carries out what its selection comes to.** -/
theorem turn_eq (ctx : Context) (t : Taken) (selection : String × Value) :
    t.turn ctx selection = t.settle ctx selection.1 (verdict ctx selection) := by
  unfold Taken.turn verdict
  cases hoption : ctx.options.get? selection.1 with
  | none => rfl
  | some option =>
    dsimp only
    by_cases hhidden : ctx.ruleHidden selection.1 = true
    · rw [if_pos hhidden, if_pos hhidden]
      rfl
    · rw [if_neg hhidden, if_neg hhidden]
      cases sentKeys option selection.2 with
      | none => rfl
      | some sent =>
        cases sent with
        | nil => rfl
        | cons first rest => exact take_eq ctx t _ option _

/-! ## What it writes -/

/-- What is written of an option. -/
structure Written where
  answer : Value
  delta : Value
  label : Value

/-- What chosen values add to the price. -/
def choiceDelta (ctx : Context) (id : String) (option : Value) (keys : List String) : Value :=
  ((keys.map (valueAt option)).foldl (fun (added : Added) value => added.add ctx id option value)
    ⟨.int 0, [], .int 0⟩).total

/-- What is shown of chosen values. -/
def choiceLabel (option : Value) (keys : List String) : Value :=
  let labels := (keys.map (valueAt option)).map (labelsFor option)
  if takesMany option then .ofList labels else labels.headD .null

/-- What a verdict writes, if anything. -/
def Verdict.written? (ctx : Context) (id : String) : Verdict → Option Written
  | .answered option answer =>
    some ⟨.str answer, .int (answerDelta ctx id option answer), label option answer⟩
  | .chosen option keys =>
    some ⟨stored option keys, choiceDelta ctx id option keys, choiceLabel option keys⟩
  | _ => none

/-- The bytes of text it counts. -/
def Verdict.bytes : Verdict → ℕ
  | .answered option answer =>
    if isFreeText option && !isHidden option then answer.utf8ByteSize else 0
  | _ => 0

def Verdict.accepted : Verdict → Bool
  | .refused _ => false
  | _ => true

/-- A loop's answers, prices and labels are these. -/
structure Taken.Holds (t : Taken) (ws : List (String × Written)) : Prop where
  chosen : t.chosen.entries = ws.map fun p => (p.1, p.2.answer)
  deltas : t.deltas.entries = ws.map fun p => (p.1, p.2.delta)
  labels : t.labels.entries = ws.map fun p => (p.1, p.2.label)

variable {t : Taken} {ws : List (String × Written)} {ctx : Context}
  {entries : List (String × Value)} {selections : OrderedMap String Value} {P : Platform}
  {optionSets : List Value} {today : Option String}

theorem Taken.Holds.write {t' : Taken} (ht : t.Holds ws) {id : String}
    (hfresh : id ∉ ws.map Prod.fst) {w : Written} (hchosen : t'.chosen = t.chosen.set id w.answer)
    (hdeltas : t'.deltas = t.deltas.set id w.delta)
    (hlabels : t'.labels = t.labels.set id w.label) : t'.Holds (ws ++ [(id, w)]) := by
  have happend : ∀ {m m' : OrderedMap String Value} {f : Written → Value},
      m.entries = ws.map (fun p => (p.1, f p.2)) → m' = m.set id (f w) →
      m'.entries = (ws ++ [(id, w)]).map fun p => (p.1, f p.2) := by
    intro m m' f hm hset
    have hkeys : m.keys = ws.map Prod.fst := by
      unfold OrderedMap.keys
      rw [hm, List.map_map]
      rfl
    have hid : id ∉ m.keys := by rwa [hkeys]
    rw [hset, OrderedMap.entries_set_of_not_mem hid, hm, List.map_append]
    rfl
  exact ⟨happend ht.chosen hchosen, happend ht.deltas hdeltas, happend ht.labels hlabels⟩

/-- What a verdict adds to a loop without errors: its bytes, and its entry. -/
theorem settle_spec (ctx : Context) (id : String) (v : Verdict) (herrors : t.errors = [])
    (hbytes : t.textBytes ≤ maxTextBytes) : ((t.settle ctx id v).errors = [] ↔
        v.accepted = true ∧ t.textBytes + v.bytes ≤ maxTextBytes) ∧
      ((t.settle ctx id v).errors = [] →
        (t.settle ctx id v).textBytes = t.textBytes + v.bytes ∧
          ∀ ws : List (String × Written), t.Holds ws → id ∉ ws.map Prod.fst →
            (t.settle ctx id v).Holds (ws ++ ((v.written? ctx id).map (id, ·)).toList)) := by
  cases v with
  | refused violation =>
    refine ⟨⟨fun h => absurd h (refuse_errors_ne_nil t id violation), fun h => ?_⟩, fun h => ?_⟩
    · exact absurd h.1 Bool.false_ne_true
    · exact absurd h (refuse_errors_ne_nil t id violation)
  | skipped =>
    refine ⟨⟨fun _ => ⟨rfl, hbytes⟩, fun _ => herrors⟩, fun _ => ⟨rfl, fun ws hws _ => ?_⟩⟩
    have hsame : ws ++ ((Verdict.skipped.written? ctx id).map (id, ·)).toList = ws :=
      List.append_nil ws
    rw [hsame]
    exact hws
  | chosen option keys =>
    refine ⟨⟨fun _ => ⟨rfl, hbytes⟩, fun _ => herrors⟩, fun _ => ⟨rfl, fun ws hws hid => ?_⟩⟩
    refine hws.write hid rfl ?_ rfl
    change t.deltas.set id _ = t.deltas.set id (choiceDelta ctx id option keys)
    unfold choiceDelta
    exact congrArg (t.deltas.set id) (total_foldl ctx id option _ rfl)
  | answered option answer =>
    have hwritten : ∀ {u : Taken} (ws : List (String × Written)), u.Holds ws →
        id ∉ ws.map Prod.fst → (u.accept ctx id option answer).Holds
          (ws ++ (((Verdict.answered option answer).written? ctx id).map (id, ·)).toList) :=
      fun ws hws hid => hws.write hid rfl (deltas_accept _ ctx id option answer) rfl
    by_cases htext : (isFreeText option && !isHidden option) = true
    · have hcount : (Verdict.answered option answer).bytes = answer.utf8ByteSize := if_pos htext
      rw [hcount]
      by_cases hmuch : maxTextBytes < t.textBytes + answer.utf8ByteSize
      · have hturn : t.settle ctx id (.answered option answer) =
            ({ t with textBytes := t.textBytes + answer.utf8ByteSize } : Taken).refuse id
              ⟨errorTooMuchText, [("max_bytes", .int maxTextBytes)]⟩ :=
          (if_pos htext).trans (if_pos hmuch)
        rw [hturn]
        refine ⟨⟨fun h => absurd h (refuse_errors_ne_nil _ id _), fun h => ?_⟩, fun h => ?_⟩
        · exact absurd h.2 (not_le.2 hmuch)
        · exact absurd h (refuse_errors_ne_nil _ id _)
      · have hturn : t.settle ctx id (.answered option answer) =
            ({ t with textBytes := t.textBytes + answer.utf8ByteSize } : Taken).accept ctx id
              option answer := (if_pos htext).trans (if_neg hmuch)
        rw [hturn]
        refine ⟨⟨fun _ => ⟨rfl, not_lt.1 hmuch⟩, fun _ => herrors⟩, fun _ => ⟨rfl, ?_⟩⟩
        exact fun ws hws => hwritten ws ⟨hws.chosen, hws.deltas, hws.labels⟩
    · have hcount : (Verdict.answered option answer).bytes = 0 := if_neg htext
      have hturn : t.settle ctx id (.answered option answer) = t.accept ctx id option answer :=
        if_neg htext
      rw [hcount, hturn]
      exact ⟨⟨fun _ => ⟨rfl, hbytes⟩, fun _ => herrors⟩, fun _ => ⟨rfl, hwritten⟩⟩

/-! ## The loop -/

/-- What a loop over selections writes. -/
def writtenOf (ctx : Context) (entries : List (String × Value)) : List (String × Written) :=
  entries.flatMap fun p => (((verdict ctx p).written? ctx p.1).map (p.1, ·)).toList

/-- Nothing of the selections is refused for itself, and their texts are
together not too much. -/
def Accepted (ctx : Context) (bytes : ℕ) (entries : List (String × Value)) : Prop :=
  (∀ p ∈ entries, (verdict ctx p).accepted = true) ∧
    bytes + (entries.map fun p => (verdict ctx p).bytes).sum ≤ maxTextBytes

/-- **A loop refuses nothing where nothing is refused for itself and the texts
are not too much.** -/
theorem errors_foldl_iff (herrors : t.errors = []) (hbytes : t.textBytes ≤ maxTextBytes) :
    (entries.foldl (Taken.turn ctx) t).errors = [] ↔ Accepted ctx t.textBytes entries := by
  induction entries generalizing t with
  | nil => exact ⟨fun _ => ⟨fun p hp => absurd hp List.not_mem_nil, hbytes⟩, fun _ => herrors⟩
  | cons p entries ih =>
    obtain ⟨hiff, hwrites⟩ := settle_spec ctx p.1 (verdict ctx p) herrors hbytes
    rw [← turn_eq] at hiff hwrites
    rw [List.foldl_cons]
    constructor
    · intro h
      have hturn := errors_foldl ctx entries _ h
      obtain ⟨haccepted, hfits⟩ := hiff.1 hturn
      have hcount := (hwrites hturn).1
      have hrest := (ih hturn (hcount ▸ hfits)).1 h
      refine ⟨List.forall_mem_cons.2 ⟨haccepted, hrest.1⟩, ?_⟩
      rw [List.map_cons, List.sum_cons, ← Nat.add_assoc, ← hcount]
      exact hrest.2
    · rintro ⟨haccepted, hfits⟩
      rw [List.map_cons, List.sum_cons, ← Nat.add_assoc] at hfits
      obtain ⟨hfirst, hrest⟩ := List.forall_mem_cons.1 haccepted
      have hfirstFits := (Nat.le_add_right _ _).trans hfits
      have hturn := hiff.2 ⟨hfirst, hfirstFits⟩
      have hcount := (hwrites hturn).1
      refine (ih hturn (hcount ▸ hfirstFits)).2 ⟨hrest, ?_⟩
      rwa [hcount]

/-- **Such a loop writes its entries in the order of the selections.** -/
theorem holds_foldl (ws : List (String × Written)) (hbytes : t.textBytes ≤ maxTextBytes)
    (ht : t.Holds ws) (hnodup : (entries.map Prod.fst).Nodup)
    (hfresh : ∀ id ∈ entries.map Prod.fst, id ∉ ws.map Prod.fst)
    (h : (entries.foldl (Taken.turn ctx) t).errors = []) :
    (entries.foldl (Taken.turn ctx) t).Holds (ws ++ writtenOf ctx entries) := by
  induction entries generalizing t ws with
  | nil => exact (List.append_nil ws).symm ▸ ht
  | cons p entries ih =>
    rw [List.foldl_cons] at h ⊢
    have hturn := errors_foldl ctx entries _ h
    have herrors := errors_foldl ctx [p] t hturn
    obtain ⟨hiff, hwrites⟩ := settle_spec ctx p.1 (verdict ctx p) herrors hbytes
    rw [← turn_eq] at hiff hwrites
    obtain ⟨hcount, hholds⟩ := hwrites hturn
    obtain ⟨hp, hrest⟩ := List.nodup_cons.1 hnodup
    obtain ⟨hpFresh, hrestFresh⟩ := List.forall_mem_cons.1 hfresh
    have hnext := ih _ (hcount ▸ (hiff.1 hturn).2) (hholds ws ht hpFresh) hrest ?_ h
    · unfold writtenOf at hnext ⊢
      rwa [List.flatMap_cons, ← List.append_assoc]
    · intro id hid hmem
      rw [List.map_append, List.mem_append] at hmem
      rcases hmem with hmem | hmem
      · exact hrestFresh id hid hmem
      · obtain ⟨w, hw, rfl⟩ := List.mem_map.1 hmem
        obtain ⟨w', -, rfl⟩ := Option.map_eq_some_iff.1 (Option.mem_toList.1 hw)
        exact hp hid

/-- The loop over a request refuses nothing where nothing of it is refused for
itself. -/
theorem errors_takeAll_iff :
    (takeAll ctx selections).errors = [] ↔ Accepted ctx 0 selections.entries :=
  errors_foldl_iff rfl (Nat.zero_le _)

/-- **It writes its entries in the order of the request.** -/
theorem holds_takeAll (h : (takeAll ctx selections).errors = []) :
    (takeAll ctx selections).Holds (writtenOf ctx selections.entries) :=
  holds_foldl [] (Nat.zero_le _) ⟨rfl, rfl, rfl⟩ selections.nodup
    (fun _ _ => List.not_mem_nil) h

/-- **A request in another order is refused as little.** -/
theorem takeAll_perm {selections' : OrderedMap String Value}
    (hperm : selections'.entries.Perm selections.entries)
    (h : (takeAll ctx selections).errors = []) : (takeAll ctx selections').errors = [] := by
  obtain ⟨haccepted, hbytes⟩ := errors_takeAll_iff.1 h
  refine errors_takeAll_iff.2 ⟨fun p hp => haccepted p (hperm.mem_iff.1 hp), ?_⟩
  rwa [(hperm.map fun p => (verdict ctx p).bytes).sum_eq]

/-! ## In the order of the keys -/

/-- What is written of a selection, where something is. -/
def writtenAt (ctx : Context) (p : String × Value) : Written :=
  ((verdict ctx p).written? ctx p.1).getD ⟨.null, .null, .null⟩

/-- A loop that stores its own selections writes something of each. -/
theorem writtenOf_eq_map (h : (takeAll ctx selections).errors = [])
    (hsame : (takeAll ctx selections).chosen = selections)
    (hentries : entries ⊆ selections.entries) :
    writtenOf ctx entries = entries.map fun p => (p.1, writtenAt ctx p) := by
  have hwritten : ∀ p ∈ selections.entries,
      (verdict ctx p).written? ctx p.1 = some (writtenAt ctx p) := by
    intro p hp
    have hholds := (holds_takeAll h).chosen
    have hmem : p.1 ∈ (writtenOf ctx selections.entries).map Prod.fst := by
      have hkey : p.1 ∈ (takeAll ctx selections).chosen.keys := by
        rw [hsame]
        exact List.mem_map_of_mem hp
      unfold OrderedMap.keys at hkey
      rwa [hholds, List.map_map] at hkey
    -- What was written under the key comes of the only selection that bears it.
    obtain ⟨w, hw, hkey⟩ := List.mem_map.1 hmem
    obtain ⟨q, hq, hqw⟩ := List.mem_flatMap.1 hw
    obtain ⟨w', hw', rfl⟩ := Option.map_eq_some_iff.1 (Option.mem_toList.1 hqw)
    obtain rfl : q = p := List.inj_on_of_nodup_map selections.nodup hq hp hkey
    unfold writtenAt
    rw [hw']
    rfl
  unfold writtenOf
  induction entries with
  | nil => rfl
  | cons p entries ih =>
    obtain ⟨hp, hrest⟩ := List.cons_subset.1 hentries
    rw [List.flatMap_cons, List.map_cons, ih hrest, hwritten p hp]
    rfl

/-- **A loop over its own selections, in the order of their keys, takes the
same in that order.** -/
theorem takeAll_ksort (h : (takeAll ctx selections).errors = [])
    (hsame : (takeAll ctx selections).chosen = selections) :
    (takeAll ctx (ksort selections)).errors = [] ∧
      (takeAll ctx (ksort selections)).chosen = ksort selections ∧
      (takeAll ctx (ksort selections)).deltas = ksort (takeAll ctx selections).deltas := by
  have herrors := takeAll_perm (entries_ksort selections) h
  have hholds := holds_takeAll h
  have hholds' := holds_takeAll herrors
  rw [writtenOf_eq_map h hsame fun _ hp => hp] at hholds
  rw [writtenOf_eq_map h hsame fun p hp => (entries_ksort selections).mem_iff.1 hp] at hholds'
  have hsorted : ∀ {m m' : OrderedMap String Value} {f : Written → Value},
      m.entries = (selections.entries.map fun p => (p.1, writtenAt ctx p)).map
        (fun p => (p.1, f p.2)) →
      m'.entries = ((ksort selections).entries.map fun p => (p.1, writtenAt ctx p)).map
        (fun p => (p.1, f p.2)) → m' = ksort m := by
    intro m m' f hm hm'
    refine OrderedMap.ext ?_
    change m'.entries = m.entries.insertionSort entryLe
    rw [hm', hm, List.map_map, List.map_map]
    exact List.map_insertionSort _ _ _ selections.entries fun _ _ _ _ => Iff.rfl
  refine ⟨herrors, ?_, hsorted hholds.deltas hholds'.deltas⟩
  rw [hsorted hholds.chosen hholds'.chosen, hsame]

/-! ## Resolving in the order of the keys -/

theorem foldl_require_content {chosen : OrderedMap String Value}
    (h : ∀ p ∈ entries, Content ctx chosen p) :
    entries.foldl (require ctx chosen) (some []) = some [] := by
  induction entries with
  | nil => rfl
  | cons p entries ih =>
    obtain ⟨hp, hrest⟩ := List.forall_mem_cons.1 h
    have hstep : require ctx chosen (some []) p = some [] := by
      unfold require
      rcases hp with hhidden | hnot | htaken
      · rw [if_pos hhidden]
      · rw [hnot, Bool.not_false, Bool.true_or, if_pos rfl, ite_self]
      · rw [OrderedMap.isSome_get?.2 htaken, Bool.or_true, if_pos rfl, ite_self]
    rw [List.foldl_cons, hstep]
    exact ih hrest

theorem ReadAlike.ksort {stored : OrderedMap String Value}
    (h : ReadAlike P optionSets selections stored) :
    ReadAlike P optionSets selections (ksort stored) := by
  intro rule hrule condition hcondition
  rw [← h rule hrule condition hcondition]
  unfold RuleEvaluator.conditionHolds OrderedMap.getD
  rw [get?_ruleAnswers, get?_ruleAnswers, get?_ksort]

/-- What remains after a loop without errors, options all content, that has a
total. -/
theorem conclude_eq {totalMinor : ℤ} (herrors : t.errors = [])
    (hcontent : ∀ p ∈ ctx.options.entries, Content ctx t.chosen p)
    (htotal : total ctx.base t.deltas = some totalMinor) :
    conclude ctx t = .ok (t.resolution totalMinor) := by
  unfold conclude
  rw [herrors, foldl_require_content hcontent]
  dsimp only
  rw [htotal]

/-- **A request is admitted**: its rules settle, none of its selections is
refused, what is required is answered, and the prices can be summed. -/
structure Admitted (P : Platform) (optionSets : List Value) (selections : OrderedMap String Value)
    (base : ℤ) (today : Option String) : Prop where
  settled : (evaluation P optionSets selections).refused = none
  accepted : Accepted
    (context P optionSets base today (evaluation P optionSets selections).states) 0
    selections.entries
  /-- An option that is required and not hidden is answered. -/
  required : ∀ p ∈ (indexOptions optionSets).entries,
    (context P optionSets base today (evaluation P optionSets selections).states).ruleHidden p.1 =
        true ∨
      isRequired (stateAt (evaluation P optionSets selections).states) p.1 p.2 = false ∨
      p.1 ∈ (writtenOf
        (context P optionSets base today (evaluation P optionSets selections).states)
        selections.entries).map Prod.fst
  total : (((writtenOf
    (context P optionSets base today (evaluation P optionSets selections).states)
    selections.entries).mapM fun p : String × Written => p.2.delta.int?).bind (Pricing.sumDeltas base)).isSome = true

/-- The total of a loop's prices is that of the prices its selections come
to. -/
theorem total_of_holds (h : t.Holds ws) (base : ℤ) :
    total base t.deltas = (ws.mapM fun p : String × Written => p.2.delta.int?).bind (Pricing.sumDeltas base) := by
  have hvalues : t.deltas.values = ws.map fun p => p.2.delta := by
    unfold OrderedMap.values
    rw [h.deltas, List.map_map]
    rfl
  unfold total
  rw [hvalues, List.mapM_map]
  rfl

/-- **`resolve` takes the requests that are admitted**, and no others. -/
theorem admitted_iff {base : ℤ} : (∃ r, resolve P optionSets selections base today = .ok r) ↔
      Admitted P optionSets selections base today := by
  have hchosen : ∀ {ctx : Context} {id : String}, (takeAll ctx selections).errors = [] →
      (id ∈ (takeAll ctx selections).chosen.keys ↔
        id ∈ (writtenOf ctx selections.entries).map Prod.fst) := by
    intro ctx id herrors
    unfold OrderedMap.keys
    rw [(holds_takeAll herrors).chosen, List.map_map]
    rfl
  constructor
  · rintro ⟨r, h⟩
    obtain ⟨hsettled, hconclude⟩ := resolve_eq_ok h
    obtain ⟨herrors, hcontent, totalMinor, htotal, -⟩ := conclude_eq_ok hconclude
    refine ⟨hsettled, errors_takeAll_iff.1 herrors, fun p hp => ?_, ?_⟩
    · exact (hcontent p hp).imp_right (Or.imp_right (hchosen herrors).1)
    · rw [← total_of_holds (holds_takeAll herrors)]
      exact Option.isSome_iff_exists.2 ⟨totalMinor, htotal⟩
  · intro h
    have herrors := errors_takeAll_iff.2 h.accepted
    obtain ⟨totalMinor, htotal⟩ := Option.isSome_iff_exists.1 h.total
    rw [← total_of_holds (holds_takeAll herrors)] at htotal
    have hconclude := @conclude_eq _ _ totalMinor herrors
      (fun p hp => (h.required p hp).imp_right (Or.imp_right (hchosen herrors).2)) htotal
    refine ⟨_, Eq.trans ?_ hconclude⟩
    unfold resolve
    dsimp only
    rw [h.settled, Option.isSome_none, if_neg Bool.false_ne_true]

/-- **What was resolved resolves again in the order of its keys**, to the same
answers and prices, where the prices can be summed in that order. -/
theorem resolve_ksort {base : ℤ} {r : Resolution}
    (h : resolve P optionSets selections base today = .ok r)
    (hstored : Restates P optionSets selections r.resolved)
    (htotal : (total base (ksort r.deltas)).isSome = true) :
    ∃ r', resolve P optionSets (ksort r.resolved) base today = .ok r' ∧
      r'.resolved = ksort r.resolved ∧ r'.deltas = ksort r.deltas := by
  obtain ⟨totalMinor, htotal⟩ := Option.isSome_iff_exists.1 htotal
  obtain ⟨hsettled, hconclude⟩ := resolve_eq_ok h
  have hbase : (context P optionSets base today (evaluation P optionSets selections).states).base =
      base := rfl
  have hagain : ∀ id option answer, (indexOptions optionSets).get? id = some option →
      r.resolved.get? id = some (.str answer) →
        CleanText P option answer ∧ AcceptedNumber option answer :=
    fun id option answer hoption hanswer => ⟨hstored.texts id option answer hoption hanswer,
      hstored.numbers id option answer hoption hanswer⟩
  have hreads : ReadAgain
      (context P optionSets base today (evaluation P optionSets selections).states) r.resolved :=
    hagain
  have hkeys : r.resolved.keys ⊆ selections.keys := by
    obtain ⟨herrors, -, w, -, rfl⟩ := conclude_eq_ok hconclude
    exact (takeAll_restated herrors).1
  obtain ⟨hsettled', hstates⟩ := evaluation_restated hsettled
    (fun id hid => hkeys (mem_keys_ksort.1 hid)) hstored.rules.ksort
  unfold resolve
  dsimp only
  rw [hsettled', Option.isSome_none, if_neg Bool.false_ne_true, context_congr hstates]
  generalize context P optionSets base today (evaluation P optionSets selections).states = ctx
    at hconclude hbase hreads ⊢
  -- In the one context, the loop over what is stored takes what the first took.
  obtain ⟨herrors, hcontent, w, -, rfl⟩ := conclude_eq_ok hconclude
  have hloop := (takeAll_restated herrors).2 hreads
  obtain ⟨herrors', hchosen', hdeltas'⟩ := takeAll_ksort (by rwa [hloop]) (by rw [hloop])
  have hcontent' : ∀ p ∈ ctx.options.entries, Content ctx
      (takeAll ctx (ksort (takeAll ctx selections).chosen)).chosen p := by
    intro p hp
    rw [hchosen']
    exact (hcontent p hp).imp_right (Or.imp_right mem_keys_ksort.2)
  rw [hloop] at hdeltas'
  have htotal' : total ctx.base (takeAll ctx (ksort (takeAll ctx selections).chosen)).deltas =
      some totalMinor := by
    rw [hdeltas', hbase]
    exact htotal
  exact ⟨_, conclude_eq herrors' hcontent' htotal', hchosen', hdeltas'⟩

end Optionia.Engine.SelectionResolver
