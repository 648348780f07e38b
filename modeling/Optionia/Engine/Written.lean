import Optionia.Engine.Resubmission
/-!
# What a selection writes

Rules decide whether a selection is refused and what it costs, and nothing
else: what is stored of an option that is not refused is up to the option and
what was sent (`turn_written`). So two requests that differ only in texts
typed, both accepted, store answers of the same options in the same order, and
note the same sets (`resolve_alike`).
-/

namespace Optionia.Engine.SelectionResolver

open Php Rules

/-! ## One turn -/

/-- What is stored of an option by the keys sent for it, where they are not
refused: an answer, or nothing where there is none. -/
def storable? (P : Platform) (today : Option String) (option : Value) (keys : List String) :
    Option (Option Value) :=
  if keys = [] then some none
  else match read P today option (keys.headD "") with
    | some .skipped => some none
    | some (.refused _) => none
    | some (.taken answer) => some (some (.str answer))
    | none => some (some (stored option (authored option keys)))

/-- The sets noted, with that of an answer; a choice notes none. -/
def notedSets (option : Value) (id : String) (optionSets : OrderedMap String String) :
    OrderedMap String String :=
  if isChoice option || setId option = "" then optionSets else optionSets.set id (setId option)

theorem refuse_errors_ne_nil (t : Taken) (id : String) (violation : Violation) :
    (t.refuse id violation).errors ≠ [] :=
  List.append_ne_nil_of_right_ne_nil _ (List.cons_ne_nil _ _)

/-- What one turn stored and noted of an option. -/
def Wrote (option : Value) (id : String) (t t' : Taken) (w : Option Value) : Prop :=
  t'.chosen = w.elim t.chosen (t.chosen.set id) ∧
    t'.optionSets = w.elim t.optionSets fun _ => notedSets option id t.optionSets

variable {ctx : Context} {t : Taken} {id : String} {option : Value} {P : Platform}
  {today : Option String} {optionSets : List Value} {request request' : OrderedMap String Value}

theorem answer_written {answer : String} (hchoice : isChoice option = false)
    (h : (t.answer ctx id option (.taken answer)).errors = []) :
    Wrote option id t (t.answer ctx id option (.taken answer)) (some (.str answer)) := by
  have hnoted : ∀ t : Taken, (t.accept ctx id option answer).optionSets =
      notedSets option id t.optionSets := by
    intro t
    unfold notedSets
    rw [hchoice, Bool.false_or]
    by_cases hset : setId option = ""
    · rw [if_pos (decide_eq_true hset)]
      exact if_pos hset
    · rw [if_neg fun htrue => hset (of_decide_eq_true htrue)]
      exact if_neg hset
  unfold Taken.answer at h ⊢
  dsimp only at h ⊢
  split at h
  · next htext =>
    rw [if_pos htext]
    split at h
    · exact absurd h (refuse_errors_ne_nil _ id _)
    · next hfits =>
      rw [if_neg hfits]
      exact ⟨rfl, hnoted _⟩
  · next htext =>
    rw [if_neg htext]
    exact ⟨rfl, hnoted _⟩

theorem take_written {keys : List String} (hne : keys ≠ [])
    (h : (t.take ctx id option keys).errors = []) :
    ∃ w, storable? ctx.platform ctx.today option keys = some w ∧
      Wrote option id t (t.take ctx id option keys) w := by
  unfold storable?
  rw [if_neg hne]
  unfold Taken.take at h ⊢
  cases hread : read ctx.platform ctx.today option (keys.headD "") with
  | none =>
    have hchoice := read_eq_none_iff.1 hread
    rw [hread] at h
    dsimp only at h ⊢
    cases hviolation : choiceViolation ctx option keys with
    | some violation =>
      rw [hviolation] at h
      exact absurd h (refuse_errors_ne_nil t id violation)
    | none =>
      refine ⟨_, rfl, rfl, ?_⟩
      change t.optionSets = notedSets option id t.optionSets
      unfold notedSets
      rw [hchoice, Bool.true_or, if_pos rfl]
  | some reading =>
    have hchoice : isChoice option = false := by
      by_contra htrue
      rw [Bool.not_eq_false] at htrue
      have hnone : read ctx.platform ctx.today option (keys.headD "") = none :=
        read_eq_none_iff.2 htrue
      exact absurd (hread.symm.trans hnone) (Option.some_ne_none reading)
    rw [hread] at h
    dsimp only at h ⊢
    cases reading with
    | skipped => exact ⟨none, rfl, rfl, rfl⟩
    | refused violation => exact absurd h (refuse_errors_ne_nil t id violation)
    | taken answer => exact ⟨some (.str answer), rfl, answer_written hchoice h⟩

/-- **What a turn writes is up to the option and what was sent**, whatever the
rules say. -/
theorem turn_written {raw : Value} (h : (t.turn ctx (id, raw)).errors = []) :
    ∃ option keys w, ctx.options.get? id = some option ∧ keysSent option raw = some keys ∧
      storable? ctx.platform ctx.today option keys = some w ∧
      Wrote option id t (t.turn ctx (id, raw)) w := by
  unfold Taken.turn at h
  dsimp only at h
  cases hoption : ctx.options.get? id with
  | none =>
    rw [hoption] at h
    exact absurd h (refuse_errors_ne_nil t id _)
  | some option =>
    rw [hoption] at h
    dsimp only at h
    cases hhidden : ctx.ruleHidden id with
    | true =>
      rw [hhidden, if_pos rfl] at h
      exact absurd h (refuse_errors_ne_nil t id _)
    | false =>
      rw [hhidden, if_neg Bool.false_ne_true] at h
      cases hsent : sentKeys option raw with
      | none =>
        rw [hsent] at h
        exact absurd h (refuse_errors_ne_nil t id _)
      | some sent =>
        have hkeys : keysSent option raw = some (distinct (sent.map Value.castString)) := by
          unfold keysSent
          rw [hsent]
          rfl
        refine ⟨option, distinct (sent.map Value.castString), ?_⟩
        cases sent with
        | nil =>
          have hturn : t.turn ctx (id, raw) = t := by
            unfold Taken.turn
            dsimp only
            rw [hoption]
            dsimp only
            rw [hhidden, if_neg Bool.false_ne_true, hsent]
          rw [hturn]
          exact ⟨none, rfl, hkeys, rfl, rfl, rfl⟩
        | cons first rest =>
          have hne : distinct ((first :: rest).map Value.castString) ≠ [] :=
            distinct_ne_nil (List.cons_ne_nil _ _)
          rw [hsent] at h
          obtain ⟨w, hstorable, hwrote⟩ := take_written hne h
          rw [turn_eq_take hoption hhidden hkeys hne]
          exact ⟨w, rfl, hkeys, hstorable, hwrote⟩

/-! ## Two requests -/

/-- A text was typed for an option: something of it is left once it is
cleaned. -/
def TextTyped (P : Platform) (options : OrderedMap String Value) (p : String × Value) : Prop :=
  ∃ option keys, options.get? p.1 = some option ∧ readsText option = true ∧
    keysSent option p.2 = some keys ∧ keys ≠ [] ∧
      cleanText P (keys.headD "") (isMultiline option) ≠ ""

/-- **Two requests differ only in texts typed.** -/
def DifferInTexts (P : Platform) (optionSets : List Value)
    (request request' : OrderedMap String Value) : Prop :=
  List.Forall₂ (fun p q => p.1 = q.1 ∧ (p.2 = q.2 ∨
    TextTyped P (indexOptions optionSets) p ∧ TextTyped P (indexOptions optionSets) q))
    request.entries request'.entries

theorem storable?_text {keys : List String} {w : Option Value} (htext : readsText option = true)
    (hne : keys ≠ []) (hclean : cleanText P (keys.headD "") (isMultiline option) ≠ "")
    (h : storable? P today option keys = some w) : w.isSome = true := by
  unfold readsText at htext
  rw [Bool.and_eq_true, Bool.not_eq_true'] at htext
  have hfile : isFile option = false := by
    have hkind : option.text "value_kind" = "text" := eq_of_beq htext.1
    unfold isFile
    rw [hkind]
    decide
  have hread : read P today option (keys.headD "") = some (readText P option (keys.headD "")) := by
    unfold read
    rw [htext.2, if_neg Bool.false_ne_true, hfile, if_neg Bool.false_ne_true, htext.1, if_pos rfl]
  unfold readText at hread
  dsimp only at hread
  rw [if_neg hclean] at hread
  unfold storable? at h
  rw [if_neg hne, hread] at h
  split at h
  · next hskipped =>
    split at hskipped
    · exact Reading.noConfusion (Option.some.inj hskipped)
    · exact Reading.noConfusion (Option.some.inj hskipped)
  · simp at h
  · obtain rfl := Option.some.inj h
    rfl
  · obtain rfl := Option.some.inj h
    rfl

/-- Two loops have stored answers of the same options, and noted the same
sets. -/
def StoredAlike (t t' : Taken) : Prop :=
  t.chosen.keys = t'.chosen.keys ∧ t.optionSets = t'.optionSets

theorem StoredAlike.wrote {t' u u' : Taken} {w w' : Option Value} (ht : StoredAlike t t')
    (hw : w.isSome = w'.isSome) (h : Wrote option id t u w) (h' : Wrote option id t' u' w') :
    StoredAlike u u' := by
  obtain ⟨hkeys, hsets⟩ := ht
  unfold StoredAlike
  rw [h.1, h'.1, h.2, h'.2]
  cases w with
  | none =>
    obtain rfl : w' = none := Option.not_isSome_iff_eq_none.1 (by rw [← hw]; decide)
    exact ⟨hkeys, hsets⟩
  | some v =>
    obtain ⟨v', rfl⟩ := Option.isSome_iff_exists.1 hw.symm
    constructor
    · change (t.chosen.set id v).keys = (t'.chosen.set id v').keys
      rw [OrderedMap.keys_set, OrderedMap.keys_set, hkeys]
    · exact congrArg (notedSets option id) hsets

/-- **Turns of two requests that differ only in texts keep it so**, whatever
the rules say of each. -/
theorem StoredAlike.turn {ctx' : Context} (hplatform : ctx'.platform = ctx.platform)
    (htoday : ctx'.today = ctx.today) (hoptions : ctx'.options = ctx.options) {t' : Taken}
    (ht : StoredAlike t t') {p q : String × Value} (hid : p.1 = q.1)
    (hraw : p.2 = q.2 ∨ TextTyped ctx.platform ctx.options p ∧ TextTyped ctx.platform ctx.options q)
    (h : (t.turn ctx p).errors = []) (h' : (t'.turn ctx' q).errors = []) :
    StoredAlike (t.turn ctx p) (t'.turn ctx' q) := by
  obtain ⟨id, raw⟩ := p
  obtain ⟨id', raw'⟩ := q
  obtain rfl : id = id' := hid
  obtain ⟨option, keys, w, hoption, hkeys, hstorable, hwrote⟩ := turn_written h
  obtain ⟨option', keys', w', hoption', hkeys', hstorable', hwrote'⟩ := turn_written h'
  rw [hoptions, hoption] at hoption'
  obtain rfl := Option.some.inj hoption'
  rw [hplatform, htoday] at hstorable'
  refine ht.wrote ?_ hwrote hwrote'
  rcases hraw with hraw | ⟨htyped, htyped'⟩
  · obtain rfl : raw = raw' := hraw
    rw [hkeys] at hkeys'
    obtain rfl := Option.some.inj hkeys'
    rw [hstorable] at hstorable'
    rw [Option.some.inj hstorable']
  · -- What was typed is stored in either.
    have hsome : ∀ {raw : Value} {keys : List String} {w : Option Value},
        TextTyped ctx.platform ctx.options (id, raw) → keysSent option raw = some keys →
        storable? ctx.platform ctx.today option keys = some w → w.isSome = true := by
      rintro raw keys w ⟨typed, sent, htyped, htext, hsent, hne, hclean⟩ hkeys hstorable
      rw [hoption] at htyped
      obtain rfl := Option.some.inj htyped
      rw [hkeys] at hsent
      obtain rfl := Option.some.inj hsent
      exact storable?_text htext hne hclean hstorable
    rw [hsome htyped hkeys hstorable, hsome htyped' hkeys' hstorable']

theorem StoredAlike.foldl {ctx' : Context} (hplatform : ctx'.platform = ctx.platform)
    (htoday : ctx'.today = ctx.today) (hoptions : ctx'.options = ctx.options)
    {entries entries' : List (String × Value)}
    (hentries : List.Forall₂ (fun p q => p.1 = q.1 ∧ (p.2 = q.2 ∨
      TextTyped ctx.platform ctx.options p ∧ TextTyped ctx.platform ctx.options q))
      entries entries') {t' : Taken} (ht : StoredAlike t t')
    (h : (entries.foldl (Taken.turn ctx) t).errors = [])
    (h' : (entries'.foldl (Taken.turn ctx') t').errors = []) :
    StoredAlike (entries.foldl (Taken.turn ctx) t) (entries'.foldl (Taken.turn ctx') t') := by
  induction hentries generalizing t t' with
  | nil => exact ht
  | cons hpair hrest ih =>
    rw [List.foldl_cons] at h h'
    exact ih (ht.turn hplatform htoday hoptions hpair.1 hpair.2 (errors_foldl ctx _ _ h)
      (errors_foldl ctx' _ _ h')) h h'

theorem takeAll_alike (hdiffer : DifferInTexts P optionSets request request') {base : ℤ}
    {states states' : States}
    (h : (takeAll (context P optionSets base today states) request).errors = [])
    (h' : (takeAll (context P optionSets base today states') request').errors = []) :
    StoredAlike (takeAll (context P optionSets base today states) request)
      (takeAll (context P optionSets base today states') request') :=
  @StoredAlike.foldl (context P optionSets base today states) .start
    (context P optionSets base today states') rfl rfl rfl request.entries request'.entries hdiffer
    .start ⟨rfl, rfl⟩ h h'

/-- **Requests that differ only in texts and both resolve store answers of the
same options**, in the same order, and note the same sets. -/
theorem resolve_alike {base : ℤ} {r r' : Resolution}
    (hdiffer : DifferInTexts P optionSets request request')
    (h : resolve P optionSets request base today = .ok r)
    (h' : resolve P optionSets request' base today = .ok r') :
    r.resolved.keys = r'.resolved.keys ∧ r.optionSets = r'.optionSets := by
  obtain ⟨herrors, -, totalMinor, -, rfl⟩ := conclude_eq_ok (resolve_eq_ok h).2
  obtain ⟨herrors', -, totalMinor', -, rfl⟩ := conclude_eq_ok (resolve_eq_ok h').2
  have halike := takeAll_alike hdiffer herrors herrors'
  exact halike

end Optionia.Engine.SelectionResolver
