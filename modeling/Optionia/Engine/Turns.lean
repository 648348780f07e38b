import Optionia.Engine.SelectionResolver
/-!
# What a turn of the resolver does

A turn refuses a selection, skips it, or takes it: an answer or choices
(`turned`). The results below read what a turn did off this relation, not
off the branches of the loop.
-/

namespace Optionia.Engine.SelectionResolver

open Php Rules

/-- The keys sent for an option, each once. -/
def keysSent (option raw : Value) : Option (List String) :=
  (sentKeys option raw).map fun keys => distinct (keys.map Value.castString)

/-- The bytes of a text counted, and those of nothing else. -/
def Taken.counted (t : Taken) (option : Value) (answer : String) : Taken :=
  if isFreeText option && !isHidden option then
    { t with textBytes := t.textBytes + answer.utf8ByteSize }
  else t

/-- What one turn makes of what was taken. -/
inductive Turned (ctx : Context) (t : Taken) (id : String) (raw : Value) : Taken → Prop where
  | refused (bytes : ℕ) (violation : Violation) :
    Turned ctx t id raw (({ t with textBytes := bytes } : Taken).refuse id violation)
  | skipped : Turned ctx t id raw t
  | answered (option : Value) (keys : List String) (answer : String)
    (hoption : ctx.options.get? id = some option) (hshown : ctx.ruleHidden id = false)
    (hkeys : keysSent option raw = some keys)
    (hread : read ctx.platform ctx.today option (keys.headD "") = some (.taken answer))
    (hfits : (t.counted option answer).textBytes ≤ max t.textBytes maxTextBytes) :
    Turned ctx t id raw ((t.counted option answer).accept ctx id option answer)
  | chosen (option : Value) (keys : List String)
    (hoption : ctx.options.get? id = some option) (hshown : ctx.ruleHidden id = false)
    (hkeys : keysSent option raw = some keys) (hne : keys ≠ [])
    (hread : read ctx.platform ctx.today option (keys.headD "") = none)
    (hsound : choiceViolation ctx option keys = none) :
    Turned ctx t id raw (t.choose ctx id option (authored option keys))

variable {keys : List String}

theorem mem_distinct {key : String} : key ∈ distinct keys ↔ key ∈ keys := by
  have hfold : ∀ (l kept : List String), key ∈ l.foldl
      (fun kept key => if key ∈ kept then kept else kept ++ [key]) kept ↔ key ∈ kept ∨ key ∈ l := by
    intro l
    induction l with
    | nil => simp
    | cons k l ih =>
      intro kept
      rw [List.foldl_cons, ih]
      by_cases hk : k ∈ kept
      · rw [if_pos hk, List.mem_cons]
        refine ⟨fun h => h.imp_right Or.inr, ?_⟩
        rintro (h | rfl | h)
        · exact Or.inl h
        · exact Or.inl hk
        · exact Or.inr h
      · rw [if_neg hk, List.mem_append, List.mem_singleton, List.mem_cons, or_assoc]
  unfold distinct
  rw [hfold]
  exact ⟨fun h => h.resolve_left List.not_mem_nil, Or.inr⟩

/-- **Distinct keys are distinct.** -/
theorem nodup_distinct (keys : List String) : (distinct keys).Nodup := by
  have hfold : ∀ (l kept : List String), kept.Nodup → (l.foldl
      (fun kept key => if key ∈ kept then kept else kept ++ [key]) kept).Nodup := by
    intro l
    induction l with
    | nil => exact fun _ h => h
    | cons k l ih =>
      intro kept h
      rw [List.foldl_cons]
      refine ih _ ?_
      by_cases hk : k ∈ kept
      · rwa [if_pos hk]
      · rw [if_neg hk]
        exact h.append (List.nodup_singleton k) (by simpa using hk)
  exact hfold keys [] List.nodup_nil

theorem distinct_of_nodup (h : keys.Nodup) : distinct keys = keys := by
  have hfold : ∀ (l kept : List String), (kept ++ l).Nodup → l.foldl
      (fun kept key => if key ∈ kept then kept else kept ++ [key]) kept = kept ++ l := by
    intro l
    induction l with
    | nil => exact fun kept _ => (List.append_nil kept).symm
    | cons k l ih =>
      intro kept h
      have hk : k ∉ kept := fun hk =>
        List.disjoint_of_nodup_append h hk List.mem_cons_self
      have hassoc : kept ++ k :: l = (kept ++ [k]) ++ l := by
        rw [List.append_assoc, List.singleton_append]
      rw [List.foldl_cons, if_neg hk, ih, hassoc]
      rwa [← hassoc]
  exact hfold keys [] h

theorem distinct_ne_nil (h : keys ≠ []) : distinct keys ≠ [] := by
  obtain ⟨k, hk⟩ := List.exists_mem_of_ne_nil keys h
  exact List.ne_nil_of_mem (mem_distinct.2 hk)

theorem turned_answer {ctx : Context} {t : Taken} {id : String} {raw option : Value}
    {reading : Reading} (hoption : ctx.options.get? id = some option)
    (hshown : ctx.ruleHidden id = false) (hkeys : keysSent option raw = some keys)
    (hread : read ctx.platform ctx.today option (keys.headD "") = some reading) :
    Turned ctx t id raw (t.answer ctx id option reading) := by
  cases reading with
  | skipped => exact .skipped
  | refused violation => exact .refused t.textBytes violation
  | taken answer =>
    by_cases htext : (isFreeText option && !isHidden option) = true
    · have hcounted : t.counted option answer =
          { t with textBytes := t.textBytes + answer.utf8ByteSize } := if_pos htext
      by_cases hmuch : maxTextBytes < t.textBytes + answer.utf8ByteSize
      · have hturn : t.answer ctx id option (.taken answer) =
            ({ t with textBytes := t.textBytes + answer.utf8ByteSize } : Taken).refuse id
              ⟨errorTooMuchText, [("max_bytes", .int maxTextBytes)]⟩ :=
          (if_pos htext).trans (if_pos hmuch)
        rw [hturn]
        exact .refused _ _
      · have hturn : t.answer ctx id option (.taken answer) =
            (t.counted option answer).accept ctx id option answer := by
          rw [hcounted]
          exact (if_pos htext).trans (if_neg hmuch)
        rw [hturn]
        refine .answered option keys answer hoption hshown hkeys hread ?_
        rw [hcounted]
        exact le_max_of_le_right (not_lt.1 hmuch)
    · have hcounted : t.counted option answer = t := if_neg htext
      have hturn : t.answer ctx id option (.taken answer) =
          (t.counted option answer).accept ctx id option answer := by
        rw [hcounted]
        exact if_neg htext
      rw [hturn]
      refine .answered option keys answer hoption hshown hkeys hread ?_
      rw [hcounted]
      exact le_max_left _ _

/-- **A turn refuses, skips or takes**: nothing else. -/
theorem turned (ctx : Context) (t : Taken) (selection : String × Value) :
    Turned ctx t selection.1 selection.2 (t.turn ctx selection) := by
  unfold Taken.turn
  cases hoption : ctx.options.get? selection.1 with
  | none => exact .refused t.textBytes _
  | some option =>
    dsimp only
    cases hshown : ctx.ruleHidden selection.1 with
    | true => exact .refused t.textBytes _
    | false =>
    rw [if_neg Bool.false_ne_true]
    cases hsent : sentKeys option selection.2 with
    | none => exact .refused t.textBytes _
    | some sent =>
      cases sent with
      | nil => exact .skipped
      | cons first rest =>
        have hkeys : keysSent option selection.2 =
            some (distinct ((first :: rest).map Value.castString)) := by
          unfold keysSent
          rw [hsent]
          rfl
        dsimp only
        unfold Taken.take
        cases hread : read ctx.platform ctx.today option
            ((distinct ((first :: rest).map Value.castString)).headD "") with
        | some reading => exact turned_answer hoption hshown hkeys hread
        | none =>
          dsimp only
          cases hviolation : choiceViolation ctx option
              (distinct ((first :: rest).map Value.castString)) with
          | some violation => exact .refused t.textBytes violation
          | none =>
            refine .chosen option _ hoption hshown hkeys ?_ hread hviolation
            exact distinct_ne_nil (List.cons_ne_nil _ _)

end Optionia.Engine.SelectionResolver
