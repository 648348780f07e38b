import Optionia.Engine.Containment
import Optionia.Engine.Turns
/-!
# What a resolution promises

The maps of a resolution speak of the same options, each of them an option of
the sets that no rule hides; choices are values of their option that no rule
hides, in the merchant's order and number; whatever is required and not hidden
is there; and the total is the base with the deltas (`resolve_sound`).

An invariant of the loop carries it, kept by every turn (`Sound.turned`), and
the required pass adds the rest.
-/

namespace Optionia.Engine.SelectionResolver

open Php Rules

/-! ## Choices -/

/-- An option answered by choosing values. -/
def isChoice (option : Value) : Bool :=
  !isHidden option && !isFile option && !isFreeText option && !isDate option && !isNumber option

/-- Chosen keys are sound: distinct keys of the option in its order, of
values whose ids are not hidden, as many as it asks for. -/
structure SoundKeys (hidden : String → Prop) (option : Value) (keys : List String) : Prop where
  nodup : keys.Nodup
  /-- They are keys of the option's values, in the order authored. -/
  authored : keys.Sublist (indexValues option).keys
  visible : ∀ key ∈ keys, (valueAt option key).text "id" ≠ "" →
    ¬ hidden ((valueAt option key).text "id")
  least : ∀ n, selectionBound option "min_selections" = some n → n ≤ keys.length
  most : ∀ n, selectionBound option "max_selections" = some n → keys.length ≤ n

variable {today : Option String} {option raw : Value} {keys : List String} {ctx : Context}
  {chosen : OrderedMap String Value} {errors : Option (List Error)}

theorem read_eq_none_iff {P : Platform} {raw : String} :
    read P today option raw = none ↔ isChoice option = true := by
  unfold read isChoice
  cases isHidden option <;> cases isFile option <;> cases isFreeText option <;>
    cases isDate option <;> cases isNumber option <;> simp

theorem nodup_keysSent (h : keysSent option raw = some keys) : keys.Nodup := by
  unfold keysSent at h
  obtain ⟨sent, -, rfl⟩ := Option.map_eq_some_iff.1 h
  exact nodup_distinct _

theorem length_keysSent (hone : takesMany option = false) (h : keysSent option raw = some keys) :
    keys.length ≤ 1 := by
  unfold keysSent sentKeys at h
  obtain ⟨sent, hsent, rfl⟩ := Option.map_eq_some_iff.1 h
  rw [hone, Bool.false_and, if_neg Bool.false_ne_true, Option.filter_eq_some_iff] at hsent
  obtain ⟨hscalar, -⟩ := hsent
  split at hscalar
  · obtain rfl := Option.some.inj hscalar
    exact le_rfl
  · simp at hscalar

/-- **The merchant's order loses no key and adds none.** -/
theorem authored_perm (hnodup : keys.Nodup)
    (hknown : ∀ key ∈ keys, key ∈ (indexValues option).keys) :
    (authored option keys).Perm keys := by
  unfold authored
  split
  · refine (List.perm_ext_iff_of_nodup ((indexValues option).keys_nodup.filter _) hnodup).2 ?_
    intro key
    rw [List.mem_filter, decide_eq_true_eq]
    exact ⟨fun h => h.2, fun h => ⟨hknown key h, h⟩⟩
  · exact List.Perm.refl keys

/-- What the checks of a choice leave: known keys, within the bounds, none of
them hidden. -/
theorem of_choiceViolation (h : choiceViolation ctx option keys = none) :
    (∀ key ∈ keys, key ∈ (indexValues option).keys) ∧
      (∀ n, selectionBound option "min_selections" = some n → n ≤ keys.length) ∧
      (∀ n, selectionBound option "max_selections" = some n → keys.length ≤ n) ∧
      hitsHidden ctx option (authored option keys) = false := by
  unfold choiceViolation at h
  dsimp only at h
  split at h
  · simp at h
  next hunknown =>
  have hknown : ∀ key ∈ keys, key ∈ (indexValues option).keys := by
    intro key hkey
    by_contra hnone
    refine hunknown (List.any_eq_true.2 ⟨key, hkey, ?_⟩)
    rw [OrderedMap.get?_eq_none.2 hnone]
    rfl
  split at h
  · simp at h
  · simp at h
  next hmin hmax =>
  refine ⟨hknown, fun n hn => ?_, fun n hn => ?_, ?_⟩
  · rw [hn, Option.filter_eq_none_iff] at hmin
    exact not_lt.1 fun hlt => hmin n rfl (decide_eq_true hlt)
  · rw [hn, Option.filter_eq_none_iff] at hmax
    exact not_lt.1 fun hlt => hmax n rfl (decide_eq_true hlt)
  · split at h
    · simp at h
    · split at h
      · simp at h
      · next hhidden => exact Bool.not_eq_true _ ▸ hhidden

/-- **Choices that pass the checks are sound**, in the merchant's order. -/
theorem soundKeys_authored (hkeys : keysSent option raw = some keys)
    (h : choiceViolation ctx option keys = none) :
    SoundKeys (ctx.hiddenValue ·) option (authored option keys) := by
  obtain ⟨hknown, hleast, hmost, hhidden⟩ := of_choiceViolation h
  have hnodup := nodup_keysSent hkeys
  have hperm := authored_perm hnodup hknown
  refine ⟨hperm.nodup_iff.2 hnodup, ?_, ?_, ?_, ?_⟩
  · unfold authored
    split
    · exact List.filter_sublist
    · next hmany =>
      -- Without an order to restore there is one key at most.
      have hone : keys.length ≤ 1 := by
        by_cases htakes : takesMany option = true
        · rw [htakes, Bool.true_and, decide_eq_true_eq] at hmany
          omega
        · exact length_keysSent (Bool.not_eq_true _ ▸ htakes) hkeys
      match keys, hone with
      | [], _ => exact List.nil_sublist _
      | [key], _ => exact List.singleton_sublist.2 (hknown key List.mem_cons_self)
  · intro key hkey hid hmem
    have htrue : hitsHidden ctx option (authored option keys) = true := by
      unfold hitsHidden
      refine List.any_eq_true.2 ⟨key, hkey, ?_⟩
      rw [Bool.and_eq_true, decide_eq_true_eq]
      exact ⟨hid, hmem⟩
    rw [hhidden] at htrue
    exact Bool.false_ne_true htrue
  · rw [hperm.length_eq]
    exact hleast
  · rw [hperm.length_eq]
    exact hmost

/-! ## The loop -/

/-- The invariant of the loop. -/
structure Taken.Sound (ctx : Context) (t : Taken) : Prop where
  deltas : t.deltas.keys = t.chosen.keys
  labels : t.labels.keys = t.chosen.keys
  shown : ∀ id ∈ t.chosen.keys, id ∈ ctx.options.keys ∧ ctx.ruleHidden id = false
  choices : ∀ id option v, ctx.options.get? id = some option → isChoice option = true →
    t.chosen.get? id = some v →
      ∃ keys, v = stored option keys ∧ SoundKeys (ctx.hiddenValue ·) option keys

theorem sound_start (ctx : Context) : Taken.start.Sound ctx :=
  ⟨rfl, rfl, fun _ h => absurd h List.not_mem_nil,
    fun _ _ _ _ _ h => absurd h.symm (Option.some_ne_none _)⟩

theorem Taken.Sound.write {t t' : Taken} (ht : t.Sound ctx) {id : String} {v d l : Value}
    (hoption : ctx.options.get? id = some option) (hshown : ctx.ruleHidden id = false)
    (hchosen : t'.chosen = t.chosen.set id v) (hdeltas : t'.deltas = t.deltas.set id d)
    (hlabels : t'.labels = t.labels.set id l) (hsound : isChoice option = true →
      ∃ keys, v = stored option keys ∧ SoundKeys (ctx.hiddenValue ·) option keys) :
    t'.Sound ctx := by
  refine ⟨?_, ?_, ?_, ?_⟩
  · rw [hchosen, hdeltas, OrderedMap.keys_set, OrderedMap.keys_set, ht.deltas]
  · rw [hchosen, hlabels, OrderedMap.keys_set, OrderedMap.keys_set, ht.labels]
  · intro id' hid'
    rw [hchosen, OrderedMap.mem_keys_set] at hid'
    rcases hid' with rfl | hid'
    · exact ⟨OrderedMap.mem_keys_of_get? hoption, hshown⟩
    · exact ht.shown id' hid'
  · intro id' option' v' hoption' hchoice' hv'
    rw [hchosen, OrderedMap.get?_set] at hv'
    split at hv'
    · next heq =>
      rw [heq, hoption] at hoption'
      obtain rfl := Option.some.inj hoption'
      obtain rfl := Option.some.inj hv'
      exact hsound hchoice'
    · exact ht.choices id' option' v' hoption' hchoice' hv'

/-- **Every turn keeps the invariant.** -/
theorem Taken.Sound.turned {t t' : Taken} {id : String} (ht : t.Sound ctx)
    (h : Turned ctx t id raw t') : t'.Sound ctx := by
  cases h with
  | refused bytes violation => exact ⟨ht.deltas, ht.labels, ht.shown, ht.choices⟩
  | skipped => exact ht
  | answered option keys answer hoption hshown hkeys hread hfits =>
    have hcounted : (t.counted option answer).Sound ctx := by
      unfold Taken.counted
      split
      · exact ⟨ht.deltas, ht.labels, ht.shown, ht.choices⟩
      · exact ht
    refine hcounted.write hoption hshown rfl rfl rfl fun hchoice => ?_
    have hnone : read ctx.platform ctx.today option (keys.headD "") = none :=
      read_eq_none_iff.2 hchoice
    rw [hread] at hnone
    simp at hnone
  | chosen option keys hoption hshown hkeys hne hread hsound =>
    exact ht.write hoption hshown rfl rfl rfl fun _ =>
      ⟨authored option keys, rfl, soundKeys_authored hkeys hsound⟩

/-- **And so does the whole loop.** -/
theorem sound_takeAll (ctx : Context) (selections : OrderedMap String Value) :
    (takeAll ctx selections).Sound ctx := by
  unfold takeAll
  generalize selections.entries = entries
  have hfold : ∀ t : Taken, t.Sound ctx → (entries.foldl (Taken.turn ctx) t).Sound ctx := by
    induction entries with
    | nil => exact fun t ht => ht
    | cons selection entries ih =>
      intro t ht
      rw [List.foldl_cons]
      exact ih _ (ht.turned (turned ctx t selection))
  exact hfold _ (sound_start ctx)

/-! ## The required pass -/

/-- An option leaves the required pass content: it is hidden, not required,
or taken. -/
def Content (ctx : Context) (chosen : OrderedMap String Value) (p : String × Value) : Prop :=
  ctx.ruleHidden p.1 = true ∨ isRequired ctx.states p.1 p.2 = false ∨ p.1 ∈ chosen.keys

/-- A turn of the required pass that leaves no error found none before it. -/
theorem content_of_require {p : String × Value} (h : require ctx chosen errors p = some []) :
    errors = some [] ∧ Content ctx chosen p := by
  unfold require at h
  split at h
  · next hhidden => exact ⟨h, Or.inl hhidden⟩
  split at h
  · next htaken =>
    rw [Bool.or_eq_true, Bool.not_eq_true'] at htaken
    exact ⟨h, Or.inr (htaken.imp_right OrderedMap.isSome_get?.1)⟩
  split at h
  · simp at h
  · obtain ⟨found, rfl, hfound⟩ := Option.map_eq_some_iff.1 h
    exfalso
    split at hfound
    · next hreported =>
      rw [hfound] at hreported
      exact Bool.false_ne_true hreported
    · exact absurd hfound (List.append_ne_nil_of_right_ne_nil _ (List.cons_ne_nil _ _))

/-- **A required pass without errors left every option content**, and found
none to begin with. -/
theorem content_of_foldl {entries : List (String × Value)}
    (h : entries.foldl (require ctx chosen) errors = some []) :
    errors = some [] ∧ ∀ p ∈ entries, Content ctx chosen p := by
  induction entries generalizing errors with
  | nil => exact ⟨h, fun _ hp => absurd hp List.not_mem_nil⟩
  | cons p entries ih =>
    rw [List.foldl_cons] at h
    obtain ⟨hstep, hrest⟩ := ih h
    obtain ⟨herrors, hcontent⟩ := content_of_require hstep
    refine ⟨herrors, fun q hq => ?_⟩
    rcases List.mem_cons.1 hq with rfl | hq
    · exact hcontent
    · exact hrest q hq

/-- **What a result comes from**: a loop without errors, options all content,
and a total. -/
theorem conclude_eq_ok {t : Taken} {r : Resolution} (h : conclude ctx t = .ok r) :
    t.errors = [] ∧ (∀ p ∈ ctx.options.entries, Content ctx t.chosen p) ∧
      ∃ totalMinor, total ctx.base t.deltas = some totalMinor ∧ r = t.resolution totalMinor := by
  unfold conclude at h
  split at h
  · exact Result.noConfusion h
  · next hpass =>
    obtain ⟨herrors, hcontent⟩ := content_of_foldl hpass
    refine ⟨Option.some.inj herrors, hcontent, ?_⟩
    split at h
    · exact Result.noConfusion h
    · next totalMinor htotal => exact ⟨totalMinor, htotal, (Result.ok.inj h).symm⟩
  · exact Result.noConfusion h

/-! ## The result -/

/-- A resolution, where a result has one. -/
def Result.value : Result → Option Resolution
  | .ok r => some r
  | _ => none

theorem eq_ok_of_value {result : Result} (h : result.value.isSome = true) :
    ∃ r, result = .ok r := by
  cases result with
  | ok r => exact ⟨r, rfl⟩
  | errors errors => exact absurd h Bool.false_ne_true
  | threw => exact absurd h Bool.false_ne_true

/-- **What a result comes from**, before its parts: rules that settled. -/
theorem resolve_eq_ok {P : Platform} {optionSets : List Value}
    {selections : OrderedMap String Value} {base : ℤ} {r : Resolution}
    (h : resolve P optionSets selections base today = .ok r) :
    (evaluation P optionSets selections).refused = none ∧
      conclude (context P optionSets base today (evaluation P optionSets selections).states)
        (takeAll (context P optionSets base today (evaluation P optionSets selections).states)
          selections) = .ok r := by
  unfold resolve at h
  dsimp only at h
  split at h
  · exact Result.noConfusion h
  · next hsettled => exact ⟨Option.not_isSome_iff_eq_none.1 hsettled, h⟩

theorem eq_map_int_of_mapM {values : List Value} {ns : List ℤ}
    (h : values.mapM Value.int? = some ns) : values = ns.map .int := by
  induction values generalizing ns with
  | nil =>
    obtain rfl := Option.some.inj h
    rfl
  | cons v values ih =>
    rw [List.mapM_cons] at h
    obtain ⟨n, hn, hrest⟩ := Option.bind_eq_some_iff.1 h
    obtain ⟨rest, hvalues, hpure⟩ := Option.bind_eq_some_iff.1 hrest
    obtain rfl := Option.some.inj hpure
    have hv : v = .int n := by
      cases v with
      | int m => rw [Option.some.inj hn]
      | _ => exact absurd hn.symm (Option.some_ne_none n)
    rw [List.map_cons, ih hvalues, hv]

/-- What a resolution promises of the sets, the request and the base. -/
structure Promised (P : Platform) (optionSets : List Value)
    (selections : OrderedMap String Value) (base : ℤ) (r : Resolution) : Prop where
  /-- Deltas, choices and labels are of the same options. -/
  sameIds : ∀ id, (id ∈ r.deltas.keys ↔ id ∈ r.resolved.keys) ∧
    (id ∈ r.labels.keys ↔ id ∈ r.resolved.keys)
  known : ∀ id ∈ r.resolved.keys, IsOption optionSets id
  choices : ∀ id option v, (indexOptions optionSets).get? id = some option →
    isChoice option = true → r.resolved.get? id = some v → ∃ keys, v = stored option keys ∧
      SoundKeys (HiddenValue optionSets (evaluation P optionSets selections).states) option keys
  required : ∀ id option, (indexOptions optionSets).get? id = some option →
    ¬ HiddenOption optionSets (evaluation P optionSets selections).states id →
    isRequired (stateAt (evaluation P optionSets selections).states) id option = true →
    id ∈ r.resolved.keys
  /-- The total is the base with the deltas, and never below zero. -/
  total : ∃ deltas : List ℤ, r.deltas.values = deltas.map .int ∧
    r.totalMinor = max 0 (base + deltas.sum)

/-- No option that rules hide is in a resolution. -/
def NoneHidden (P : Platform) (optionSets : List Value) (selections : OrderedMap String Value)
    (r : Resolution) : Prop :=
  ∀ id ∈ r.resolved.keys,
    ¬ HiddenOption optionSets (evaluation P optionSets selections).states id

/-- **`resolve` is sound**: whatever it returns keeps its promises, and holds
no option that rules hide, where values bear ids of their own. -/
theorem resolve_sound {P : Platform} {optionSets : List Value}
    {selections : OrderedMap String Value} {base : ℤ} {today : Option String} {r : Resolution}
    (h : resolve P optionSets selections base today = .ok r) :
    Promised P optionSets selections base r ∧
      (OwnIds optionSets → NoneHidden P optionSets selections r) := by
  obtain ⟨-, hconclude⟩ := resolve_eq_ok h
  have hsound := sound_takeAll
    (context P optionSets base today (evaluation P optionSets selections).states) selections
  obtain ⟨-, hcontent, totalMinor, htotal, rfl⟩ := conclude_eq_ok hconclude
  refine ⟨⟨?_, ?_, ?_, ?_, ?_⟩, ?_⟩
  · intro id
    constructor
    · change id ∈ (Taken.deltas _).keys ↔ id ∈ (Taken.chosen _).keys
      rw [hsound.deltas]
    · change id ∈ (Taken.labels _).keys ↔ id ∈ (Taken.chosen _).keys
      rw [hsound.labels]
  · exact fun id hid => mem_keys_indexOptions.1 (hsound.shown id hid).1
  · intro id option v hoption hchoice hv
    obtain ⟨keys, hkeys, hsoundKeys⟩ := hsound.choices id option v hoption hchoice hv
    refine ⟨keys, hkeys, hsoundKeys.nodup, hsoundKeys.authored, fun key hkey hid hhidden => ?_,
      hsoundKeys.least, hsoundKeys.most⟩
    exact hsoundKeys.visible key hkey hid (decide_eq_true (mem_hiddenValues.2 hhidden))
  · intro id option hoption hvisible hrequired
    rcases hcontent (id, option) (OrderedMap.get?_eq_some.1 hoption) with hhidden | hnot | htaken
    · exact absurd (hiddenOption_of_mem (of_decide_eq_true hhidden)) hvisible
    · exact absurd (hrequired.symm.trans hnot) (by decide)
    · exact htaken
  · obtain ⟨deltas, hdeltas, hsum⟩ := Option.bind_eq_some_iff.1 htotal
    exact ⟨deltas, eq_map_int_of_mapM hdeltas, Pricing.sumDeltas_eq_some hsum⟩
  · intro hids id hid hhidden
    exact of_decide_eq_false (hsound.shown id hid).2 (mem_of_hiddenOption hids hhidden)

/-! ## A small document -/

/-- A platform of plain ASCII, that knows neither tags nor patterns nor
dates. -/
def asciiPlatform : Platform where
  graphemes := String.length
  stripTags s := s
  lower := String.toLower
  pregMatch _ _ := none
  createFromFormat _ _ := none
  format _ _ := ""

def radio (id valueId key : String) : Value :=
  .arr [("id", .str id), ("type", .str "radio"), ("value_kind", .str "choice"),
    ("values", .ofList [.arr [("id", .str valueId), ("value_key", .str key),
      ("price_config", .arr [("type", .str "fixed"), ("amount_minor", .int 250)])]])]

/-- A set of one group with two radios, `q` and `o`, and the rule to hide `o`
where `q` is answered; the value of `o` bears the id `valueId`. -/
def twoRadios (valueId : String) : List Value :=
  [.arr [("id", .str "s"),
    ("groups", .ofList [.arr [("id", .str "g"),
      ("options", .ofList [radio "q" "v" "y", radio "o" valueId "n"])]]),
    ("rules", .ofList [.arr [("target_type", .str "option"), ("target_id", .str "o"),
      ("action", .str "hide"), ("match_type", .str "all"),
      ("conditions", .ofList [.arr [("option_id", .str "q"),
        ("operator", .str "is_not_empty")]])]])]]

/-- One selection of `o`. -/
def selectO : OrderedMap String Value := (∅ : OrderedMap String Value).set "o" (.str "n")

def selectBoth : OrderedMap String Value := selectO.set "q" (.str "y")

/-- The choice of `o` alone resolves soundly. -/
theorem resolve_sound_radio :
    ∃ r, resolve asciiPlatform (twoRadios "w") selectO 1000 none = .ok r ∧
      Promised asciiPlatform (twoRadios "w") selectO 1000 r ∧
      NoneHidden asciiPlatform (twoRadios "w") selectO r := by
  obtain ⟨r, hr⟩ := @eq_ok_of_value (resolve asciiPlatform (twoRadios "w") selectO 1000 none)
    (by decide +kernel)
  obtain ⟨hpromised, hnone⟩ := resolve_sound hr
  exact ⟨r, hr, hpromised, hnone (by decide +kernel)⟩

/-- **A value that bears its option's id lifts the rule that hides it**: the
index empties that target, and the hidden option is resolved and charged. -/
theorem hidden_option_resolved :
    ∃ r, resolve asciiPlatform (twoRadios "o") selectBoth 1000 none = .ok r ∧
      ¬ NoneHidden asciiPlatform (twoRadios "o") selectBoth r := by
  obtain ⟨r, hr⟩ := @eq_ok_of_value (resolve asciiPlatform (twoRadios "o") selectBoth 1000 none)
    (by decide +kernel)
  have hresolved : ((resolve asciiPlatform (twoRadios "o") selectBoth 1000 none).value.map
      fun r => decide ("o" ∈ r.resolved.keys)) = some true := by decide +kernel
  have hhidden : (stateAt (evaluation asciiPlatform (twoRadios "o") selectBoth).states "o").hidden =
      true := by decide +kernel
  have hoption : "o" ∈ (indexOptions (twoRadios "o")).keys := by decide +kernel
  obtain ⟨p, hp, hid⟩ := mem_keys_indexOptions.1 hoption
  rw [hr] at hresolved
  refine ⟨r, hr, fun hnone => ?_⟩
  exact hnone "o" (of_decide_eq_true (Option.some.inj hresolved))
    ⟨"o", hhidden, p, hp, hid, Or.inl rfl⟩

end Optionia.Engine.SelectionResolver
