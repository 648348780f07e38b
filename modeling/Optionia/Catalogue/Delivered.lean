import Optionia.Catalogue.ProductQueue
/-!
# What the queue forgets

The drainer forgets a product by its id, after the request: what it forgets is
the entry that stands in the queue by then, whoever put it there, and not the
one that was sent. So what was sent last reflects each product that is not in
the queue as long as no forgotten entry was newer than its payload, and as
long as each product was still there when its payload was built
(`reflected_of_forgets`).
-/

namespace Optionia.Catalogue

open Runs

variable {V : Type*}

namespace Shop

/-! ## What is asked, and what holds -/

/-- An event finds room in the queue. -/
def Roomy (s : Shop V) : Action V → Prop
  | .event id => s.pending id ≠ none →
      (List.insert id s.queue.keys).length ≤ ProductQueue.maxEntries
  | .change .. | .read | .build | .post _ | .forget | .delete _ | .crash => True

/-- The payload of a product that was there. -/
def WasThere (payload : Option (Product V)) : Prop := ∃ content, payload = some (.present content)

instance : DecidablePred (WasThere (V := V))
  | some (.present content) => .isTrue ⟨content, rfl⟩
  | some (.trashed _) | some .gone | none => .isFalse fun ⟨_, h⟩ => by simp at h

/-- **A product is forgotten for what was sent of it.** After a batch: it was
there when its payload was built, and no event of it came since. After a
deletion: its entry is still that it is removed. -/
def Forgets (s : Shop V) : Action V → Prop
  | .forget => match s.phase with
    | .forgetting ((id, payload) :: _) _ =>
      WasThere payload ∧ s.fresh id = true
    | .forgettingRemoval id _ => s.queue.get? id = some .remove
    | .forgetting [] _ | .idle | .building .. | .posting .. | .deleting _ => True
  | .change .. | .event _ | .read | .build | .post _ | .delete _ | .crash => True

instance (s : Shop V) : DecidablePred s.Roomy
  | .event _ => inferInstanceAs (Decidable (_ → _))
  | .change .. | .read | .build | .post _ | .forget | .delete _ | .crash => .isTrue trivial

instance (s : Shop V) : DecidablePred s.Forgets
  | .forget => match h : s.phase with
    | .forgetting ((id, payload) :: _) _ =>
      decidable_of_iff (WasThere payload ∧ s.fresh id = true) (by rw [Forgets, h])
    | .forgettingRemoval id _ =>
      decidable_of_iff (s.queue.get? id = some .remove) (by rw [Forgets, h])
    | .forgetting [] _ | .idle | .building .. | .posting .. | .deleting _ =>
      .isTrue (by rw [Forgets, h]; trivial)
  | .change .. | .event _ | .read | .build | .post _ | .delete _ | .crash => .isTrue trivial

/-- **What the cloud accepted last reflects the product**, as it was at its
last event or is since. -/
def Reflected (s : Shop V) (id : ProductId) : Prop :=
  ∃ told, s.accepted id = some told ∧ ∃ product ∈ s.since id, told.Reflects product

/-- **No change is lost**: each product that has had an event and is not in the
queue is reflected. -/
def Delivered (s : Shop V) : Prop :=
  ∀ id, id ∉ s.queue.keys → s.since id ≠ [] → s.Reflected id

/-- A shop before its first event: nothing is in the queue, and no run is under
way. -/
structure Fresh (s : Shop V) : Prop where
  pending : ∀ id, s.pending id = none
  queue : s.queue = ∅
  phase : s.phase = .idle
  since : ∀ id, s.since id = []

/-- What a payload that was built says: a product that has had no event since
was like that since its last. -/
def Built (s : Shop V) (entry : ProductId × Option (Product V)) : Prop :=
  ∀ content, entry.2 = some (.present content) → s.fresh entry.1 = true →
    .present content ∈ s.since entry.1

/-- What holds of a run of the drainer. The products that it has still to send
or to forget are in the queue, each once. -/
def PhaseSound (s : Shop V) : Phase V → Prop
  | .idle => True
  | .building toBuild built removals =>
    (built.map Prod.fst ++ toBuild ++ removals).Nodup ∧
      (∀ id ∈ built.map Prod.fst ++ toBuild ++ removals, id ∈ s.queue.keys) ∧
        ∀ entry ∈ built, s.Built entry
  | .posting built removals =>
    (built.map Prod.fst ++ removals).Nodup ∧
      (∀ id ∈ built.map Prod.fst ++ removals, id ∈ s.queue.keys) ∧
        ∀ entry ∈ built, s.Built entry
  | .forgetting built removals =>
    (built.map Prod.fst ++ removals).Nodup ∧
      (∀ id ∈ built.map Prod.fst ++ removals, id ∈ s.queue.keys) ∧
        ∀ entry ∈ built, s.Built entry ∧ ∀ payload, entry.2 = some payload →
          s.accepted entry.1 = some (.upsert payload)
  | .deleting removals => removals.Nodup ∧ ∀ id ∈ removals, id ∈ s.queue.keys
  | .forgettingRemoval id removals =>
    (id :: removals).Nodup ∧ (∀ other ∈ id :: removals, other ∈ s.queue.keys) ∧
      s.accepted id = some .removed

/-- **What holds after every step.** -/
structure Sound (s : Shop V) : Prop where
  reflected : s.Delivered
  /-- What is in the queue has had an event. -/
  queued : ∀ id ∈ s.queue.keys, s.since id ≠ []
  /-- What is to be removed was not there at its last event, or since. -/
  removed : ∀ id, s.queue.get? id = some .remove → ∃ product ∈ s.since id,
    product.intent = .remove
  /-- A product is what it is since its last event. -/
  current : ∀ id, s.since id ≠ [] → s.products id ∈ s.since id
  /-- What is to be pushed is what the product has become. -/
  pending : ∀ id action, s.pending id = some action → action = (s.products id).intent
  phase : s.PhaseSound s.phase

theorem Fresh.sound {s : Shop V} (h : s.Fresh) : s.Sound where
  reflected id _ hsince := absurd (h.since id) hsince
  queued id hid := by
    rw [h.queue] at hid
    simp at hid
  removed id hid := by
    rw [h.queue] at hid
    simp at hid
  current id hsince := absurd (h.since id) hsince
  pending id action haction := by
    rw [h.pending] at haction
    simp at haction
  phase := by rw [h.phase]; trivial

/-! ## What each step keeps -/

section Steps

variable {s s' : Shop V}

variable {phase : Phase V} {queue : ProductQueue} {id : ProductId}

/-- What holds of a run goes on holding while entries come and other products
change. -/
theorem PhaseSound.mono (hkeys : ∀ id ∈ s.queue.keys, id ∈ s'.queue.keys)
    (hbuilt : ∀ entry, s.Built entry → s'.Built entry) (haccepted : s'.accepted = s.accepted)
    (h : s.PhaseSound phase) : s'.PhaseSound phase := by
  cases phase with
  | idle => trivial
  | building toBuild built removals | posting built removals =>
    exact ⟨h.1, fun id hid => hkeys id (h.2.1 id hid), fun entry he => hbuilt entry (h.2.2 entry he)⟩
  | forgetting built removals =>
    refine ⟨h.1, fun id hid => hkeys id (h.2.1 id hid), fun entry he => ?_⟩
    obtain ⟨hwas, htold⟩ := h.2.2 entry he
    rw [haccepted]
    exact ⟨hbuilt entry hwas, htold⟩
  | deleting removals => exact ⟨h.1, fun id hid => hkeys id (h.2 id hid)⟩
  | forgettingRemoval id removals =>
    rw [PhaseSound, haccepted]
    exact ⟨h.1, fun id hid => hkeys id (h.2.1 id hid), h.2.2⟩

theorem phaseSound_removing {removals : List ProductId} (hnodup : removals.Nodup)
    (hkeys : ∀ id ∈ removals, id ∈ s.queue.keys) : s.PhaseSound (removing removals) := by
  cases removals with
  | nil => trivial
  | cons id removals => exact ⟨hnodup, hkeys⟩

theorem idsOf_sublist (queue : ProductQueue) (action : Intent) :
    (ProductQueue.idsOf queue action).Sublist queue.keys := List.filter_sublist.map _

theorem idsOf_disjoint (queue : ProductQueue) :
    (ProductQueue.idsOf queue .upsert).Disjoint (ProductQueue.idsOf queue .remove) := by
  intro id hupsert hremove
  obtain ⟨⟨i, a⟩, hentry, rfl⟩ := List.mem_map.1 hupsert
  obtain ⟨⟨i', a'⟩, hentry', hid⟩ := List.mem_map.1 hremove
  rw [List.mem_filter, decide_eq_true_eq] at hentry hentry'
  obtain rfl : i' = i := hid
  have hsame := (OrderedMap.get?_eq_some.2 hentry.1).symm.trans
    (OrderedMap.get?_eq_some.2 hentry'.1)
  rw [Option.some_inj, show a = .upsert from hentry.2, show a' = .remove from hentry'.2] at hsame
  exact absurd hsame (by decide)

theorem push_eq (action : Intent)
    (hroom : (List.insert id queue.keys).length ≤ ProductQueue.maxEntries) :
    ProductQueue.push queue id action = queue.set id action := by
  unfold ProductQueue.push
  dsimp only
  refine if_neg (Nat.not_lt.2 ?_)
  have hlength : (queue.set id action).entries.length = (queue.set id action).keys.length :=
    (List.length_map _).symm
  rw [hlength, OrderedMap.keys_set]
  unfold List.insert at hroom
  split_ifs with hmem
  · rwa [if_pos (List.elem_eq_true_of_mem hmem)] at hroom
  · rw [if_neg (by simpa using hmem), List.length_cons] at hroom
    rwa [List.length_append, List.length_singleton]

/-- **A change is not yet an event**: the product has one more state since its
last. -/
theorem Sound.change (h : s.Sound) (id : ProductId) (product : Product V) :
    (s.change id product).Sound := by
  unfold Shop.change
  by_cases hpending : s.pending id = none
  · rw [if_pos hpending]
    -- What a product was since its last event, it was.
    have hsince : ∀ other p, p ∈ s.since other → p ∈ Function.update s.since id
        (if s.since id = [] then [] else product :: s.since id) other := by
      intro other p hp
      by_cases hother : other = id
      · subst hother
        rw [Function.update_self, if_neg (List.ne_nil_of_mem hp)]
        exact List.mem_cons_of_mem _ hp
      · rwa [Function.update_of_ne hother]
    have hnil : ∀ other, Function.update s.since id
        (if s.since id = [] then [] else product :: s.since id) other ≠ [] →
          s.since other ≠ [] := by
      intro other hne hnone
      by_cases hother : other = id
      · subst hother
        rw [Function.update_self, if_pos hnone] at hne
        exact hne rfl
      · rw [Function.update_of_ne hother] at hne
        exact hne hnone
    refine
      { reflected := fun other hnot hne => ?_
        queued := fun other hmem hnone => ?_
        removed := fun other hget => ?_
        current := fun other hne => ?_
        pending := fun other action haction => ?_
        phase := ?_ }
    · obtain ⟨told, htold, p, hp, hreflects⟩ := h.reflected other hnot (hnil other hne)
      exact ⟨told, htold, p, hsince other p hp, hreflects⟩
    · obtain ⟨p, hp⟩ := List.exists_mem_of_ne_nil _ (h.queued other hmem)
      exact List.ne_nil_of_mem (hsince other p hp) hnone
    · obtain ⟨p, hp, hremove⟩ := h.removed other hget
      exact ⟨p, hsince other p hp, hremove⟩
    · have hwas := hnil other hne
      by_cases hother : other = id
      · subst hother
        simp only [Function.update_self, if_neg hwas]
        exact List.mem_cons_self
      · simp only [Function.update_of_ne hother]
        exact h.current other hwas
    · by_cases hother : other = id
      · subst hother
        simp only [Function.update_self] at haction ⊢
        exact (Option.some.inj haction).symm
      · simp only [Function.update_of_ne hother] at haction ⊢
        exact h.pending other action haction
    · refine PhaseSound.mono (s := s) ?_ ?_ ?_ h.phase
      · exact fun _ hid => hid
      · exact fun entry hbuilt content hcontent hfresh =>
          hsince _ _ (hbuilt content hcontent hfresh)
      · rfl
  · rw [if_neg hpending]
    exact h

/-- **An event puts the product in the queue**, and what was built of it before
is no longer fresh. -/
theorem Sound.event (h : s.Sound) (id : ProductId) (hroom : s.Roomy (.event id)) :
    (s.event id).Sound := by
  unfold Shop.event
  cases hpending : s.pending id with
  | none => exact h
  | some action =>
    have hpush := push_eq action (hroom (by rw [hpending]; simp))
    have hkeys : ∀ other, other ∈ (s.queue.set id action).keys ↔
        other = id ∨ other ∈ s.queue.keys := fun _ => OrderedMap.mem_keys_set
    dsimp only
    rw [hpush]
    refine
      { reflected := fun other hnot hne => ?_
        queued := fun other hmem => ?_
        removed := fun other hget => ?_
        current := fun other hne => ?_
        pending := fun other action' haction => ?_
        phase := ?_ }
    · have hother : other ≠ id := fun heq => hnot ((hkeys other).2 (Or.inl heq))
      have hwas : other ∉ s.queue.keys := fun hmem => hnot ((hkeys other).2 (Or.inr hmem))
      unfold Reflected
      simp only [Function.update_of_ne hother] at hne ⊢
      exact h.reflected other hwas hne
    · by_cases hother : other = id
      · subst hother
        simp only [Function.update_self]
        exact List.cons_ne_nil _ _
      · simp only [Function.update_of_ne hother]
        exact h.queued other (((hkeys other).1 hmem).resolve_left hother)
    · by_cases hother : other = id
      · subst hother
        simp only [Function.update_self]
        rw [OrderedMap.get?_set_self] at hget
        refine ⟨_, List.mem_singleton_self _, ?_⟩
        rw [← h.pending other action hpending]
        exact Option.some.inj hget
      · simp only [Function.update_of_ne hother]
        rw [OrderedMap.get?_set_ne _ _ hother] at hget
        exact h.removed other hget
    · by_cases hother : other = id
      · subst hother
        simp only [Function.update_self]
        exact List.mem_singleton_self _
      · simp only [Function.update_of_ne hother] at hne ⊢
        exact h.current other hne
    · by_cases hother : other = id
      · subst hother
        simp only [Function.update_self] at haction
        simp at haction
      · simp only [Function.update_of_ne hother] at haction
        exact h.pending other action' haction
    · refine PhaseSound.mono (s := s) ?_ ?_ ?_ h.phase
      · exact fun other hid => (hkeys other).2 (Or.inr hid)
      · intro entry hbuilt content hcontent hfresh
        by_cases hentry : entry.1 = id
        · simp only [hentry, Function.update_self] at hfresh
          simp at hfresh
        · simp only [Function.update_of_ne hentry] at hfresh ⊢
          exact hbuilt content hcontent hfresh
      · rfl

theorem Sound.of_phase (h : s.Sound) (hphase : s.PhaseSound phase) :
    ({ s with phase := phase } : Shop V).Sound :=
  { h with phase := hphase.mono (fun _ hid => hid) (fun _ hbuilt => hbuilt) rfl }

theorem Sound.read (h : s.Sound) : s.read.Sound := by
  unfold Shop.read
  cases hphase : s.phase with
  | idle =>
    refine h.of_phase ?_
    have hupserts := (List.take_sublist maxUpserts _).trans (idsOf_sublist s.queue .upsert)
    have hremovals := (List.take_sublist maxRemovals _).trans (idsOf_sublist s.queue .remove)
    split_ifs
    · exact phaseSound_removing (s.queue.keys_nodup.sublist hremovals) fun id hid =>
        hremovals.subset hid
    · refine ⟨?_, ?_, fun entry he => absurd he List.not_mem_nil⟩
      · rw [List.map_nil, List.nil_append]
        refine List.Nodup.append (s.queue.keys_nodup.sublist hupserts)
          (s.queue.keys_nodup.sublist hremovals) fun id hupsert hremove => ?_
        exact idsOf_disjoint s.queue (List.mem_of_mem_take hupsert) (List.mem_of_mem_take hremove)
      · rw [List.map_nil, List.nil_append]
        intro id hid
        rcases List.mem_append.1 hid with hid | hid
        · exact hupserts.subset hid
        · exact hremovals.subset hid
  | building | posting | forgetting | deleting | forgettingRemoval => exact h

/-- **A payload is what the product is**, and it has had no event since. -/
theorem Sound.build (h : s.Sound) : s.build.Sound := by
  unfold Shop.build
  cases hphase : s.phase with
  | building toBuild built removals =>
    cases toBuild with
    | nil => exact h
    | cons id toBuild =>
      have hold := h.phase
      rw [hphase] at hold
      obtain ⟨hnodup, hkeys, hbuilt⟩ := hold
      dsimp only
      generalize hnew : built ++ [(id, (s.products id).payload)] = built'
      have hids : built'.map Prod.fst ++ toBuild = built.map Prod.fst ++ id :: toBuild := by
        rw [← hnew, List.map_append, List.append_assoc]
        rfl
      -- What was built before is of other products.
      have hall : ∀ entry ∈ built', Built { s with fresh := Function.update s.fresh id true } entry := by
        rw [← hnew]
        intro entry hentry content hcontent hfresh
        rcases List.mem_append.1 hentry with hbefore | hlast
        · have hother : entry.1 ≠ id := fun heq => by
            rw [List.append_assoc] at hnodup
            exact List.disjoint_of_nodup_append hnodup (List.mem_map_of_mem hbefore)
              (by rw [heq]; exact List.mem_cons_self)
          simp only [Function.update_of_ne hother] at hfresh
          exact hbuilt entry hbefore content hcontent hfresh
        · obtain rfl := List.mem_singleton.1 hlast
          have hproduct : s.products id = .present content := by
            cases hwas : s.products id with
            | present c =>
              rw [hwas] at hcontent
              exact Option.some.inj hcontent
            | trashed c =>
              rw [hwas] at hcontent
              exact absurd (Option.some.inj hcontent) (by simp)
            | gone =>
              rw [hwas] at hcontent
              exact absurd hcontent (by simp [Product.payload])
          have hid : id ∈ s.queue.keys := hkeys id (by simp)
          rw [← hproduct]
          exact h.current id (h.queued id hid)
      rw [← hids] at hnodup hkeys
      split_ifs with hlast
      · subst hlast
        rw [List.append_nil] at hnodup hkeys
        unfold afterBuild
        split_ifs with hnone
        · refine { h with phase := ⟨hnodup, hkeys, fun entry he => ⟨hall entry he, ?_⟩⟩ }
          intro payload hpayload
          have hempty := List.all_eq_true.1 hnone entry he
          rw [hpayload] at hempty
          simp at hempty
        · exact { h with phase := ⟨hnodup, hkeys, hall⟩ }
      · exact { h with phase := ⟨hnodup, hkeys, hall⟩ }
  | idle | posting | forgetting | deleting | forgettingRemoval => exact h

/-- A batch that is accepted tells of its products, and of no other. -/
theorem acceptAll_eq {built : List (ProductId × Option (Product V))}
    (hnodup : (built.map Prod.fst).Nodup) (accepted : ProductId → Option (Told V)) :
    (∀ id, id ∉ built.map Prod.fst → acceptAll accepted built id = accepted id) ∧
      ∀ entry ∈ built, ∀ payload, entry.2 = some payload →
        acceptAll accepted built entry.1 = some (.upsert payload) := by
  unfold acceptAll
  induction built generalizing accepted with
  | nil => exact ⟨fun _ _ => rfl, fun entry he => absurd he List.not_mem_nil⟩
  | cons first built ih =>
    rw [List.map_cons, List.nodup_cons] at hnodup
    rw [List.foldl_cons]
    obtain ⟨hothers, hthese⟩ := ih hnodup.2 (accept accepted first)
    refine ⟨fun id hid => ?_, fun entry he payload hpayload => ?_⟩
    · rw [List.map_cons, List.mem_cons, not_or] at hid
      rw [hothers id hid.2]
      unfold accept
      cases first.2 with
      | none => rfl
      | some payload => exact Function.update_of_ne hid.1 _ _
    · rcases List.mem_cons.1 he with rfl | he
      · rw [hothers _ hnodup.1, accept, hpayload]
        exact Function.update_self _ _ _
      · exact hthese entry he payload hpayload

theorem Sound.of_accepted (h : s.Sound) {accepted : ProductId → Option (Told V)}
    (hsame : ∀ id, id ∉ s.queue.keys → accepted id = s.accepted id)
    (hphase : PhaseSound { s with accepted := accepted } phase) :
    ({ s with accepted := accepted, phase := phase } : Shop V).Sound where
  reflected id hnot hne := by
    obtain ⟨told, htold, hreflects⟩ := h.reflected id hnot hne
    exact ⟨told, (hsame id hnot).trans htold, hreflects⟩
  queued := h.queued
  removed := h.removed
  current := h.current
  pending := h.pending
  phase := PhaseSound.mono (fun _ hid => hid) (fun _ hbuilt => hbuilt) rfl hphase

theorem Sound.post (h : s.Sound) (response : Response) : (s.post response).Sound := by
  unfold Shop.post
  cases hphase : s.phase with
  | posting built removals =>
    have hold := h.phase
    rw [hphase] at hold
    obtain ⟨hnodup, hkeys, hbuilt⟩ := hold
    obtain ⟨hothers, hthese⟩ := acceptAll_eq (List.nodup_append.1 hnodup).1 s.accepted
    have hsame : ∀ id, id ∉ s.queue.keys → acceptAll s.accepted built id = s.accepted id :=
      fun id hid => hothers id fun hmem => hid (hkeys id (List.mem_append_left _ hmem))
    have hleft : ∀ s' : Shop V, s'.queue = s.queue → s'.PhaseSound (removing removals) := by
      intro s' hqueue
      refine phaseSound_removing (List.nodup_append.1 hnodup).2.1 fun id hid => ?_
      rw [hqueue]
      exact hkeys id (List.mem_append_right _ hid)
    cases response with
    | ok =>
      exact h.of_accepted hsame ⟨hnodup, hkeys, fun entry he => ⟨hbuilt entry he, hthese entry he⟩⟩
    | lost => exact h.of_accepted hsame (hleft _ rfl)
    | refused => exact h.of_phase (hleft _ rfl)
  | idle | building | forgetting | deleting | forgettingRemoval => exact h

theorem Sound.delete (h : s.Sound) (response : Response) : (s.delete response).Sound := by
  unfold Shop.delete
  cases hphase : s.phase with
  | deleting removals =>
    cases removals with
    | nil => exact h
    | cons id removals =>
      have hold := h.phase
      rw [hphase] at hold
      obtain ⟨hnodup, hkeys⟩ := hold
      have hsame : ∀ other, other ∉ s.queue.keys →
          Function.update s.accepted id (some .removed) other = s.accepted other := by
        intro other hother
        refine Function.update_of_ne (fun heq => hother ?_) _ _
        rw [heq]
        exact hkeys id List.mem_cons_self
      cases response with
      | ok => exact h.of_accepted hsame ⟨hnodup, hkeys, Function.update_self _ _ _⟩
      | lost => exact h.of_accepted hsame trivial
      | refused => exact h.of_phase trivial
  | idle | building | posting | forgetting | forgettingRemoval => exact h

theorem mem_keys_forget {other : ProductId} :
    other ∈ (ProductQueue.forget queue id).keys ↔ other ∈ queue.keys ∧ other ≠ id := by
  have h : other ∈ (queue.eraseAll [id]).keys ↔ _ := OrderedMap.mem_keys_eraseAll
  rwa [List.mem_singleton] at h

theorem Sound.of_forget (h : s.Sound) (hreflected : s.Reflected id)
    (hphase : PhaseSound { s with queue := ProductQueue.forget s.queue id } phase) :
    ({ s with queue := ProductQueue.forget s.queue id, phase := phase } : Shop V).Sound where
  reflected other hnot hne := by
    by_cases hother : other = id
    · rw [hother]
      exact hreflected
    · exact h.reflected other (fun hmem => hnot (mem_keys_forget.2 ⟨hmem, hother⟩)) hne
  queued other hmem := h.queued other (mem_keys_forget.1 hmem).1
  removed other hget := by
    have hmem := List.mem_of_mem_filter (OrderedMap.get?_eq_some.1 hget)
    exact h.removed other (OrderedMap.get?_eq_some.2 hmem)
  current := h.current
  pending := h.pending
  phase := PhaseSound.mono (fun _ hid => hid) (fun _ hbuilt => hbuilt) rfl hphase

/-- **What is forgotten was sent**, where it is forgotten for what was sent. -/
theorem Sound.forget (h : s.Sound) (hforgets : s.Forgets .forget) : s.forget.Sound := by
  unfold Shop.forget
  unfold Forgets at hforgets
  cases hphase : s.phase with
  | forgetting built removals =>
    cases built with
    | nil => exact h
    | cons entry built =>
      have hold := h.phase
      rw [hphase] at hold hforgets
      obtain ⟨hnodup, hkeys, hbuilt⟩ := hold
      obtain ⟨id, payload⟩ := entry
      obtain ⟨⟨content, rfl⟩, hfresh⟩ := hforgets
      obtain ⟨hwas, htold⟩ := hbuilt _ List.mem_cons_self
      rw [List.map_cons, List.cons_append, List.nodup_cons] at hnodup
      rw [List.map_cons, List.cons_append] at hkeys
      -- What is left to forget, or to remove, is of other products.
      have hleft : ∀ other ∈ built.map Prod.fst ++ removals,
          other ∈ (ProductQueue.forget s.queue id).keys := fun other hother =>
        mem_keys_forget.2 ⟨hkeys other (List.mem_cons_of_mem _ hother),
          fun heq => hnodup.1 (heq ▸ hother)⟩
      refine h.of_forget ⟨_, htold _ rfl, .present content, hwas content rfl hfresh, rfl⟩ ?_
      split_ifs
      · exact phaseSound_removing (List.nodup_append.1 hnodup.2).2.1 fun other hother =>
          hleft other (List.mem_append_right _ hother)
      · exact ⟨hnodup.2, hleft, fun entry he => hbuilt entry (List.mem_cons_of_mem _ he)⟩
  | forgettingRemoval id removals =>
    have hold := h.phase
    rw [hphase] at hold hforgets
    obtain ⟨hnodup, hkeys, htold⟩ := hold
    rw [List.nodup_cons] at hnodup
    obtain ⟨product, hproduct, hremove⟩ := h.removed id hforgets
    refine h.of_forget ⟨_, htold, product, hproduct, ?_⟩ ?_
    · cases product with
      | present content => exact absurd hremove (by simp [Product.intent])
      | trashed content => trivial
      | gone => trivial
    · exact phaseSound_removing hnodup.2 fun other hother => mem_keys_forget.2
        ⟨hkeys other (List.mem_cons_of_mem _ hother), fun heq => hnodup.1 (heq ▸ hother)⟩
  | idle | building | posting | deleting => exact h

/-- **One step keeps it all**, if an event finds room and a product is forgotten
for what was sent of it. -/
theorem Sound.step (h : s.Sound) (action : Action V) (hroom : s.Roomy action)
    (hforgets : s.Forgets action) : (s.step action).Sound := by
  cases action with
  | change id product => exact h.change id product
  | event id => exact h.event id hroom
  | read => exact h.read
  | build => exact h.build
  | post response => exact h.post response
  | forget => exact h.forget hforgets
  | delete response => exact h.delete response
  | crash => exact h.of_phase trivial

end Steps

/-! ## What a run keeps -/

/-- **No change is lost, in the runs that forget each product for what was sent
of it.** Whatever the order of the steps and the answers of the cloud, what it
accepted last reflects every product that has had an event and is not in the
queue. -/
theorem reflected_of_forgets {s : Shop V} (hs : s.Fresh) {actions : List (Action V)}
    (hroom : Throughout Shop.step Roomy s actions)
    (hforgets : Throughout Shop.step Forgets s actions) :
    (run Shop.step s actions).Delivered := by
  have hboth : Throughout Shop.step (fun s action => s.Roomy action ∧ s.Forgets action) s actions :=
    throughout_of_prefix fun before action after hsplit =>
      ⟨Throughout.at (hsplit ▸ hroom), Throughout.at (hsplit ▸ hforgets)⟩
  exact (invariant (I := Sound) (fun _ action hok h => h.step action hok.1 hok.2) hboth
    hs.sound).reflected

/-! ## A change that is lost -/

/-- A shop with one product, which the cloud does not know of. -/
def oneProduct : Shop ℕ where
  products _ := .present 0
  pending _ := none
  queue := ∅
  phase := .idle
  accepted _ := none
  since _ := []
  fresh _ := false

theorem oneProduct_fresh : oneProduct.Fresh := ⟨fun _ => rfl, rfl, rfl, fun _ => rfl⟩

/-- A product is saved, and saved again while the batch that it is in is
posted. -/
def editedMeanwhile : List (Action ℕ) :=
  [.change 7 (.present 1), .event 7, .read, .build, .change 7 (.present 2), .event 7, .post .ok,
    .forget]

/-- **The edit is lost.** Nothing of the product is left in the queue, and what
the cloud accepted is the product before it. -/
theorem edit_lost : ¬ (run Shop.step oneProduct editedMeanwhile).Delivered := by
  intro h
  obtain ⟨told, htold, product, hproduct, hreflects⟩ := h 7 (by decide) (by decide)
  obtain rfl : .upsert (.present 1) = told := Option.some.inj htold
  obtain rfl := List.mem_singleton.1 hproduct
  exact absurd (show 1 = 2 from hreflects) (by decide)

/-- Saved, sent and forgotten, saved again and sent again, and then deleted. -/
def editedBetween : List (Action ℕ) :=
  [.change 7 (.present 1), .event 7, .read, .build, .post .ok, .forget,
    .change 7 (.present 2), .event 7, .read, .build, .post .lost, .read, .build, .post .ok, .forget,
    .change 7 .gone, .event 7, .read, .delete .ok, .forget]

theorem reflected_between : (run Shop.step oneProduct editedBetween).Delivered :=
  reflected_of_forgets oneProduct_fresh (by decide +kernel) (by decide +kernel)

end Shop

end Optionia.Catalogue
