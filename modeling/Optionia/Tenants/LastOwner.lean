import Optionia.Tenants.Team
/-!
# A workspace always has an owner

The statements that count the owners keep one. Three writes do not count: a
role change and a removal that read the member as no owner before, and an
acceptance by someone who is a member. In every run from a tenant with a live
owner there is one throughout, just when each of these leaves one standing
(`owned_iff`).
-/

namespace Optionia.Tenants

open Runs Calls.System

variable {tenantId other memberId userId : ℕ} {member : TenantMember} {members members' : Members}
  {patch : Patch} {fits : TenantMember → Bool} {tables tables' : Tables} {input : Input}
  {platform : Platform} {phase : Phase} {invitation : TenantInvitation}

/-! ## What is asked -/

/-- The tenant has a live owner. -/
def Members.Owned (members : Members) (tenantId : ℕ) : Prop :=
  ∃ member ∈ members.rows, member.LiveOwner tenantId

instance (members : Members) (tenantId : ℕ) : Decidable (members.Owned tenantId) :=
  inferInstanceAs (Decidable (∃ member ∈ members.rows, _))

/-- A live owner stands besides a member. -/
def Members.OwnedBesides (members : Members) (tenantId memberId : ℕ) : Prop :=
  ∃ member ∈ members.rows, member.LiveOwner tenantId ∧ member.id ≠ memberId

instance (members : Members) (tenantId memberId : ℕ) :
    Decidable (members.OwnedBesides tenantId memberId) :=
  inferInstanceAs (Decidable (∃ member ∈ members.rows, _))

/-- **What the writes that do not count need of the members they meet**: that a
live owner stands besides the one they rewrite. -/
def Phase.Spares (tenantId : ℕ) (tables : Tables) : Phase → Prop
  | .changing memberId role => role ≠ .owner → tables.members.OwnedBesides tenantId memberId
  | .revoking memberId => tables.members.OwnedBesides tenantId memberId
  | .joining invitation userId =>
    tables.claimable invitation = true → invitation.role ≠ .owner →
      ∀ member ∈ tables.membership invitation.tenantId userId,
        tables.members.OwnedBesides tenantId member.id
  | _ => True

instance decidableSpares (tenantId : ℕ) (tables : Tables) (phase : Phase) :
    Decidable (phase.Spares tenantId tables) := by
  unfold Phase.Spares
  split
  · infer_instance
  · infer_instance
  · infer_instance
  · infer_instance

/-- The tenant has a live owner in every state a run reaches. -/
def OwnedThroughout (platform : Platform) (tenantId : ℕ) (s : State) (actions : List Action) : Prop :=
  ∀ before, before <+: actions →
    (run (teamService platform).step s before).data.members.Owned tenantId

/-! ## One update -/

/-- What an update writes takes ownership away. -/
def Patch.Unseats (patch : Patch) : Prop :=
  (∃ role ∈ patch.role, role ≠ .owner) ∨ ∃ now, patch.revokedAt = some (some now)

theorem not_liveOwner_patch (h : patch.Unseats) :
    ¬ (member.patch patch).LiveOwner tenantId := by
  rintro ⟨-, hrole, hrevoked⟩
  obtain ⟨role, hsome, hne⟩ | ⟨now, hsome⟩ := h
  · have hset : (member.patch patch).role = role := by simp [TenantMember.patch, Option.mem_def.1 hsome]
    exact hne (hset.symm.trans hrole)
  · have hset : (member.patch patch).revokedAt = some now := by simp [TenantMember.patch, hsome]
    exact absurd (hset.symm.trans hrevoked) (Option.some_ne_none now)

theorem liveOwner_patch (h : ¬ patch.Unseats) (howner : member.LiveOwner tenantId) :
    (member.patch patch).LiveOwner tenantId := by
  obtain ⟨htenant, hrole, hrevoked⟩ := howner
  refine ⟨htenant, ?_, ?_⟩
  · show patch.role.getD member.role = .owner
    cases hset : patch.role with
    | none => exact hrole
    | some role =>
      by_contra hne
      exact h (.inl ⟨role, hset, hne⟩)
  · show patch.revokedAt.getD member.revokedAt = none
    cases hset : patch.revokedAt with
    | none => exact hrevoked
    | some revokedAt =>
      cases revokedAt with
      | none => rfl
      | some now => exact absurd (.inr ⟨now, hset⟩) h

/-- **After an update that unseats, the live owners are those it did not
touch.** -/
theorem owned_update_iff (h : patch.Unseats) :
    (members.update fits patch).Owned tenantId ↔
      ∃ member ∈ members.rows, member.LiveOwner tenantId ∧ fits member = false := by
  constructor
  · rintro ⟨row, hrow, howner⟩
    obtain ⟨member, hmember, rfl⟩ := List.mem_map.1 hrow
    cases hfits : fits member with
    | true =>
      rw [if_pos hfits] at howner
      exact absurd howner (not_liveOwner_patch h)
    | false =>
      rw [if_neg (by simp [hfits])] at howner
      exact ⟨member, hmember, howner, hfits⟩
  · rintro ⟨member, hmember, howner, hfits⟩
    refine ⟨member, List.mem_map.2 ⟨member, hmember, ?_⟩, howner⟩
    simp [hfits]

/-- **An update that does not unseat keeps the tenant its owner.** -/
theorem owned_update (h : ¬ patch.Unseats) (howned : members.Owned tenantId) :
    (members.update fits patch).Owned tenantId := by
  obtain ⟨member, hmember, howner⟩ := howned
  refine ⟨_, List.mem_map.2 ⟨member, hmember, rfl⟩, ?_⟩
  split_ifs
  · exact liveOwner_patch h howner
  · exact howner

/-- An update of one row that unseats keeps the tenant its owner just when one
stands besides the row. -/
theorem owned_update_key_iff (h : patch.Unseats) :
    (members.update (fun member => member.id = memberId) patch).Owned tenantId ↔
      members.OwnedBesides tenantId memberId := by
  rw [owned_update_iff h]
  unfold Members.OwnedBesides
  simp only [decide_eq_false_iff_not, ne_eq]

theorem owned_insert (h : members.insert? member = some members') (howned : members.Owned tenantId) :
    members'.Owned tenantId := by
  obtain ⟨owner, howner, hlive⟩ := howned
  refine ⟨owner, ?_, hlive⟩
  rw [Keyed.Table.rows_insert? h]
  exact List.mem_append_left _ howner

/-! ## The statements that count -/

/-- **Where a tenant has more than one live owner, one stands besides any
member.** -/
theorem ownedBesides_of_owners (h : 1 < members.owners tenantId) (memberId : ℕ) :
    members.OwnedBesides tenantId memberId := by
  by_contra hnone
  have hall : ∀ member ∈ members.rows, member.LiveOwner tenantId → member.id = memberId := by
    intro member hmember howner
    by_contra hne
    exact hnone ⟨member, hmember, howner, hne⟩
  have hle : members.owners tenantId ≤ members.rows.countP fun member => member.id = memberId := by
    refine List.countP_mono_left fun member hmember howner => ?_
    exact decide_eq_true (hall member hmember (of_decide_eq_true howner))
  have hone := members.countP_key_le memberId
  omega

/-- **A statement that counts keeps every tenant its owner**, whatever it
writes. -/
theorem owned_updateSafely (h : members.updateSafely other memberId patch = some members')
    (howned : members.Owned tenantId) : members'.Owned tenantId := by
  unfold Members.updateSafely at h
  split at h
  · obtain rfl := Option.some.inj h
    rename_i hany
    obtain ⟨target, -, hspare⟩ := List.any_eq_true.1 hany
    simp only [Members.spare, Bool.and_eq_true, decide_eq_true_eq] at hspare
    by_cases hunseats : patch.Unseats
    · rw [owned_update_iff hunseats]
      by_cases htenant : other = tenantId
      · subst htenant
        obtain ⟨owner, hmem, howner, hne⟩ := ownedBesides_of_owners hspare.2 memberId
        exact ⟨owner, hmem, howner, by simp [Members.spare, hne]⟩
      · -- The statement writes rows of another tenant alone.
        obtain ⟨owner, hmem, howner⟩ := howned
        refine ⟨owner, hmem, howner, ?_⟩
        have hforeign : ¬ owner.LiveOwner other := fun hlive => htenant (hlive.1.symm.trans howner.1)
        simp [Members.spare, hforeign]
    · exact owned_update hunseats howned
  · simp at h

theorem owned_guarded {result : Option Members}
    (h : ∀ members, result = some members → members.Owned tenantId)
    (howned : tables.members.Owned tenantId) :
    (tables.guarded input result).1.members.Owned tenantId := by
  unfold Tables.guarded
  split
  · exact howned
  · split
    · exact h _ rfl
    · exact howned

/-! ## The acceptance -/

/-- What an acceptance writes takes ownership away just when it grants another
role. -/
theorem unseats_iff (role : TenantRole) :
    ({ role := some role, revokedAt := some none } : Patch).Unseats ↔ role ≠ .owner := by
  constructor
  · rintro (⟨_, hrole, hne⟩ | ⟨now, hsome⟩)
    · exact Option.some.inj hrole ▸ hne
    · exact absurd (Option.some.inj hsome).symm (Option.some_ne_none now)
  · intro hne
    exact .inl ⟨role, rfl, hne⟩

/-- **An acceptance keeps the tenant its owner just when it grants ownership,
adds a membership, or rewrites one besides which an owner stands.** -/
theorem owned_admit_iff (h : tables.admit input invitation userId = some members)
    (howned : tables.members.Owned tenantId) :
    (invitation.role ≠ .owner → ∀ member ∈ tables.membership invitation.tenantId userId,
      tables.members.OwnedBesides tenantId member.id) ↔ members.Owned tenantId := by
  unfold Tables.admit at h
  split at h
  · rename_i revoked hfound
    obtain rfl := Option.some.inj h
    rw [hfound]
    simp only [Option.mem_def, Option.some.injEq, forall_eq']
    by_cases hrole : invitation.role = .owner
    · have hkeeps := (unseats_iff invitation.role).not.2 (not_not.2 hrole)
      exact iff_of_true (fun hne => absurd hrole hne) (owned_update hkeeps howned)
    · rw [owned_update_key_iff ((unseats_iff invitation.role).2 hrole)]
      exact ⟨fun h => h hrole, fun h _ => h⟩
  · rename_i hnone
    refine iff_of_true (fun _ member hmember => ?_) (owned_insert h howned)
    rw [hnone] at hmember
    simp at hmember

/-! ## One statement -/

/-- **A statement leaves the tenant a live owner just when it spares one.** -/
theorem spares_iff (platform : Platform) (input : Input) (howned : tables.members.Owned tenantId) :
    phase.Spares tenantId tables ↔
      (statement platform input tables phase).1.members.Owned tenantId := by
  cases phase with
  | demoting other memberId role =>
    exact iff_of_true trivial (owned_guarded (fun _ h => owned_updateSafely h howned) howned)
  | removingOwner other memberId =>
    exact iff_of_true trivial (owned_guarded (fun _ h => owned_updateSafely h howned) howned)
  | changing memberId role =>
    show (role ≠ .owner → tables.members.OwnedBesides tenantId memberId) ↔ Members.Owned _ _
    by_cases hrole : role = .owner
    · have hkeeps : ¬ ({ role := some role } : Patch).Unseats := by
        rintro (⟨_, hsome, hne⟩ | ⟨now, hsome⟩)
        · exact hne ((Option.some.inj hsome).symm.trans hrole)
        · simp at hsome
      exact iff_of_true (fun hne => absurd hrole hne) (owned_update hkeeps howned)
    · have hunseats : ({ role := some role } : Patch).Unseats := .inl ⟨role, rfl, hrole⟩
      rw [forall_prop_of_true hrole]
      exact (owned_update_key_iff hunseats).symm
  | revoking memberId =>
    have hunseats : ({ revokedAt := some (some input.now) } : Patch).Unseats := .inr ⟨input.now, rfl⟩
    exact (owned_update_key_iff hunseats).symm
  | joining invitation userId =>
    unfold statement Phase.Spares
    dsimp only
    unfold Tables.join
    split_ifs with hclaimable
    · cases hadmit : tables.admit input invitation userId with
      | some members =>
        rw [forall_prop_of_true hclaimable]
        exact owned_admit_iff hadmit howned
      | none =>
        -- The key of the membership to add is taken, so there is none to rewrite.
        refine iff_of_true (fun _ _ member hmember => ?_) howned
        unfold Tables.admit at hadmit
        rw [Option.mem_def.1 hmember] at hadmit
        simp at hadmit
    · exact iff_of_true (fun h => absurd h hclaimable) howned
  | guarding caller other capability allowed =>
    unfold statement
    dsimp only
    split
    · exact iff_of_true trivial howned
    · exact iff_of_true trivial howned
  | requiring other memberId found =>
    unfold statement
    dsimp only
    split
    · exact iff_of_true trivial howned
    · exact iff_of_true trivial howned
  | addressing other address role =>
    unfold statement
    dsimp only
    split_ifs
    · exact iff_of_true trivial howned
    · exact iff_of_true trivial howned
  | saving other address role =>
    unfold statement
    dsimp only
    split
    · exact iff_of_true trivial howned
    · exact iff_of_true trivial howned
  | accepting plaintext userId userEmail =>
    unfold statement
    dsimp only
    split
    · exact iff_of_true trivial howned
    · exact iff_of_true trivial howned
  | _ => exact iff_of_true trivial howned

/-! ## Runs -/

/-- **A tenant that has a live owner has one in every state a run reaches, just
when every write that does not count the owners leaves one besides the
membership it rewrites.** -/
theorem owned_iff (platform : Platform) (tenantId : ℕ) (s : State) (actions : List Action)
    (howned : s.data.members.Owned tenantId) :
    OwnedThroughout platform tenantId s actions ↔
      Throughout (teamService platform).step (Asks (Phase.Spares tenantId)) s actions := by
  have hmay : Throughout (teamService platform).step (fun _ _ => True) s actions :=
    throughout_of_forall (fun _ _ => trivial) s actions
  have hiff : ∀ (s : State) action, s.data.members.Owned tenantId →
      (Asks (Phase.Spares tenantId) s action ↔
        ((teamService platform).step s action).data.members.Owned tenantId) :=
    fun s action h => asks_iff (Q := fun tables : Tables => tables.members.Owned tenantId) h
      fun i input request phase _ => spares_iff platform input h
  exact forall_prefix_iff (P := fun s : State => s.data.members.Owned tenantId)
    (I := fun s : State => s.data.members.Owned tenantId)
    (fun s action _ hspares h => (hiff s action h).1 hspares) (fun s action _ h => hiff s action h)
    hmay howned howned

/-! ## How the last owner goes -/

/-- A platform whose tokens are their own hashes, and where no address is
known. -/
def bare : Platform where
  hashToken := id
  address := id
  emailOf _ := none
  removal := .membersChangeRole

/-- An owner and an admin of one tenant. -/
def twoMembers : Tables where
  members :=
    { rows := [⟨1, 7, 1, .owner, none⟩, ⟨2, 7, 2, .admin, none⟩]
      keyed := by decide }

/-- All the statements of a call that is the next to be started. -/
def whole (request : Request) (call : ℕ) : List Action :=
  [.start request, .advance call { now := 0 }, .advance call { now := 0 },
    .advance call { now := 0 }]

/-- The owner makes the admin an owner, and is made an admin by them. -/
def handover (first : ℕ) : List Action :=
  whole (.changeRole 1 7 2 .owner) first ++ whole (.changeRole 2 7 1 .admin) (first + 1)

/-- The admin is to be a viewer, and was read; then the handover; then the
write. -/
def staleDemotion : List Action :=
  [.start (.changeRole 1 7 2 .viewer), .advance 0 { now := 0 }, .advance 0 { now := 0 }] ++
    handover 1 ++ [.advance 0 { now := 0 }]

/-- The same with the write before the handover. -/
def demotionThenHandover : List Action :=
  whole (.changeRole 1 7 2 .viewer) 0 ++ handover 1

/-- **A role change that read the member before their promotion unseats the
last owner.** -/
theorem stale_demotion_unseats :
    ¬ ∀ (platform : Platform) (tenantId : ℕ) (tables : Tables) (actions : List Action),
      tables.members.Owned tenantId → OwnedThroughout platform tenantId ⟨tables, []⟩ actions := by
  intro h
  have hunowned : ¬ (run (teamService bare).step ⟨twoMembers, []⟩ staleDemotion).data.members.Owned 7 := by
    decide +kernel
  exact hunowned (h bare 7 twoMembers staleDemotion (by decide) staleDemotion (List.prefix_refl _))

/-- **In turn, the two leave the tenant its owner.** -/
theorem owned_demotion_then_handover :
    OwnedThroughout bare 7 ⟨twoMembers, []⟩ demotionThenHandover ∧
      (run (teamService bare).step ⟨twoMembers, []⟩ demotionThenHandover).data.members.rows =
        [⟨1, 7, 1, .admin, none⟩, ⟨2, 7, 2, .owner, none⟩] :=
  ⟨(owned_iff bare 7 ⟨twoMembers, []⟩ demotionThenHandover (by decide)).2 (by decide +kernel),
    by decide +kernel⟩

end Optionia.Tenants
