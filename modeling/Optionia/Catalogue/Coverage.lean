import Optionia.Catalogue.Walk
/-!
# What the walk has covered

Every value that the cursor has, in the option or in the hands of a run, has
everything below its offset handled, as long as two things do not happen: a
page that should have products comes back without, and a run advances a cursor
that others have advanced past the position where its batch began
(`covered_of_steady`). The claim does not keep the second from happening: it
is read before it is written, and two runs that read it free both go on.
-/

namespace Optionia.Catalogue

open Runs

namespace Site

/-! ## What is asked, and what holds -/

/-- A position was in a batch that the cloud accepted, or it was refused alone. -/
def Handled (s : Site) (position : ℕ) : Prop := s.sent position = true ∨ s.refused position = true

/-- **A cursor skips nothing**: every product below its offset was handled, and
once it is complete, so was every product that its total counts. -/
structure Skipless (s : Site) (cursor : Cursor) : Prop where
  below : ∀ position < cursor.offset, position < s.size → s.Handled position
  complete : cursor.isComplete = true → ∀ position < cursor.total, s.Handled position

/-- **The walk skips nothing**: its cursor does not. -/
def SkipsNothing (s : Site) : Prop := ∀ cursor, s.stored = some cursor → s.Skipless cursor

/-- A run that is at a page has no more to read. -/
def AtEnd : Doing → Prop
  | .paging cursor => cursor.total ≤ cursor.offset
  | .idle | .claiming _ | .pushing | .first | .starting _ | .started .. | .resuming | .sending ..
  | .halving .. | .advancing .. | .advanced _ | .releasing | .released _ => True

/-- A run that is to advance the cursor of its walk finds it no further than
where its batch began. -/
def NotPast (cursor : Cursor) : Doing → Prop
  | .advancing runId base count =>
    runId ≠ none → cursor.runId = runId → count = 0 ∨ cursor.offset ≤ base
  | .idle | .claiming _ | .pushing | .first | .starting _ | .started .. | .resuming | .paging _
  | .sending .. | .halving .. | .advanced _ | .releasing | .released _ => True

/-- **No page is missing, and no run advances past its batch.** -/
def Steady (s : Site) : Move → Prop
  | .noPage run => AtEnd (s.doing run)
  | .option run => NotPast s.read (s.doing run)
  | .begin _ | .page .. | .post .. | .throws _ | .crash _ | .forget | .grow _ | .tick _ => True

instance : DecidablePred AtEnd
  | .paging cursor => inferInstanceAs (Decidable (cursor.total ≤ cursor.offset))
  | .idle | .claiming _ | .pushing | .first | .starting _ | .started .. | .resuming | .sending ..
  | .halving .. | .advancing .. | .advanced _ | .releasing | .released _ => .isTrue trivial

instance (cursor : Cursor) : DecidablePred (NotPast cursor)
  | .advancing _ _ _ => inferInstanceAs (Decidable (_ → _ → _ ∨ _))
  | .idle | .claiming _ | .pushing | .first | .starting _ | .started .. | .resuming | .paging _
  | .sending .. | .halving .. | .advanced _ | .releasing | .released _ => .isTrue trivial

instance (s : Site) : DecidablePred s.Steady
  | .noPage run => inferInstanceAs (Decidable (AtEnd (s.doing run)))
  | .option run => inferInstanceAs (Decidable (NotPast s.read (s.doing run)))
  | .begin _ | .page .. | .post .. | .throws _ | .crash _ | .forget | .grow _ | .tick _ =>
    .isTrue trivial

/-- A site before its first run. -/
structure Fresh (s : Site) : Prop where
  stored : s.stored = none
  doing : ∀ run, s.doing run = .idle

/-- Everything below a position was handled. -/
def Covered (s : Site) (bound : ℕ) : Prop := ∀ position < bound, s.Handled position

/-- What holds of every value that the cursor has. -/
def RightCursor (s : Site) (cursor : Cursor) : Prop :=
  s.Covered cursor.offset ∧ cursor.total ≤ s.size

def RightDoing (s : Site) : Doing → Prop
  | .claiming cursor | .paging cursor | .advanced cursor | .released cursor => s.RightCursor cursor
  | .starting total | .started total _ => total ≤ s.size
  | .sending _ base _ | .halving _ base _ => s.Covered base
  | .advancing _ base count => s.Covered (base + count)
  | .idle | .pushing | .first | .resuming | .releasing => True

/-- **What holds after every step.** -/
structure Right (s : Site) : Prop where
  stored : ∀ cursor, s.stored = some cursor → s.RightCursor cursor
  doing : ∀ run, s.RightDoing (s.doing run)

/-! ## What is handled stays handled -/

/-- More is handled, and there are more products. -/
structure Grows (s s' : Site) : Prop where
  handled : ∀ position, s.Handled position → s'.Handled position
  size : s.size ≤ s'.size

section Grows

variable {s s' : Site}

theorem Covered.mono (hgrows : Grows s s') {bound : ℕ} (h : s.Covered bound) : s'.Covered bound :=
  fun position hposition => hgrows.handled position (h position hposition)

theorem RightCursor.mono (hgrows : Grows s s') {cursor : Cursor} (h : s.RightCursor cursor) :
    s'.RightCursor cursor := ⟨h.1.mono hgrows, Nat.le_trans h.2 hgrows.size⟩

theorem RightDoing.mono (hgrows : Grows s s') {doing : Doing} (h : s.RightDoing doing) :
    s'.RightDoing doing := by
  cases doing with
  | claiming cursor | paging cursor | advanced cursor | released cursor =>
    exact RightCursor.mono hgrows h
  | starting total | started total claimedAt => exact Nat.le_trans h hgrows.size
  | sending runId base count | halving runId base count => exact Covered.mono hgrows h
  | advancing runId base count => exact Covered.mono hgrows h
  | idle | pushing | first | resuming | releasing => trivial

theorem Right.mono (hgrows : Grows s s') (h : s.Right) (hstored : s'.stored = s.stored)
    (hdoing : s'.doing = s.doing) : s'.Right where
  stored cursor hcursor := (h.stored cursor (hstored ▸ hcursor)).mono hgrows
  doing run := by
    rw [hdoing]
    exact (h.doing run).mono hgrows

theorem Right.goOn (h : s.Right) {run : ℕ} {doing : Doing} (hdoing : s.RightDoing doing) :
    (s.goOn run doing).Right where
  stored := h.stored
  doing other := by
    unfold Site.goOn
    by_cases hother : other = run
    · subst hother
      simp only [Function.update_self]
      exact RightDoing.mono ⟨fun _ hp => hp, Nat.le_refl _⟩ hdoing
    · simp only [Function.update_of_ne hother]
      exact RightDoing.mono ⟨fun _ hp => hp, Nat.le_refl _⟩ (h.doing other)

theorem Right.write (h : s.Right) {cursor : Cursor} (hcursor : s.RightCursor cursor) :
    (s.write cursor).1.Right := by
  unfold Site.write
  split_ifs
  · exact h
  · exact
      { stored := fun c hc => by
          obtain rfl := Option.some.inj hc
          exact hcursor.mono ⟨fun _ hp => hp, Nat.le_refl _⟩
        doing := fun run => RightDoing.mono ⟨fun _ hp => hp, Nat.le_refl _⟩ (h.doing run) }

theorem Right.read (h : s.Right) : s.RightCursor s.read := by
  unfold Site.read
  cases hstored : s.stored with
  | none => exact ⟨fun position hp => absurd hp (Nat.not_lt_zero position), Nat.zero_le _⟩
  | some cursor => exact h.stored cursor hstored

theorem grows_accept (s : Site) (base count : ℕ) : Grows s (s.accept base count) where
  handled position h := by
    rcases h with h | h
    · exact Or.inl (Bool.or_eq_true_iff.2 (Or.inl h))
    · exact Or.inr h
  size := Nat.le_refl _

/-- A batch that is accepted at the end of what is covered covers its own
length. -/
theorem covered_accept {base count : ℕ} (h : s.Covered base) :
    (s.accept base count).Covered (base + count) := by
  intro position hposition
  rcases Nat.lt_or_ge position base with hlt | hge
  · exact (grows_accept s base count).handled position (h position hlt)
  · refine Or.inl ?_
    unfold accept span
    simp [hge, hposition]

end Grows

/-! ## What each step keeps -/

section Steps

variable {s : Site}

/-- **A read or a write of the option keeps it right**, if a run does not
advance past its batch. -/
theorem Right.option (h : s.Right) (run : ℕ) (hsteady : s.Steady (.option run)) :
    (s.option run).Right := by
  have hrun := h.doing run
  unfold Site.option
  cases hdoing : s.doing run with
  | claiming cursor =>
    rw [hdoing] at hrun
    exact (h.write hrun).goOn (by split_ifs <;> trivial)
  | pushing =>
    refine h.goOn ?_
    split_ifs
    · trivial
    · trivial
    · exact h.read
  | starting total =>
    rw [hdoing] at hrun
    exact h.goOn hrun
  | started total claimedAt =>
    rw [hdoing] at hrun
    dsimp only
    have hcursor : s.RightCursor ⟨some s.nextRun, 0, total, s.now, s.now, claimedAt⟩ :=
      ⟨fun position hp => absurd hp (Nat.not_lt_zero position), hrun⟩
    have hwritten := h.write hcursor
    generalize (s.write ⟨some s.nextRun, 0, total, s.now, s.now, claimedAt⟩).1 = w at hwritten ⊢
    have hgrows : Grows w { w with nextRun := s.nextRun + 1 } := ⟨fun _ hp => hp, Nat.le_refl _⟩
    exact (hwritten.mono hgrows rfl rfl).goOn trivial
  | resuming => exact h.goOn h.read
  | advancing runId base count =>
    rw [hdoing] at hrun
    refine h.goOn ?_
    split_ifs with hother
    · trivial
    · rw [not_or, not_not] at hother
      change NotPast s.read (s.doing run) at hsteady
      rw [hdoing] at hsteady
      refine ⟨fun position hposition => ?_, h.read.2⟩
      -- The batch reaches at least as far as the cursor is moved.
      rcases hsteady hother.1 hother.2 with hnone | hbehind
      · refine h.read.1 position ?_
        rw [hnone] at hposition
        exact hposition
      · exact hrun position (Nat.lt_of_lt_of_le hposition (Nat.add_le_add_right hbehind count))
  | advanced cursor =>
    rw [hdoing] at hrun
    exact (h.write hrun).goOn trivial
  | releasing =>
    refine h.goOn ?_
    split_ifs
    · trivial
    · exact h.read
  | released cursor =>
    rw [hdoing] at hrun
    exact (h.write hrun).goOn trivial
  | idle | first | paging | sending | halving => exact h

/-- **A page keeps it right**: where it has no products, the run had no more to
read. -/
theorem Right.page (h : s.Right) (run : ℕ) {products : ℕ → ℕ} {total : ℕ} (fits : ℕ → Bool)
    (htotal : total ≤ s.size)
    (hnone : ∀ cursor, s.doing run = .paging cursor → products cursor.offset = 0 →
      cursor.total ≤ cursor.offset) : (s.page run products total fits).Right := by
  have hrun := h.doing run
  unfold Site.page
  cases hdoing : s.doing run with
  | first =>
    refine h.goOn ?_
    split_ifs
    · trivial
    · exact htotal
  | paging cursor =>
    rw [hdoing] at hrun
    refine h.goOn ?_
    split_ifs with hempty
    · intro position hposition
      rw [Nat.sub_eq_zero_of_le (hnone cursor hdoing hempty), Nat.add_zero] at hposition
      exact hrun.1 position hposition
    · exact hrun.1
  | idle | claiming | pushing | starting | started | resuming | sending | halving | advancing
  | advanced | releasing | released => exact h

/-- **A batch that is accepted is what the cursor is advanced by**, and so is a
product that is refused alone. -/
theorem Right.post (h : s.Right) (run : ℕ) (reply : Reply) : (s.post run reply).Right := by
  have hrun := h.doing run
  have haccept : ∀ base count, (s.accept base count).Right := fun base count =>
    h.mono (grows_accept s base count) rfl rfl
  unfold Site.post
  cases hdoing : s.doing run with
  | sending runId base count =>
    rw [hdoing] at hrun
    cases reply with
    | ok => exact (haccept base count).goOn (covered_accept hrun)
    | lost => exact (haccept base count).goOn trivial
    | tooLarge =>
      dsimp only
      split_ifs with hmany hone
      · exact h.goOn hrun
      · have hgrows : Grows s { s with
            refused := fun position => s.refused position || span base count position } :=
          ⟨fun position hp => hp.imp_right fun hp => Bool.or_eq_true_iff.2 (Or.inl hp),
            Nat.le_refl _⟩
        refine (h.mono hgrows rfl rfl).goOn fun position hposition => ?_
        rcases Nat.lt_or_ge position base with hlt | hge
        · exact hgrows.handled position (hrun position hlt)
        · refine Or.inr (Bool.or_eq_true_iff.2 (Or.inr ?_))
          unfold span
          rw [hone]
          simp [hge, minBatch, hposition]
      · exact h.goOn trivial
    | failed => exact h.goOn trivial
  | halving runId base count =>
    rw [hdoing] at hrun
    cases reply with
    | ok => exact (haccept base count).goOn (covered_accept hrun)
    | lost => exact (haccept base count).goOn trivial
    | tooLarge | failed => exact h.goOn trivial
  | idle | claiming | pushing | first | starting | started | resuming | paging | advancing
  | advanced | releasing | released => exact h

/-- **One step keeps it right**, if it is steady. -/
theorem Right.step (h : s.Right) (move : Move) (hsteady : s.Steady move) : (s.step move).Right := by
  cases move with
  | begin run =>
    unfold Site.step
    dsimp only
    split_ifs
    · exact h
    · exact h.goOn h.read
    · exact h
  | option run => exact h.option run hsteady
  | page run fits =>
    show (s.page run (fun offset => min batchSize (s.size - offset)) s.size fits).Right
    refine h.page run fits (Nat.le_refl _) fun cursor hdoing hempty => ?_
    -- The total was counted when there were no more products than there are.
    have hright := h.doing run
    rw [hdoing] at hright
    have htotal := hright.2
    unfold batchSize at hempty
    omega
  | noPage run =>
    show (s.page run (fun _ => 0) 0 fun _ => false).Right
    refine h.page run _ (Nat.zero_le _) fun cursor hdoing _ => ?_
    change AtEnd (s.doing run) at hsteady
    rw [hdoing] at hsteady
    exact hsteady
  | post run reply => exact h.post run reply
  | throws run =>
    unfold Site.step
    dsimp only
    split
    · exact h
    · exact h
    · exact h
    · exact h
    · exact h.goOn trivial
  | crash run => exact h.goOn trivial
  | forget =>
    exact
      { stored := fun cursor hcursor => absurd hcursor (by simp [Site.step])
        doing := fun run => RightDoing.mono ⟨fun _ hp => hp, Nat.le_refl _⟩ (h.doing run) }
  | grow products =>
    have hgrows : Grows s { s with size := s.size + products } :=
      ⟨fun _ hp => hp, Nat.le_add_right _ _⟩
    exact h.mono hgrows rfl rfl
  | tick seconds =>
    have hgrows : Grows s { s with now := s.now + seconds } := ⟨fun _ hp => hp, Nat.le_refl _⟩
    exact h.mono hgrows rfl rfl

end Steps

/-! ## What a run of all of them keeps -/

theorem Fresh.right {s : Site} (h : s.Fresh) : s.Right where
  stored cursor hcursor := by
    rw [h.stored] at hcursor
    simp at hcursor
  doing run := by rw [h.doing run]; trivial

/-- **The walk skips nothing, as long as it is steady.** Whatever the order of
the steps of any number of runs, and whatever becomes of their requests, the
cursor has everything below its offset handled. -/
theorem covered_of_steady {s : Site} (hs : s.Fresh) {moves : List Move}
    (hsteady : Throughout step Steady s moves) : (run step s moves).SkipsNothing := by
  intro cursor hcursor
  have hright : (run step s moves).Right :=
    invariant (I := Right) (fun _ move hok h => h.step move hok) hsteady hs.right
  obtain ⟨hcovered, -⟩ := hright.stored cursor hcursor
  refine ⟨fun position hposition _ => hcovered position hposition, fun hcomplete => ?_⟩
  unfold Cursor.isComplete at hcomplete
  rw [Bool.and_eq_true, decide_eq_true_eq] at hcomplete
  exact fun position hposition => hcovered position (Nat.lt_of_lt_of_le hposition hcomplete.2)

/-! ## A batch that is skipped -/

/-- A site with two products, each a batch of its own. -/
def twoProducts : Site where
  stored := none
  doing _ := .idle
  size := 2
  now := 1000
  nextRun := 0
  sent _ := false
  refused _ := false

theorem twoProducts_fresh : twoProducts.Fresh := ⟨rfl, fun _ => rfl⟩

/-- The byte budget holds one product. -/
def oneFits (size : ℕ) : Bool := decide (size ≤ 1)

/-- Two runs read the cursor free, a second apart, and both claim it. The first
begins the walk, and each sends the first product and advances. -/
def bothClaim : List Move :=
  [.begin 1, .tick 1, .begin 2, .option 1, .option 2, .option 1, .page 1 oneFits, .option 1,
    .option 1, .option 1, .option 2, .page 1 oneFits, .page 2 oneFits, .post 1 .ok, .post 2 .ok,
    .option 1, .option 1, .option 2, .option 2]

/-- **Two runs that read the cursor free skip a batch.** The walk is complete,
and its second product was neither sent nor refused. -/
theorem batch_skipped : ¬ (run step twoProducts bothClaim).SkipsNothing := by
  intro h
  have hskipless := h ⟨some 0, 2, 2, 1001, 1001, 1001⟩ (by decide +kernel)
  exact absurd (hskipless.below 1 (by decide) (by decide +kernel)) (by unfold Handled; decide +kernel)

/-- Two runs one after the other, the second after the claim of the first, which
died in the middle of its batch, has expired. -/
def afterCrash : List Move :=
  [.begin 1, .option 1, .option 1, .page 1 oneFits, .option 1, .option 1, .option 1,
    .page 1 oneFits, .post 1 .lost, .crash 1, .tick 400, .begin 2, .option 2, .option 2,
    .page 2 oneFits, .post 2 .ok, .option 2, .option 2, .option 2, .option 2]

theorem covered_afterCrash : (run step twoProducts afterCrash).SkipsNothing :=
  covered_of_steady twoProducts_fresh (by decide +kernel)

end Site

end Optionia.Catalogue
