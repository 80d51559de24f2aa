import CCplusplus.Ch14AsyncShort
/-!
# Ch14AsyncExit — the exit test of `ch14_async`

The `break` after the test of `numop` leaves the scan and not the loop around it: nothing goes on to `aio_fsync`
(`never_fsync`).  On every file the test is reached with all of the input scheduled and nothing outstanding, one block
after the other being read, written and its write reaped (`AtRest.settles`).
-/
namespace Cc
namespace Ch14Async

open CLib

variable {inp : Input}

/-- At the exit test, with all of the input scheduled and nothing outstanding. -/
structure AtExit (inp : Input) (s : State) : Prop where
  test : ∃ i, s.pc = .test i
  numop : s.numop = 0
  off : inp.size ≤ s.off

/-- Of the operations that succeed in full, in whatever order they end: the exit test goes on to `aio_fsync`. -/
def Leaves (inp : Input) (n : Int) : Prop :=
  ∀ acts s calls, run (restrict (inFull inp) (step inp)) acts (init n) = some s → AtExit inp s →
    mainStep inp s calls = some { s with pc := .fsync }

/-! ## The test goes back to the scan -/

theorem AtExit.scans {s : State} (h : AtExit inp s) (calls : Calls) :
    mainStep inp s calls = some { s with pc := .scan 0 } := by
  obtain ⟨i, hpc⟩ := h.test
  unfold mainStep
  rw [hpc]
  simp only [h.numop, if_true, ge_iff_le, h.off]

theorem next_ne_fsync (i : Nat) : next i ≠ .fsync := by
  unfold next
  split
  · exact Pc.noConfusion
  · exact Pc.noConfusion

theorem scanUnused_ne (s : State) (i : Nat) (calls : Calls) : (scanUnused inp s i calls).pc ≠ .fsync := by
  fun_cases scanUnused inp s i calls <;> exact Pc.noConfusion

theorem scanRead_ne (s : State) (i : Nat) (calls : Calls) : (scanRead s i calls).pc ≠ .fsync := by
  fun_cases scanRead s i calls <;> first
  | exact Pc.noConfusion
  | exact next_ne_fsync i

theorem scanWrite_ne (s : State) (i : Nat) (calls : Calls) : (scanWrite s i calls).pc ≠ .fsync := by
  fun_cases scanWrite s i calls <;> first
  | exact Pc.noConfusion
  | exact next_ne_fsync i

theorem mainStep_ne {s s' : State} {calls : Calls} (hpc : s.pc ≠ .fsync) (h : mainStep inp s calls = some s') :
    s'.pc ≠ .fsync := by
  unfold mainStep at h
  cases hs : s.pc with
  | scan i =>
    rw [hs] at h
    dsimp only at h
    split at h
    · cases h
      exact scanUnused_ne s i calls
    · cases h
      exact scanRead_ne s i calls
    · cases h
      exact scanWrite_ne s i calls
  | test i =>
    rw [hs] at h
    dsimp only at h
    split at h
    · split at h
      · cases h
        exact Pc.noConfusion
      · cases h
        exact next_ne_fsync i
    · cases h
      exact Pc.noConfusion
  | suspend i =>
    rw [hs] at h
    dsimp only at h
    split at h
    · split at h
      · cases h
        exact next_ne_fsync i
      · cases h
    · cases h
      exact Pc.noConfusion
  | fsync => exact absurd hs hpc
  | ended e =>
    rw [hs] at h
    cases h

theorem completeStep_pc {s s' : State} {i count : Nat} {err : Int} (h : completeStep inp s i err count = some s') :
    s'.pc = s.pc := by
  unfold completeStep at h
  dsimp only at h
  split at h
  · split at h
    · cases h
      rfl
    · split at h
      · cases h
        rfl
      · cases h
  · split at h
    · cases h
      rfl
    · split at h
      · cases h
        rfl
      · cases h
  · cases h

/-- **No run comes to `aio_fsync`.** -/
theorem never_fsync {n : Int} {acts : List Act} {s : State} (h : run (step inp) acts (init n) = some s) :
    s.pc ≠ .fsync := by
  refine run_inv (fun s => s.pc ≠ .fsync) (fun s a s' hpc hs => ?_) acts (init n) s Pc.noConfusion h
  cases a with
  | main calls => exact mainStep_ne hpc hs
  | complete i err count =>
    simp only [step] at hs
    split at hs
    · rw [completeStep_pc hs]
      exact hpc
    · cases hs

/-! ## One block after the other -/

/-- At the exit test, with each buffer unused or being read. -/
structure AtRest (inp : Input) (s : State) : Prop where
  inv : Inv inp s ∧ InScan s
  test : ∃ x, x < NBUF ∧ s.pc = .test x
  idle : ∀ j, j < NBUF → (s.bufs j).op = .unused ∨ (s.bufs j).op = .readPending ∧ (s.bufs j).io = .reading

/-- **A block that is being read** is reaped, written, and its write reaped, before any other. -/
theorem AtRest.block {s : State} (h : AtRest inp s) {t : Nat} (ht : t < NBUF) (hop : (s.bufs t).op = .readPending)
    (hio : (s.bufs t).io = .reading) : ∃ s', Goes inp s s' ∧ AtRest inp s' ∧ left inp s' < left inp s := by
  obtain ⟨x, hx, hpc⟩ := h.test
  obtain ⟨s₁, hc₁⟩ := comes h.inv hpc hx ht (.inl hio) (fun j hj _ => (h.idle j hj).imp_right (fun hr => .inl hr.2))
  have hinv₁ := Goes.inv hc₁.go h.inv
  have hidle₁ : ∀ j, j < NBUF → j ≠ t →
      (s₁.bufs j).op = .unused ∨ (s₁.bufs j).op = .readPending ∧ (s₁.bufs j).io = .reading := fun j hj hne => by
    rcases hc₁.others j hne with he | hr
    · rw [he]
      exact h.idle j hj
    · exact .inr hr
  have hop₁ : (s₁.bufs t).op = .readPending := by rw [hc₁.op, hop]
  obtain ⟨s₂, b, hgo₂, hpc₂, hn₂, hacts₂, hb, hio₂⟩ := reap hinv₁.1 hc₁.pc hc₁.ended hop₁
  have hinv₂ := Goes.inv hgo₂ hinv₁
  obtain ⟨s₃, hc₃⟩ := comes hinv₂ hpc₂ ht ht (.inr (by rw [hacts₂.self]; exact hio₂)) (fun j hj hne => by
    rw [hacts₂.other hne]
    exact (hidle₁ j hj hne).imp_right (fun hr => .inl hr.2))
  have hinv₃ := Goes.inv hc₃.go hinv₂
  have hop₃ : (s₃.bufs t).op = .writePending := by rw [hc₃.op, hacts₂.self, hb]
  -- the read reaped last is that of the block just written
  have hn₃ : s₃.n = blockLen inp (s₃.bufs t).aioOffset := by
    rw [hc₃.n, hn₂, hc₃.offset, hacts₂.self, hacts₂.offset]
  obtain ⟨s₄, b₄, hgo₄, hpc₄, hacts₄, hb₄⟩ := release hinv₃.1 hc₃.pc hc₃.ended hop₃ hn₃
  have hgo := ((hc₁.go.trans hgo₂).trans hc₃.go).trans hgo₄
  refine ⟨s₄, hgo, ⟨Goes.inv hgo h.inv, ⟨t, ht, hpc₄⟩, fun j hj => ?_⟩, ?_⟩
  · by_cases hjt : j = t
    · subst hjt
      rw [hacts₄.self]
      exact .inl hb₄
    · rw [hacts₄.other hjt]
      rcases hc₃.others j hjt with he | hr
      · rw [he, hacts₂.other hjt]
        exact hidle₁ j hj hjt
      · exact .inr hr
  · have hl₁ := hc₁.left
    have hl₂ : left inp s₂ + reads (s₁.bufs t) = left inp s₁ + reads b := hacts₂.left ht
    have hl₃ := hc₃.left
    have hl₄ : left inp s₄ + reads (s₃.bufs t) = left inp s₃ + reads b₄ := hacts₄.left ht
    simp only [reads, hop₁, hb, hop₃, hb₄, if_true, reduceCtorEq, if_false] at hl₂ hl₄
    omega

/-- The scan at an unused buffer, which takes a block if there is one left. -/
theorem rest_of_scan {s : State} {i : Nat} (h : Inv inp s ∧ InScan s) (hpc : s.pc = .scan i) (hi : i < NBUF)
    (hunused : ∀ j, j < NBUF → (s.bufs j).op = .unused) :
    ∃ s', Goes inp s s' ∧ AtRest inp s' ∧ (s.off < inp.size → left inp s' < left inp s) := by
  have hmain : mainStep inp s .all = some (scanUnused inp s i .all) := scan_unused hpc (hunused i hi)
  have hgo := main_go hmain
  refine ⟨_, hgo, ⟨Goes.inv hgo h, ⟨i, hi, ?_⟩, fun j hj => ?_⟩, fun hlt => ?_⟩
  · unfold scanUnused
    by_cases hlt : s.off < inp.size
    · simp only [if_pos hlt, Calls.all, if_true]
    · rw [if_neg hlt]
  · unfold scanUnused
    by_cases hlt : s.off < inp.size
    · simp only [if_pos hlt, Calls.all, if_true]
      by_cases hji : j = i
      · subst hji
        rw [Function.update_self]
        exact .inr ⟨rfl, rfl⟩
      · rw [Function.update_of_ne hji]
        exact .inl (hunused j hj)
    · rw [if_neg hlt]
      exact .inl (hunused j hj)
  · have hcount : (List.range NBUF).countP (fun j => ((scanUnused inp s i .all).bufs j).op == .readPending) ≤ NBUF := by
      simpa using List.countP_le_length (p := fun j => ((scanUnused inp s i .all).bufs j).op == .readPending)
        (l := List.range NBUF)
    have hoff : (scanUnused inp s i .all).off = s.off + BSZ := by
      unfold scanUnused
      simp only [if_pos hlt, Calls.all, if_true]
    unfold left
    rw [hoff]
    unfold NBUF BSZ at *
    omega

/-- **On every file the exit test comes**, by induction on what is left to do. -/
theorem AtRest.settles (m : Nat) : ∀ {s : State}, left inp s = m → AtRest inp s →
    ∃ s', Goes inp s s' ∧ AtExit inp s' := by
  induction m using Nat.strong_induction_on with
  | _ m ih =>
    intro s hm h
    have hgo_on : (∃ s', Goes inp s s' ∧ AtRest inp s' ∧ left inp s' < left inp s) →
        ∃ s', Goes inp s s' ∧ AtExit inp s' := by
      rintro ⟨s₁, hgo₁, h₁, hlt⟩
      obtain ⟨s', hgo, hexit⟩ := ih (left inp s₁) (hm ▸ hlt) rfl h₁
      exact ⟨s', hgo₁.trans hgo, hexit⟩
    by_cases hread : ∃ t, t < NBUF ∧ (s.bufs t).op = .readPending ∧ (s.bufs t).io = .reading
    · obtain ⟨t, ht, hop, hio⟩ := hread
      exact hgo_on (h.block ht hop hio)
    · obtain ⟨x, hx, hpc⟩ := h.test
      have hunused : ∀ j, j < NBUF → (s.bufs j).op = .unused := fun j hj =>
        (h.idle j hj).resolve_right (fun hr => hread ⟨j, hj, hr⟩)
      have hnum : s.numop = 0 := by
        rw [h.inv.1.numop, List.countP_eq_zero.2 (fun j hj => by rw [hunused j (List.mem_range.1 hj)]; decide)]
        rfl
      by_cases hoff : inp.size ≤ s.off
      · exact ⟨s, .refl s, ⟨x, hpc⟩, hnum, hoff⟩
      · -- nothing is outstanding, and the next buffer takes a block
        have htest : mainStep inp s .all = some { s with pc := next x } := by
          unfold mainStep
          rw [hpc]
          simp only [hnum, if_true, ge_iff_le, if_neg hoff]
        have hgo := main_go htest
        obtain ⟨s', hgo', h', hlt⟩ := rest_of_scan (Goes.inv hgo h.inv) (next_eq hx) (Nat.mod_lt _ (by decide)) hunused
        exact hgo_on ⟨s', hgo.trans hgo', h', hlt (Nat.lt_of_not_le hoff)⟩

/-- **`ch14_async` never leaves its loop**: on every file its exit test is reached and scans again, and nothing goes on
to `aio_fsync`. -/
theorem never_leaves (inp : Input) (n : Int) :
    ¬ Leaves inp n ∧ ∀ acts s, run (step inp) acts (init n) = some s → s.pc ≠ .fsync := by
  refine ⟨fun hleaves => ?_, fun acts s h => never_fsync h⟩
  obtain ⟨s, hgo, hrest, -⟩ := rest_of_scan ⟨inv_init inp n, show 0 < NBUF by decide⟩ rfl (by decide)
    (fun _ _ => rfl)
  obtain ⟨s', hgo', hexit⟩ := hrest.settles _ rfl
  obtain ⟨acts, hrun⟩ := hgo.trans hgo'
  cases (hexit.scans .all).symm.trans (hleaves acts s' .all hrun hexit)

/-- **The empty file**: the first turn comes to the exit test, and the next one starts where the first did. -/
theorem empty_scans :
    ∃ s, run (step ⟨0, fun _ => 0⟩) [.main .all] (init 0) = some s ∧ AtExit ⟨0, fun _ => 0⟩ s ∧
      mainStep ⟨0, fun _ => 0⟩ s .all = some (init 0) ∧ ¬ Leaves ⟨0, fun _ => 0⟩ 0 := by
  refine ⟨_, rfl, ⟨⟨0, rfl⟩, rfl, Nat.le_refl 0⟩, rfl, fun hleaves => ?_⟩
  have hfsync := hleaves [.main .all] _ .all rfl ⟨⟨0, rfl⟩, rfl, Nat.le_refl 0⟩
  cases hfsync

end Ch14Async
end Cc
