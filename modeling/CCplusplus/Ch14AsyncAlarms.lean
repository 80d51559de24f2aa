import CCplusplus.Ch14AsyncRuns
/-!
# Ch14AsyncAlarms — when `ch14_async` gives up on operations that succeed

The WRITE_PENDING branch compares the length of the block written with `n`, the length of the block whose read was
reaped last, whichever buffer holds it.  Where every operation succeeds in full this is the only test that can fail, and
it fails exactly when the two blocks differ in length (`run_quiet_iff`).
-/
namespace Cc
namespace Ch14Async

open CLib

variable {inp : Input}

/-- `n` is the length of the block whose read was reaped last. -/
structure Reaped (inp : Input) (s : State) : Prop where
  length : ∀ offset, s.reaped.head? = some offset → s.n = blockLen inp offset
  block : ∀ offset ∈ s.reaped, offset % BSZ = 0 ∧ offset < inp.size
  some : ∀ i, i < NBUF → (s.bufs i).op = .writePending → s.reaped ≠ []

theorem Reaped.of_same {s s' : State} (h : Reaped inp s) (hr : s'.reaped = s.reaped) (hn : s'.n = s.n)
    (hb : ∀ i, i < NBUF → (s'.bufs i).op = .writePending → (s.bufs i).op = .writePending) : Reaped inp s' where
  length := fun offset ho => by
    rw [hn]
    exact h.length offset (hr ▸ ho)
  block := fun offset ho => h.block offset (hr ▸ ho)
  some := fun i hi hop => by
    rw [hr]
    exact h.some i hi (hb i hi hop)

/-- Whether `main` is about to test a write that has ended. -/
def reapsWrite (s : State) (i : Nat) : Bool :=
  decide (s.pc = .scan i) && decide ((s.bufs i).op = .writePending) &&
  match (s.bufs i).io with
  | .done _ _ => true
  | _ => false

theorem op_of_reapsWrite {s : State} {i : Nat} (h : reapsWrite s i = true) : (s.bufs i).op = .writePending := by
  unfold reapsWrite at h
  simp only [Bool.and_eq_true, decide_eq_true_eq] at h
  exact h.1.2

/-- The program has not given up. -/
def Quiet (s : State) : Prop := ∀ e, s.pc = .ended e → e = .exit 0

theorem quiet_next (s : State) (i : Nat) : Quiet { s with pc := next i } := by
  intro e he
  unfold next at he
  simp only at he
  split at he
  · cases he
  · cases he

/-- A state that is quiet whether or not a write is tested. -/
theorem quiet_iff {s s' : State} {i : Nat} {c : Prop} (hq : Quiet s') (h : reapsWrite s i = false ∨ c) :
    Quiet s' ↔ (reapsWrite s i = true → c) := by
  rcases h with hw | hc
  · exact ⟨fun _ ht => absurd (hw.symm.trans ht) Bool.false_ne_true, fun _ => hq⟩
  · exact ⟨fun _ _ => hc, fun _ => hq⟩

/-- At the test of a write, the block whose read was reaped last is as long as the one written. -/
def sameLength (inp : Input) (s : State) : Act → Bool
  | .main _ =>
    match s.pc with
    | .scan i =>
      !reapsWrite s i || s.reaped.head?.any (fun offset => blockLen inp offset == blockLen inp (s.bufs i).aioOffset)
    | _ => true
  | .complete _ _ _ => true

theorem sameLength_of_ne {s : State} (hpc : ∀ i, s.pc ≠ .scan i) (calls : Calls) :
    sameLength inp s (.main calls) = true := by
  cases hp : s.pc with
  | scan i => exact absurd hp (hpc i)
  | test i | suspend i | fsync | ended e => simp only [sameLength, hp]

theorem sameLength_iff {s : State} {i : Nat} (h : Reaped inp s) (hi : i < NBUF) (hpc : s.pc = .scan i)
    (calls : Calls) : sameLength inp s (.main calls) = true ↔
      (reapsWrite s i = true → s.n = blockLen inp (s.bufs i).aioOffset) := by
  simp only [sameLength, hpc]
  cases hw : reapsWrite s i with
  | false => simp
  | true =>
    obtain ⟨offset, l, hl⟩ := List.exists_cons_of_ne_nil (h.some i hi (op_of_reapsWrite hw))
    have hn := h.length offset (by rw [hl]; rfl)
    rw [hl, hn]
    simp only [List.head?_cons, Option.any_some, Bool.not_true, Bool.false_or, beq_iff_eq, forall_const]
    exact Int.natCast_inj.symm

/-- **A turn of the `switch`**: the one alarm is at a write that has ended while `n` is another length. -/
theorem scan_alarm {s s' : State} {i : Nat} (h : Inv inp s) (hr : Reaped inp s) (hi : i < NBUF)
    (hpc : s.pc = .scan i) (hs : mainStep inp s .all = some s') :
    Reaped inp s' ∧ (Quiet s' ↔ (reapsWrite s i = true → s.n = blockLen inp (s.bufs i).aioOffset)) := by
  cases hop : (s.bufs i).op with
  | unused =>
    have hw : reapsWrite s i = false := by simp [reapsWrite, hop]
    rw [scan_unused hpc hop] at hs
    cases hs
    unfold scanUnused
    by_cases hlt : s.off < inp.size
    · simp only [if_pos hlt, Calls.all, if_true]
      exact ⟨hr.of_same rfl rfl (fun j _ => op_of_update (fun hb => (by cases hb))),
        quiet_iff (fun e he => (by cases he)) (.inl hw)⟩
    · rw [if_neg hlt]
      exact ⟨hr.of_same rfl rfl (fun _ _ h => h), quiet_iff (fun e he => (by cases he)) (.inl hw)⟩
  | readPending =>
    have hw : reapsWrite s i = false := by simp [reapsWrite, hop]
    rw [scan_read hpc hop] at hs
    cases hs
    rcases scanRead_cases h hi hop with ⟨-, he⟩ | ⟨-, he⟩
    · rw [he]
      exact ⟨hr.of_same rfl rfl (fun _ _ h => h), quiet_iff (quiet_next s i) (.inl hw)⟩
    · rw [he]
      refine ⟨⟨fun offset ho => ?_, fun offset ho => ?_, fun _ _ _ => List.cons_ne_nil _ _⟩,
        quiet_iff (fun e he => (by cases he)) (.inl hw)⟩
      · cases ho
        rfl
      · rcases List.mem_cons.1 ho with rfl | ho
        · have hb := h.held i _ ⟨hi, by rw [hop]; decide, rfl⟩
          exact ⟨hb.1, hb.2.2⟩
        · exact hr.block offset ho
  | writePending =>
    rw [scan_write hpc hop] at hs
    cases hs
    rcases scanWrite_cases h hi hop with ⟨hio, he⟩ | ⟨hio, -, he⟩
    · have hw : reapsWrite s i = false := by simp [reapsWrite, hio]
      rw [he]
      exact ⟨hr.of_same rfl rfl (fun _ _ h => h), quiet_iff (quiet_next s i) (.inl hw)⟩
    · rw [he]
      by_cases hn : s.n = blockLen inp (s.bufs i).aioOffset
      · rw [if_neg (fun hne => hne hn)]
        exact ⟨hr.of_same rfl rfl (fun j _ => op_of_update (fun hb => (by cases hb))),
          quiet_iff (fun e he => (by cases he)) (.inr hn)⟩
      · -- the alarm
        rw [if_pos hn]
        refine ⟨hr.of_same rfl rfl (fun _ _ h => h), fun hq => ?_, fun himp => absurd (himp ?_) hn⟩
        · cases hq _ rfl
        · simp [reapsWrite, hpc, hop, hio]

/-- **Between the turns** nothing gives up. -/
theorem rest_quiet {s s' : State} (hpc : ∀ i, s.pc ≠ .scan i)
    (hs : mainStep inp s .all = some s') :
    Quiet s' ∧ s'.n = s.n ∧ s'.reaped = s.reaped ∧ s'.bufs = s.bufs := by
  unfold mainStep at hs
  cases hp : s.pc with
  | scan i => exact absurd hp (hpc i)
  | test i =>
    rw [hp] at hs
    dsimp only at hs
    split at hs
    · split at hs
      · cases hs
        exact ⟨fun e he => (by cases he), rfl, rfl, rfl⟩
      · cases hs
        exact ⟨quiet_next s i, rfl, rfl, rfl⟩
    · cases hs
      exact ⟨fun e he => (by cases he), rfl, rfl, rfl⟩
  | suspend i =>
    rw [hp] at hs
    simp only [Calls.all, if_true] at hs
    split at hs
    · cases hs
      exact ⟨quiet_next s i, rfl, rfl, rfl⟩
    · cases hs
  | fsync =>
    rw [hp] at hs
    cases hs
    exact ⟨fun e he => (by cases he; rfl), rfl, rfl, rfl⟩
  | ended e =>
    rw [hp] at hs
    cases hs

/-- What the steps keep. -/
def Kept (inp : Input) (s : State) : Prop := (Inv inp s ∧ InScan s) ∧ Reaped inp s

/-- **Every step in which the operations succeed in full** gives up exactly when the lengths differ. -/
theorem step_alarm {s s' : State} {a : Act} (h : Kept inp s)
    (hok : inFull inp s a = true) (hs : step inp s a = some s') :
    Reaped inp s' ∧ (Quiet s → (Quiet s' ↔ sameLength inp s a = true)) := by
  obtain ⟨⟨hinv, hscan⟩, hr⟩ := h
  cases a with
  | complete i err count =>
    simp only [step] at hs
    split at hs
    · obtain ⟨hpc, hn, hre, hop⟩ := complete_frame hs
      refine ⟨hr.of_same hre hn (fun j _ => hop j), fun hq => ⟨fun _ => rfl, fun _ => ?_⟩⟩
      unfold Quiet
      rw [hpc]
      exact hq
    · cases hs
  | main calls =>
    obtain rfl : calls = .all := by simpa [inFull] using hok
    simp only [step] at hs
    by_cases hpc : ∃ i, s.pc = .scan i
    · obtain ⟨i, hpc⟩ := hpc
      unfold InScan at hscan
      rw [hpc] at hscan
      obtain ⟨hr', hiff⟩ := scan_alarm hinv hr hscan hpc hs
      exact ⟨hr', fun _ => hiff.trans (sameLength_iff hr hscan hpc .all).symm⟩
    · have hpc : ∀ i, s.pc ≠ .scan i := fun i hi => hpc ⟨i, hi⟩
      obtain ⟨hq, hn, hre, hb⟩ := rest_quiet hpc hs
      exact ⟨hr.of_same hre hn (fun j _ => by rw [hb]; exact fun h => h),
        fun _ => ⟨fun _ => sameLength_of_ne hpc .all, fun _ => hq⟩⟩

theorem reaped_init (inp : Input) (n : Int) : Reaped inp (init n) where
  length := fun _ ho => (by cases ho)
  block := fun _ ho => (by cases ho)
  some := fun _ _ ho => (by cases ho)

theorem kept_init (inp : Input) (n : Int) : Kept inp (init n) :=
  ⟨⟨inv_init inp n, show 0 < NBUF by decide⟩, reaped_init inp n⟩

theorem kept_step {s s' : State} {a : Act} (h : Kept inp s) (hok : inFull inp s a = true)
    (hs : step inp s a = some s') : Kept inp s' :=
  ⟨step_inv h.1 hok hs, (step_alarm h hok hs).1⟩

/-- `err_quit`, `err_sys` and `err_exit` do not return. -/
theorem not_quiet_step {s s' : State} {a : Act} (h : ¬ Quiet s) (hs : step inp s a = some s') :
    ¬ Quiet s' := by
  obtain ⟨e, he, hne⟩ : ∃ e, s.pc = .ended e ∧ e ≠ .exit 0 := by
    unfold Quiet at h
    push Not at h
    exact h
  cases a with
  | complete i err count =>
    simp only [step] at hs
    split at hs
    · obtain ⟨hpc, -⟩ := complete_frame hs
      exact fun hq => hne (hq e (hpc.trans he))
    · cases hs
  | main calls =>
    simp only [step, mainStep, he] at hs
    cases hs

/-- The blocks of such a file have one length. -/
theorem blockLen_even (h : inp.size ≤ BSZ ∨ inp.size % BSZ = 0) {x y : Nat}
    (hx : x % BSZ = 0 ∧ x < inp.size) (hy : y % BSZ = 0 ∧ y < inp.size) : blockLen inp x = blockLen inp y := by
  unfold blockLen BSZ at *
  omega

theorem sameLength_even (h : inp.size ≤ BSZ ∨ inp.size % BSZ = 0) {s : State} (hs : Kept inp s)
    (a : Act) : sameLength inp s a = true := by
  obtain ⟨⟨hinv, hscan⟩, hr⟩ := hs
  cases a with
  | complete i err count => rfl
  | main calls =>
    by_cases hpc : ∃ i, s.pc = .scan i
    · obtain ⟨i, hpc⟩ := hpc
      unfold InScan at hscan
      rw [hpc] at hscan
      rw [sameLength_iff hr hscan hpc]
      intro hw
      have hop := op_of_reapsWrite hw
      obtain ⟨offset, l, hl⟩ := List.exists_cons_of_ne_nil (hr.some i hscan hop)
      rw [hr.length offset (by rw [hl]; rfl)]
      have hblock := hinv.held i _ ⟨hscan, by rw [hop]; decide, rfl⟩
      rw [blockLen_even h (hr.block offset (by rw [hl]; exact List.mem_cons_self)) ⟨hblock.1, hblock.2.2⟩]
    · exact sameLength_of_ne (fun i hi => hpc ⟨i, hi⟩) calls

theorem quiet_init (n : Int) : Quiet (init n) := fun e he => (by cases he)

/-- **A run is quiet to its end exactly when its tests of writes find one length.** -/
theorem run_quiet_iff {n : Int} {acts : List Act} {s : State}
    (h : run (restrict (inFull inp) (step inp)) acts (init n) = some s) :
    Quiet s ↔ run (restrict (fun s a => inFull inp s a && sameLength inp s a) (step inp)) acts (init n) = some s :=
  restrict_and_iff (fun _ _ _ => kept_step) (fun _ _ _ hi hq hok hs => (step_alarm hi hok hs).2 hq)
    (fun _ _ _ => not_quiet_step) acts (init n) s (kept_init inp n) (quiet_init n) h

/-- Where all blocks have one length. -/
theorem run_quiet_of_even (heven : inp.size ≤ BSZ ∨ inp.size % BSZ = 0) {n : Int} {acts : List Act} {s : State}
    (h : run (restrict (inFull inp) (step inp)) acts (init n) = some s) : Quiet s := by
  have hq := restrict_inv (fun s => Kept inp s ∧ Quiet s)
    (fun s a s' hi hok hs =>
      ⟨kept_step hi.1 hok hs, ((step_alarm hi.1 hok hs).2 hi.2).2 (sameLength_even heven hi.1 a)⟩) acts
    (init n) s ⟨kept_init inp n, quiet_init n⟩ h
  exact hq.2

end Ch14Async
end Cc
