import CCplusplus.TracerouteUdp
/-!
# TracerouteUdpTimeout — how long a probe is waited for

`tv` is set to five seconds before the loops, and `select` overwrites it with the time not slept.  The time left only
goes down, so a probe is waited for with the full timeout exactly if no probe before it was waited for at all
(`select_timeout_iff`): the five seconds are those of the whole trace.
-/
namespace Cc
namespace TracerouteUdp

open CLib

/-- What `select` leaves in the timeout is a normalised time. -/
def normalised (s : State) : Act → Bool
  | .main _ _ left => decide (s.pc ≠ .select) || (decide (0 ≤ left.tvUsec) && decide (left.tvUsec < 1000000))
  | _ => true

/-- `select` returns at once. -/
def unwaited (s : State) : Act → Bool
  | .main _ _ left => decide (s.pc ≠ .select) || decide (left = ⟨5, 0⟩)
  | _ => true

/-- The timeout is one that five seconds have come down to. -/
structure Remaining (s : State) : Prop where
  nonneg : 0 ≤ s.tv.tvUsec
  lt : s.tv.tvUsec < 1000000
  le : usec s.tv ≤ 5000000

theorem remaining_init (dst src : Nat) : Remaining (init dst src) where
  nonneg := Int.le_refl 0
  lt := Int.ofNat_lt.2 (by decide)
  le := Int.le_refl 5000000

theorem Remaining.full_iff {s : State} (h : Remaining s) : s.tv = ⟨5, 0⟩ ↔ 5000000 ≤ usec s.tv := by
  obtain ⟨h0, h1, hle⟩ := h
  unfold usec at hle ⊢
  constructor
  · intro htv
    rw [htv]
    decide
  · intro hu
    cases htv : s.tv with
    | mk sec us =>
      rw [htv] at h0 h1 hle hu
      simp only at h0 h1 hle hu
      rw [Timeval.mk.injEq]
      omega

/-- `select` writes what is left of the timeout, and no other statement writes it. -/
theorem mainStep_tv {ident : UInt16} {s s' : State} {clock left : Timeval} {ret : Int}
    (h : mainStep ident s clock ret left = some s') :
    (s.pc ≠ .select ∧ s'.tv = s.tv) ∨ (s.pc = .select ∧ s'.tv = left ∧ usec left ≤ usec s.tv) := by
  have hselect := mainStep_select h
  unfold mainStep at h
  cases hpc : s.pc with
  | select =>
    obtain ⟨hle, _, _, -, rfl⟩ := hselect hpc
    exact .inr ⟨rfl, rfl, hle⟩
  | outer | inner | recvfrom | exitTest =>
    rw [hpc] at h
    simp only at h
    refine .inl ⟨nofun, ?_⟩
    repeat' split at h
    all_goals first
      | (cases h; rfl)
      | cases h
  | send =>
    rw [hpc] at h
    cases h
    exact .inl ⟨nofun, rfl⟩
  | judge len =>
    rw [hpc] at h
    cases h
    refine .inl ⟨nofun, ?_⟩
    unfold judge
    simp only
    split
    · rfl
    · rfl
  | ended status =>
    rw [hpc] at h
    cases h

/-- What a step does to the timeout. -/
theorem step_tv {ident : UInt16} {s s' : State} {a : Act} (h : step ident s a = some s') :
    (s'.tv = s.tv ∧ unwaited s a = true) ∨
    (∃ clock ret left, a = .main clock ret left ∧ s.pc = .select ∧ s'.tv = left ∧ usec left ≤ usec s.tv) := by
  cases a with
  | main clock ret left =>
    rcases mainStep_tv h with ⟨hpc, htv⟩ | ⟨hpc, htv, hle⟩
    · exact .inl ⟨htv, by simp [unwaited, hpc]⟩
    · exact .inr ⟨clock, ret, left, rfl, hpc, htv, hle⟩
  | answer k src bytes =>
    simp only [step] at h
    split at h
    · cases h
      exact .inl ⟨rfl, rfl⟩
    · cases h
  | other src bytes =>
    cases h
    exact .inl ⟨rfl, rfl⟩

theorem remaining_step {ident : UInt16} {s s' : State} {a : Act} (h : Remaining s) (hok : normalised s a = true)
    (hs : step ident s a = some s') : Remaining s' := by
  rcases step_tv hs with ⟨htv, -⟩ | ⟨clock, ret, left, rfl, hpc, htv, hle⟩
  · exact ⟨htv ▸ h.nonneg, htv ▸ h.lt, htv ▸ h.le⟩
  · obtain ⟨h0, h1⟩ : 0 ≤ left.tvUsec ∧ left.tvUsec < 1000000 := by simpa [normalised, hpc] using hok
    exact ⟨htv ▸ h0, htv ▸ h1, htv ▸ Int.le_trans hle h.le⟩

/-- **The timeout stays full over a step exactly if the step does not wait.** -/
theorem full_step {ident : UInt16} {s s' : State} {a : Act} (h : Remaining s) (hfull : 5000000 ≤ usec s.tv)
    (hok : normalised s a = true) (hs : step ident s a = some s') : 5000000 ≤ usec s'.tv ↔ unwaited s a = true := by
  have h' := remaining_step h hok hs
  rcases step_tv hs with ⟨htv, hu⟩ | ⟨clock, ret, left, rfl, hpc, htv, -⟩
  · rw [htv]
    exact ⟨fun _ => hu, fun _ => hfull⟩
  · rw [← h'.full_iff, htv]
    simp [unwaited, hpc]

theorem short_step {ident : UInt16} {s s' : State} {a : Act} (h : ¬ 5000000 ≤ usec s.tv)
    (hs : step ident s a = some s') : ¬ 5000000 ≤ usec s'.tv := by
  rcases step_tv hs with ⟨htv, -⟩ | ⟨clock, ret, left, -, -, htv, hle⟩
  · rwa [htv]
  · rw [htv]
    exact fun hfull => h (Int.le_trans hfull hle)

/-- **In every state reached, a call of `select` among them, the timeout is five seconds exactly if no call of `select`
before it in the run has waited.** -/
theorem select_timeout_iff (ident : UInt16) (dst src : Nat) (acts : List Act) (s : State)
    (h : run (restrict normalised (step ident)) acts (init dst src) = some s) :
    s.tv = ⟨5, 0⟩ ↔
      run (restrict (fun s a => normalised s a && unwaited s a) (step ident)) acts (init dst src) = some s := by
  have hrem := restrict_inv Remaining (fun _ _ _ => remaining_step) acts _ s (remaining_init dst src) h
  rw [hrem.full_iff]
  exact restrict_and_iff (fun _ _ _ => remaining_step) (fun _ _ _ => full_step) (fun _ _ _ => short_step) acts _ s
    (remaining_init dst src) (Int.le_refl 5000000) h

/-- The first probe, the time-exceeded message of the first router, with `left` of the timeout, and the second probe. -/
def secondProbe (left : Timeval) : List Act :=
  [.main ⟨0, 0⟩ 0 ⟨0, 0⟩, .main ⟨0, 0⟩ 0 ⟨0, 0⟩, .main ⟨0, 0⟩ 48 ⟨0, 0⟩,
    .answer 0 1 ([0x45, 0, 0, 28, 0, 0, 0, 0, 64, 1, 0, 0, 10, 0, 0, 1, 10, 0, 0, 9] ++ [11, 0, 0, 0, 0, 0, 0, 0]),
    .main ⟨0, 0⟩ 1 left, .main ⟨1, 0⟩ 28 ⟨0, 0⟩, .main ⟨1, 0⟩ 0 ⟨0, 0⟩, .main ⟨1, 0⟩ 0 ⟨0, 0⟩, .main ⟨1, 0⟩ 0 ⟨0, 0⟩,
    .main ⟨1, 0⟩ 48 ⟨0, 0⟩]

theorem select_timeout_atOnce : ∃ s, run (restrict normalised (step 0x8007)) (secondProbe ⟨5, 0⟩) (init 99 0) = some s ∧
    s.pc = .select ∧ (s.tv = ⟨5, 0⟩ ↔
      run (restrict (fun s a => normalised s a && unwaited s a) (step 0x8007)) (secondProbe ⟨5, 0⟩) (init 99 0) =
        some s) :=
  ⟨_, rfl, rfl, select_timeout_iff 0x8007 99 0 (secondProbe ⟨5, 0⟩) _ rfl⟩

/-- **The second probe is waited for one second less** where the first was answered after a second. -/
theorem select_timeout_less : ∃ s, run (restrict normalised (step 0x8007)) (secondProbe ⟨4, 0⟩) (init 99 0) = some s ∧
    s.pc = .select ∧ s.tv ≠ ⟨5, 0⟩ := ⟨_, rfl, rfl, by decide⟩

end TracerouteUdp
end Cc
