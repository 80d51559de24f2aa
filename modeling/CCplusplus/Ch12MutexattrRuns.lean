import CCplusplus.Ch12Mutexattr
/-!
# Ch12MutexattrRuns — who calls the function, when, and who frees the block

Whatever fails, the function is called once and the block is freed once, by the helper if it was started and else by the
caller (`inv_step`, `finishes`).  The helper sleeps whole seconds, so it calls in time exactly if they reach `when`
(`timeout_meets_iff`).
-/
namespace Cc
namespace Ch12Mutexattr

open CLib

variable {inp : Input} {s s' : State}

def started (inp : Input) : Bool :=
  later inp.when' inp.now && inp.malloc && decide (inp.attrInit = 0) && decide (inp.setdetachstate = 0) &&
    decide (inp.create = 0)

def info (inp : Input) : ToInfo := ⟨inp.func, inp.arg, toWait inp.when' inp.now⟩

/-- The earliest time at which the helper's `sleep` can end. -/
def wakes (inp : Input) : Int := inp.now.total + toUnsigned (toWait inp.when' inp.now).tvSec * SECTONSEC

/-- The whole seconds from `now` on, one less where `timeout` borrows, reach `when`. -/
def reaches (when' now : Timespec) : Bool :=
  decide (when'.total ≤ now.total +
    toUnsigned (when'.tvSec - now.tvSec - if when'.tvNsec ≥ now.tvSec then 0 else 1) * SECTONSEC)

/-- Both threads are done: the function has been called once, with its argument, and the block is freed, once, if there
was one. -/
structure Finished (inp : Input) (s : State) : Prop where
  caller : s.caller = .returned
  helper : s.helper = .none ∨ s.helper = .returned
  calls : ∃ by' time, s.calls = [⟨inp.func, inp.arg, by', time⟩]
  frees : s.tip = .none ∧ s.frees = 0 ∨ s.tip = .freed ∧ s.frees = 1
  fault : s.fault = false

/-- What a call of `timeout` is for. -/
structure Meets (inp : Input) : Prop where
  safe : ∀ as s, run (step inp) as (init inp) = some s → s.fault = false ∧ s.calls.length ≤ 1 ∧ s.frees ≤ 1
  once : Inevitably (step inp) (Finished inp) (init inp)
  onTime : ∀ as s, run (step inp) as (init inp) = some s →
    ∀ c ∈ s.calls, c.by' = .helper → inp.when'.total ≤ c.time

/-! ## The invariant -/

/-- The block, how often it has been freed, and no call yet. -/
def Uncalled (s : State) (tip : Tip) (frees : Nat) : Prop := s.tip = tip ∧ s.frees = frees ∧ s.calls = []

def Called (inp : Input) (s : State) (by' : Thread) (time : Int) : Prop :=
  ∃ t, time ≤ t ∧ s.calls = [⟨inp.func, inp.arg, by', t⟩]

/-- What has gone well where the caller is. -/
def passed (inp : Input) : CallerPc → Bool
  | .malloc => later inp.when' inp.now
  | .fill => later inp.when' inp.now && inp.malloc
  | .attrInit => later inp.when' inp.now && inp.malloc
  | .setdetachstate => later inp.when' inp.now && inp.malloc && decide (inp.attrInit = 0)
  | .create =>
    later inp.when' inp.now && inp.malloc && decide (inp.attrInit = 0) && decide (inp.setdetachstate = 0)
  | _ => true

/-- The caller without a helper. -/
def Single (inp : Input) (s : State) : Prop :=
  s.helper = .none ∧ passed inp s.caller = true ∧
  match s.caller with
  | .test => Uncalled s .none 0
  | .malloc => Uncalled s .none 0
  | .fill => Uncalled s (.live none) 0
  | .attrInit => Uncalled s (.live (some (info inp))) 0
  | .setdetachstate => Uncalled s (.live (some (info inp))) 0
  | .create => Uncalled s (.live (some (info inp))) 0
  | .destroy err => err ≠ 0 ∧ Uncalled s (.live (some (info inp))) 0
  | .made err => err ≠ 0 ∧ Uncalled s (.live (some (info inp))) 0
  | .free => Uncalled s (.live (some (info inp))) 0
  | .call => Uncalled s .none 0 ∨ Uncalled s .freed 1
  | .returned => Called inp s .caller inp.now.total ∧ (s.tip = .none ∧ s.frees = 0 ∨ s.tip = .freed ∧ s.frees = 1)

/-- The helper at work, and the caller on its way out. -/
def Shared (inp : Input) (s : State) : Prop :=
  (s.caller = .destroy 0 ∨ s.caller = .made 0 ∨ s.caller = .returned) ∧ started inp = true ∧
  match s.helper with
  | .none => False
  | .sleep => Uncalled s (.live (some (info inp))) 0
  | .sleeping till => wakes inp ≤ till ∧ Uncalled s (.live (some (info inp))) 0
  | .call => wakes inp ≤ s.clock ∧ Uncalled s (.live (some (info inp))) 0
  | .free => Called inp s .helper (wakes inp) ∧ s.tip = .live (some (info inp)) ∧ s.frees = 0
  | .returned => Called inp s .helper (wakes inp) ∧ s.tip = .freed ∧ s.frees = 1

structure Inv (inp : Input) (s : State) : Prop where
  fault : s.fault = false
  clock : inp.now.total ≤ s.clock
  shape : Single inp s ∨ Shared inp s

theorem inv_init (inp : Input) : Inv inp (init inp) := ⟨rfl, Int.le_refl _, .inl ⟨rfl, rfl, rfl, rfl, rfl⟩⟩

theorem Inv.of_clock (h : Inv inp s) {time : Int} (hle : s.clock ≤ time) : Inv inp { s with clock := time } := by
  refine ⟨h.fault, Int.le_trans h.clock hle, h.shape.imp (fun hs => hs) (fun hs => ⟨hs.1, hs.2.1, ?_⟩)⟩
  have hwork := hs.2.2
  cases hpc : s.helper with
  | call =>
    simp only [hpc] at hwork ⊢
    exact ⟨Int.le_trans hwork.1 hle, hwork.2⟩
  | none => simp only [hpc] at hwork
  | sleep | sleeping till | free | returned =>
    simp only [hpc] at hwork ⊢
    exact hwork

/-- **A step of the helper** keeps the caller where it is. -/
theorem helper_inv (h : Inv inp s) (hs : helperStep s = some s') : Inv inp s' := by
  have hclock := h.clock
  have hfault := h.fault
  unfold helperStep at hs
  rcases h.shape with ⟨hnone, -⟩ | ⟨hcaller, hstarted, hwork⟩
  · rw [hnone] at hs
    cases hs
  cases hpc : s.helper with
  | none =>
    rw [hpc] at hs
    cases hs
  | sleep =>
    simp only [hpc] at hs hwork
    simp only [hwork.1] at hs
    cases hs
    exact ⟨hfault, hclock, .inr ⟨hcaller, hstarted, Int.add_le_add_right hclock _, rfl, hwork.2⟩⟩
  | sleeping till =>
    simp only [hpc] at hs hwork
    split at hs
    · rename_i htill
      cases hs
      exact ⟨hfault, hclock, .inr ⟨hcaller, hstarted, Int.le_trans hwork.1 htill, hwork.2⟩⟩
    · cases hs
  | call =>
    simp only [hpc] at hs hwork
    obtain ⟨htime, htip, hfrees, hcalls⟩ := hwork
    simp only [htip] at hs
    cases hs
    exact ⟨hfault, hclock, .inr ⟨hcaller, hstarted, ⟨s.clock, htime, by rw [hcalls]; rfl⟩, rfl, hfrees⟩⟩
  | free =>
    simp only [hpc] at hs hwork
    obtain ⟨hcalled, htip, hfrees⟩ := hwork
    simp only [free, htip] at hs
    cases hs
    exact ⟨hfault, hclock, .inr ⟨hcaller, hstarted, hcalled, rfl, by rw [hfrees]⟩⟩
  | returned =>
    rw [hpc] at hs
    cases hs

/-- The caller, as long as there is no helper, goes on alone or starts one. -/
theorem single_caller (hfault : s.fault = false) (hclock : inp.now.total ≤ s.clock) (h : Single inp s)
    (hs : callerStep inp s = some s') : Inv inp s' := by
  obtain ⟨hnone, hpassed, hshape⟩ := h
  unfold callerStep at hs
  cases hpc : s.caller with
  | test =>
    simp only [hpc] at hs hshape hpassed
    cases hs
    refine ⟨hfault, hclock, .inl ⟨hnone, ?_⟩⟩
    cases hlater : later inp.when' inp.now with
    | true => exact ⟨hlater, hshape⟩
    | false => exact ⟨rfl, .inl hshape⟩
  | malloc =>
    simp only [hpc] at hs hshape hpassed
    split at hs
    · rename_i hmalloc
      cases hs
      exact ⟨hfault, hclock, .inl ⟨hnone, Bool.and_eq_true_iff.2 ⟨hpassed, hmalloc⟩, rfl, hshape.2⟩⟩
    · cases hs
      exact ⟨hfault, hclock, .inl ⟨hnone, rfl, .inl hshape⟩⟩
  | fill =>
    simp only [hpc] at hs hshape hpassed
    simp only [hshape.1] at hs
    cases hs
    exact ⟨hfault, hclock, .inl ⟨hnone, hpassed, rfl, hshape.2⟩⟩
  | attrInit =>
    simp only [hpc] at hs hshape hpassed
    cases hs
    refine ⟨hfault, hclock, .inl ⟨hnone, ?_⟩⟩
    by_cases herr : inp.attrInit = 0
    · rw [if_neg (fun hne => hne herr)]
      exact ⟨Bool.and_eq_true_iff.2 ⟨hpassed, decide_eq_true herr⟩, hshape⟩
    · rw [if_pos herr]
      exact ⟨rfl, herr, hshape⟩
  | setdetachstate =>
    simp only [hpc] at hs hshape hpassed
    cases hs
    refine ⟨hfault, hclock, .inl ⟨hnone, ?_⟩⟩
    by_cases herr : inp.setdetachstate = 0
    · rw [if_pos herr]
      exact ⟨Bool.and_eq_true_iff.2 ⟨hpassed, decide_eq_true herr⟩, hshape⟩
    · rw [if_neg herr]
      exact ⟨rfl, herr, hshape⟩
  | create =>
    simp only [hpc] at hs hshape hpassed
    split at hs
    · -- from here on the block is the helper's
      rename_i herr
      cases hs
      have hstarted : started inp = true := Bool.and_eq_true_iff.2 ⟨hpassed, decide_eq_true herr⟩
      exact ⟨hfault, hclock, .inr ⟨.inl rfl, hstarted, hshape⟩⟩
    · rename_i herr
      cases hs
      exact ⟨hfault, hclock, .inl ⟨hnone, rfl, herr, hshape⟩⟩
  | destroy err =>
    simp only [hpc] at hs hshape hpassed
    cases hs
    exact ⟨hfault, hclock, .inl ⟨hnone, rfl, hshape⟩⟩
  | made err =>
    simp only [hpc] at hs hshape hpassed
    simp only [if_neg hshape.1] at hs
    cases hs
    exact ⟨hfault, hclock, .inl ⟨hnone, rfl, hshape.2⟩⟩
  | free =>
    simp only [hpc] at hs hshape hpassed
    obtain ⟨htip, hfrees, hcalls⟩ := hshape
    simp only [free, htip] at hs
    cases hs
    exact ⟨hfault, hclock, .inl ⟨hnone, rfl, .inr ⟨rfl, by simp only [hfrees], hcalls⟩⟩⟩
  | call =>
    simp only [hpc] at hs hshape hpassed
    cases hs
    refine ⟨hfault, hclock, .inl ⟨hnone, rfl, ⟨s.clock, hclock, ?_⟩, ?_⟩⟩
    · rcases hshape with h | h
      · simp only [h.2.2, List.nil_append]
      · simp only [h.2.2, List.nil_append]
    · exact hshape.imp (fun h => ⟨h.1, h.2.1⟩) (fun h => ⟨h.1, h.2.1⟩)
  | returned =>
    rw [hpc] at hs
    cases hs

/-- Beside the helper, the caller only leaves. -/
theorem shared_caller (hfault : s.fault = false) (hclock : inp.now.total ≤ s.clock) (h : Shared inp s)
    (hs : callerStep inp s = some s') : Inv inp s' := by
  obtain ⟨hcaller, hwork⟩ := h
  unfold callerStep at hs
  rcases hcaller with hpc | hpc | hpc
  · simp only [hpc] at hs
    cases hs
    exact ⟨hfault, hclock, .inr ⟨.inr (.inl rfl), hwork⟩⟩
  · simp only [hpc, if_true] at hs
    cases hs
    exact ⟨hfault, hclock, .inr ⟨.inr (.inr rfl), hwork⟩⟩
  · rw [hpc] at hs
    cases hs

theorem caller_inv (h : Inv inp s) (hs : callerStep inp s = some s') : Inv inp s' :=
  h.shape.elim (fun hsingle => single_caller h.fault h.clock hsingle hs)
    (fun hshared => shared_caller h.fault h.clock hshared hs)

theorem inv_step {a : Thread × Int} (h : Inv inp s) (hs : step inp s a = some s') : Inv inp s' := by
  obtain ⟨thread, time⟩ := a
  simp only [step] at hs
  split at hs
  · rename_i hle
    cases thread with
    | caller => exact caller_inv (h.of_clock hle) hs
    | helper => exact helper_inv (h.of_clock hle) hs
  · cases hs

/-- In every state: no call, or the one call, and what has been freed. -/
theorem Inv.calls_cases (h : Inv inp s) : s.frees ≤ 1 ∧
    (s.calls = [] ∨ Called inp s .caller inp.now.total ∨ started inp = true ∧ Called inp s .helper (wakes inp)) := by
  have huncalled : ∀ {tip : Tip} {frees : Nat}, Uncalled s tip frees → frees ≤ 1 → s.frees ≤ 1 ∧ s.calls = [] :=
    fun h hle => ⟨h.2.1 ▸ hle, h.2.2⟩
  rcases h.shape with ⟨-, -, hshape⟩ | ⟨-, hstarted, hwork⟩
  · cases hpc : s.caller with
    | test | malloc | fill | attrInit | setdetachstate | create | free =>
      simp only [hpc] at hshape
      exact (huncalled hshape (by decide)).imp_right .inl
    | destroy err | made err =>
      simp only [hpc] at hshape
      exact (huncalled hshape.2 (by decide)).imp_right .inl
    | call =>
      simp only [hpc] at hshape
      rcases hshape with h | h
      · exact (huncalled h (by decide)).imp_right .inl
      · exact (huncalled h (by decide)).imp_right .inl
    | returned =>
      simp only [hpc] at hshape
      exact ⟨by omega, .inr (.inl hshape.1)⟩
  · cases hpc : s.helper with
    | none => simp only [hpc] at hwork
    | sleep =>
      simp only [hpc] at hwork
      exact (huncalled hwork (by decide)).imp_right .inl
    | sleeping till | call =>
      simp only [hpc] at hwork
      exact (huncalled hwork.2 (by decide)).imp_right .inl
    | free | returned =>
      simp only [hpc] at hwork
      exact ⟨by omega, .inr (.inr ⟨hstarted, hwork.1⟩)⟩

/-- **The helper calls from its earliest time on**, and only if it was started. -/
theorem Inv.helper_time (h : Inv inp s) {c : Call} (hc : c ∈ s.calls) (hby : c.by' = .helper) :
    started inp = true ∧ wakes inp ≤ c.time := by
  rcases h.calls_cases.2 with hcalls | ⟨t, -, hcalls⟩ | ⟨hstarted, t, hle, hcalls⟩
  · rw [hcalls] at hc
    cases hc
  · rw [hcalls, List.mem_singleton] at hc
    subst hc
    cases hby
  · rw [hcalls, List.mem_singleton] at hc
    subst hc
    exact ⟨hstarted, hle⟩

/-! ## Every run ends -/

def callerLeft : CallerPc → Nat
  | .test => 16
  | .malloc => 15
  | .fill => 14
  | .attrInit => 13
  | .setdetachstate => 12
  | .create => 11
  | .destroy _ => 4
  | .made _ => 3
  | .free => 2
  | .call => 1
  | .returned => 0

def helperLeft : HelperPc → Nat
  | .none => 0
  | .sleep => 4
  | .sleeping _ => 3
  | .call => 2
  | .free => 1
  | .returned => 0

/-- The statements to come. -/
def left (s : State) : Nat := callerLeft s.caller + helperLeft s.helper

theorem free_caller (s : State) : (free s).caller = s.caller := by
  unfold free
  split
  · rfl
  · rfl

theorem free_helper (s : State) : (free s).helper = s.helper := by
  unfold free
  split
  · rfl
  · rfl

theorem left_of_caller (hcaller : callerLeft s'.caller < callerLeft s.caller) (hhelper : s'.helper = s.helper) :
    left s' < left s := by
  unfold left
  rw [hhelper]
  omega

theorem left_of_helper (hhelper : helperLeft s'.helper < helperLeft s.helper) (hcaller : s'.caller = s.caller) :
    left s' < left s := by
  unfold left
  rw [hcaller]
  omega

theorem caller_left (hs : callerStep inp s = some s') : left s' < left s := by
  unfold callerStep at hs
  cases hpc : s.caller with
  | test =>
    simp only [hpc] at hs
    cases hs
    refine left_of_caller ?_ rfl
    split
    · simp [hpc, callerLeft]
    · simp [hpc, callerLeft]
  | malloc | fill =>
    simp only [hpc] at hs
    split at hs
    · cases hs
      exact left_of_caller (by simp [hpc, callerLeft]) rfl
    · cases hs
      exact left_of_caller (by simp [hpc, callerLeft]) rfl
  | attrInit | setdetachstate | made err =>
    simp only [hpc] at hs
    cases hs
    refine left_of_caller ?_ rfl
    split
    · simp [hpc, callerLeft]
    · simp [hpc, callerLeft]
  | create =>
    simp only [hpc] at hs
    split at hs
    · cases hs
      -- the helper's statements are among those to come after `create`
      unfold left
      simp only [hpc, callerLeft, helperLeft]
      omega
    · cases hs
      exact left_of_caller (by simp [hpc, callerLeft]) rfl
  | destroy err | call =>
    simp only [hpc] at hs
    cases hs
    exact left_of_caller (by simp [hpc, callerLeft]) rfl
  | free =>
    simp only [hpc] at hs
    cases hs
    exact left_of_caller (by simp [hpc, callerLeft]) (free_helper s)
  | returned =>
    rw [hpc] at hs
    cases hs

theorem helper_left (hs : helperStep s = some s') : left s' < left s := by
  unfold helperStep at hs
  cases hpc : s.helper with
  | none =>
    rw [hpc] at hs
    cases hs
  | sleep | call =>
    simp only [hpc] at hs
    split at hs
    · cases hs
      exact left_of_helper (by simp [hpc, helperLeft]) rfl
    · cases hs
      exact left_of_helper (by simp [hpc, helperLeft]) rfl
  | sleeping till =>
    simp only [hpc] at hs
    split at hs
    · cases hs
      exact left_of_helper (by simp [hpc, helperLeft]) rfl
    · cases hs
  | free =>
    simp only [hpc] at hs
    cases hs
    exact left_of_helper (by simp [hpc, helperLeft]) (free_caller s)
  | returned =>
    rw [hpc] at hs
    cases hs

theorem step_left {a : Thread × Int} (hs : step inp s a = some s') : left s' < left s := by
  obtain ⟨thread, time⟩ := a
  simp only [step] at hs
  split at hs
  · cases thread with
    | caller => exact caller_left (s := { s with clock := time }) hs
    | helper => exact helper_left (s := { s with clock := time }) hs
  · cases hs

theorem caller_goes_on (hpc : s.caller ≠ .returned) : ∃ s', callerStep inp s = some s' := by
  unfold callerStep
  cases h : s.caller with
  | test | attrInit | setdetachstate | destroy err | made err | free | call => exact ⟨_, rfl⟩
  | malloc | fill | create =>
    simp only
    split
    · exact ⟨_, rfl⟩
    · exact ⟨_, rfl⟩
  | returned => exact absurd h hpc

theorem Inv.goes_on (h : Inv inp s) (hend : ¬ Finished inp s) : ∃ a s', step inp s a = some s' := by
  by_cases hcaller : s.caller = .returned
  · rcases h.shape with ⟨hnone, -, hshape⟩ | ⟨-, -, hwork⟩
    · simp only [hcaller] at hshape
      obtain ⟨⟨t, -, hcalls⟩, hfrees⟩ := hshape
      exact absurd ⟨hcaller, .inl hnone, ⟨_, t, hcalls⟩, hfrees, h.fault⟩ hend
    · cases hpc : s.helper with
      | none => simp only [hpc] at hwork
      | sleep =>
        simp only [hpc] at hwork
        refine ⟨(.helper, s.clock), ?_⟩
        simp only [step, Int.le_refl, if_true, helperStep, hpc, hwork.1]
        exact ⟨_, rfl⟩
      | sleeping till =>
        refine ⟨(.helper, max s.clock till), ?_⟩
        simp only [step, if_pos (Int.le_max_left s.clock till), helperStep, hpc,
          if_pos (Int.le_max_right s.clock till)]
        exact ⟨_, rfl⟩
      | call =>
        simp only [hpc] at hwork
        refine ⟨(.helper, s.clock), ?_⟩
        simp only [step, Int.le_refl, if_true, helperStep, hpc, hwork.2.1]
        exact ⟨_, rfl⟩
      | free =>
        refine ⟨(.helper, s.clock), ?_⟩
        simp only [step, Int.le_refl, if_true, helperStep, hpc]
        exact ⟨_, rfl⟩
      | returned =>
        simp only [hpc] at hwork
        obtain ⟨⟨t, -, hcalls⟩, hfreed⟩ := hwork
        exact absurd ⟨hcaller, .inr hpc, ⟨_, t, hcalls⟩, .inr hfreed, h.fault⟩ hend
  · refine ⟨(.caller, s.clock), ?_⟩
    simp only [step, Int.le_refl, if_true]
    exact caller_goes_on hcaller

theorem finishes (inp : Input) : Inevitably (step inp) (Finished inp) (init inp) :=
  inevitably_of_measure left (fun _ (h : Inv inp _) hend => h.goes_on hend)
    (fun _ _ _ h _ hs => .inr ⟨inv_step h hs, step_left hs⟩) (init inp) (inv_init inp)

/-! ## Not before `when` -/

theorem toWait_tvSec (when' now : Timespec) :
    (toWait when' now).tvSec = when'.tvSec - now.tvSec - if when'.tvNsec ≥ now.tvSec then 0 else 1 := by
  unfold toWait
  split
  · simp only
    omega
  · rfl

theorem reaches_iff (inp : Input) : reaches inp.when' inp.now = true ↔ inp.when'.total ≤ wakes inp := by
  unfold reaches wakes
  rw [decide_eq_true_eq, toWait_tvSec]

/-- For normalised times: the nanoseconds dropped are none, or `timeout` has borrowed from nothing, and sleeps for 136
years. -/
theorem reaches_normal_iff {when' now : Timespec} (hwhen : when'.Normal) (hnow : now.Normal)
    (hlater : later when' now = true) : reaches when' now = true ↔
      when'.tvNsec ≥ now.tvSec ∧ when'.tvNsec ≤ now.tvNsec ∧ when'.tvSec - now.tvSec < 4294967296 ∨
        when'.tvNsec < now.tvSec ∧ when'.tvSec = now.tvSec := by
  obtain ⟨hw0, hw1⟩ := hwhen
  obtain ⟨hn0, hn1⟩ := hnow
  rw [later_iff] at hlater
  unfold SECTONSEC at hw1 hn1
  unfold reaches Timespec.total toUnsigned SECTONSEC
  rw [decide_eq_true_eq]
  by_cases hborrow : when'.tvNsec ≥ now.tvSec
  · rw [if_pos hborrow]
    omega
  · rw [if_neg hborrow]
    omega

/-- Everyone as soon as possible: the caller up to the helper's start, then the helper up to its call. -/
def soon (inp : Input) : List (Thread × Int) :=
  List.replicate 6 (Thread.caller, inp.now.total) ++
    [(Thread.helper, inp.now.total), (.helper, wakes inp), (.helper, wakes inp)]

theorem wakes_ge (inp : Input) : inp.now.total ≤ wakes inp := by
  unfold wakes toUnsigned SECTONSEC
  omega

/-- **A helper that was started can call at its earliest time.** -/
theorem soon_calls (h : started inp = true) :
    ∃ s, run (step inp) (soon inp) (init inp) = some s ∧ ⟨inp.func, inp.arg, .helper, wakes inp⟩ ∈ s.calls := by
  simp only [started, Bool.and_eq_true, decide_eq_true_eq] at h
  obtain ⟨⟨⟨⟨hlater, hmalloc⟩, hattr⟩, hdetach⟩, hcreate⟩ := h
  have hcaller : run (step inp) (List.replicate 6 (.caller, inp.now.total)) (init inp) =
      some ⟨.destroy 0, .sleep, .live (some (info inp)), 0, [], inp.now.total, false⟩ := by
    simp [List.replicate, run, step, callerStep, init, hlater, hmalloc, hattr, hdetach, hcreate, info]
  refine ⟨⟨.destroy 0, .free, .live (some (info inp)), 0, [⟨inp.func, inp.arg, .helper, wakes inp⟩], wakes inp, false⟩,
    (run_append _ _ hcaller).trans ?_, List.mem_singleton.2 rfl⟩
  have hsleep : inp.now.total + toUnsigned (info inp).toWait.tvSec * SECTONSEC = wakes inp := rfl
  have hfn : (info inp).toFn = inp.func := rfl
  have harg : (info inp).toArg = inp.arg := rfl
  simp [run, step, helperStep, wakes_ge, hsleep, hfn, harg]

/-- **The helper does not call too early exactly if it is not started, or whole seconds reach `when`**; everything else
that `timeout` is for holds whatever fails. -/
theorem timeout_meets_iff (inp : Input) : Meets inp ↔ started inp = false ∨ reaches inp.when' inp.now = true := by
  have hinv : ∀ {as : List (Thread × Int)} {s : State}, run (step inp) as (init inp) = some s → Inv inp s :=
    fun hrun => run_inv (Inv inp) (fun s a s' h hs => inv_step h hs) _ _ _ (inv_init inp) hrun
  constructor
  · intro hmeets
    by_cases hstarted : started inp = true
    · obtain ⟨s, hrun, hmem⟩ := soon_calls hstarted
      exact .inr ((reaches_iff inp).2 (hmeets.onTime _ s hrun _ hmem rfl))
    · exact .inl (Bool.eq_false_iff.2 hstarted)
  · intro hcond
    refine ⟨fun as s hrun => ?_, finishes inp, fun as s hrun c hc hby => ?_⟩
    · have h := hinv hrun
      refine ⟨h.fault, ?_, h.calls_cases.1⟩
      rcases h.calls_cases.2 with hcalls | ⟨t, -, hcalls⟩ | ⟨-, t, -, hcalls⟩
      · rw [hcalls]
        exact Nat.zero_le _
      · rw [hcalls]
        exact Nat.le_refl _
      · rw [hcalls]
        exact Nat.le_refl _
    · obtain ⟨hstarted, hle⟩ := (hinv hrun).helper_time hc hby
      have hreaches := hcond.resolve_left (by rw [hstarted]; decide)
      exact Int.le_trans ((reaches_iff inp).1 hreaches) hle

def tenSeconds : Input := ⟨⟨1700000010, 5⟩, ⟨1700000000, 5⟩, 0, 10, true, 0, 0, 0⟩

/-- **Ten seconds from now**: the helper sleeps nine, and calls one second too early. -/
theorem timeout_early :
    (∃ s, run (step tenSeconds) (soon tenSeconds) (init tenSeconds) = some s ∧
      s.calls = [⟨0, 10, .helper, tenSeconds.now.total + 9 * SECTONSEC⟩] ∧
      tenSeconds.when'.total = tenSeconds.now.total + 10 * SECTONSEC) ∧
    ¬ Meets tenSeconds := by
  have hrun : ∃ s, run (step tenSeconds) (soon tenSeconds) (init tenSeconds) = some s ∧
      s.calls = [⟨0, 10, .helper, tenSeconds.now.total + 9 * SECTONSEC⟩] := ⟨_, rfl, rfl⟩
  obtain ⟨s, hs, hcalls⟩ := hrun
  refine ⟨⟨s, hs, hcalls, rfl⟩, fun hmeets => ?_⟩
  have hle := hmeets.onTime _ s hs _ (hcalls ▸ List.mem_singleton.2 rfl) rfl
  exact absurd hle (by decide)

end Ch12Mutexattr
end Cc
