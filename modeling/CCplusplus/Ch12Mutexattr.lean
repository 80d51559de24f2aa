import CCplusplus.Lib.Machine
import Mathlib.Tactic.Common
/-!
# Ch12Mutexattr — `timeout` of `apue/ch12/ch12_mutexattr.c`

`timeout` calls a function at a time, from a detached thread that sleeps, or at once where that is not possible.  An
action is the next statement of the caller or of the helper, at a time that does not go back.  The answers of `malloc`
and of the pthread functions are given; the function that is called returns.  Times count in nanoseconds where they are
compared, and a `sleep` lasts as long as it is told, or longer.
-/
namespace Cc
namespace Ch12Mutexattr

open CLib

/-- `struct timespec` -/
structure Timespec where
  tvSec : Int
  tvNsec : Int
deriving DecidableEq, Repr

def SECTONSEC : Int := 1000000000

def Timespec.total (t : Timespec) : Int := t.tvSec * SECTONSEC + t.tvNsec

/-- The test in `timeout`: `when` is yet to come. -/
def later (when' now : Timespec) : Bool :=
  decide (when'.tvSec > now.tvSec) || decide (when'.tvSec = now.tvSec) && decide (when'.tvNsec > now.tvNsec)

/-- `to_wait` as `timeout` computes it; the nanoseconds of `when` are compared with the seconds of `now`. -/
def toWait (when' now : Timespec) : Timespec :=
  if when'.tvNsec ≥ now.tvSec then ⟨when'.tvSec - now.tvSec, when'.tvNsec - now.tvNsec⟩
  else ⟨when'.tvSec - now.tvSec - 1, SECTONSEC - now.tvNsec + when'.tvNsec⟩

/-- The argument of `sleep` is an `unsigned int`. -/
def toUnsigned (x : Int) : Int := x % 4294967296

/-! ## The threads -/

/-- A call of `timeout`, with what the clock says and what the functions it calls return. -/
structure Input where
  when' : Timespec
  now : Timespec
  func : Nat
  arg : Nat
  malloc : Bool
  attrInit : Int
  setdetachstate : Int
  create : Int

/-- `struct to_info` -/
structure ToInfo where
  toFn : Nat
  toArg : Nat
  toWait : Timespec
deriving DecidableEq, Repr

inductive Tip where
  | none
  | live (info : Option ToInfo)
  | freed
deriving DecidableEq, Repr

inductive CallerPc where
  /-- the clock has been read -/
  | test
  | malloc
  | fill
  | attrInit
  | setdetachstate
  | create
  | destroy (err : Int)
  /-- `makethread` has returned -/
  | made (err : Int)
  | free
  | call
  | returned
deriving DecidableEq, Repr

inductive HelperPc where
  /-- not created -/
  | none
  | sleep
  /-- in `sleep` up to a time -/
  | sleeping (till : Int)
  | call
  | free
  | returned
deriving DecidableEq, Repr

inductive Thread where
  | caller
  | helper
deriving DecidableEq, Repr

structure Call where
  fn : Nat
  arg : Nat
  by' : Thread
  time : Int
deriving DecidableEq, Repr

structure State where
  caller : CallerPc
  helper : HelperPc
  tip : Tip
  /-- calls of `free` -/
  frees : Nat
  calls : List Call
  clock : Int
  /-- some access was to a block that is not live, or not filled -/
  fault : Bool
deriving DecidableEq, Repr

def init (inp : Input) : State := ⟨.test, .none, .none, 0, [], inp.now.total, false⟩

/-- `free(tip)` -/
def free (s : State) : State :=
  match s.tip with
  | .live _ => { s with tip := .freed, frees := s.frees + 1 }
  | _ => { s with frees := s.frees + 1, fault := true }

def callerStep (inp : Input) (s : State) : Option State :=
  match s.caller with
  | .test => some { s with caller := if later inp.when' inp.now then .malloc else .call }
  | .malloc =>
    if inp.malloc then some { s with tip := .live none, caller := .fill } else some { s with caller := .call }
  | .fill =>
    match s.tip with
    | .live _ => some { s with
        tip := .live (some ⟨inp.func, inp.arg, toWait inp.when' inp.now⟩)
        caller := .attrInit }
    | _ => some { s with fault := true, caller := .attrInit }
  | .attrInit => some { s with caller := if inp.attrInit ≠ 0 then .made inp.attrInit else .setdetachstate }
  | .setdetachstate =>
    some { s with caller := if inp.setdetachstate = 0 then .create else .destroy inp.setdetachstate }
  | .create =>
    if inp.create = 0 then some { s with helper := .sleep, caller := .destroy 0 }
    else some { s with caller := .destroy inp.create }
  | .destroy err => some { s with caller := .made err }
  | .made err => some { s with caller := if err = 0 then .returned else .free }
  | .free => some { free s with caller := .call }
  | .call => some { s with calls := s.calls ++ [⟨inp.func, inp.arg, .caller, s.clock⟩], caller := .returned }
  | .returned => none

/-- `timeout_helper` -/
def helperStep (s : State) : Option State :=
  match s.helper with
  | .none => none
  | .sleep =>
    match s.tip with
    | .live (some info) =>
      some { s with helper := .sleeping (s.clock + toUnsigned info.toWait.tvSec * SECTONSEC) }
    | _ => some { s with fault := true, helper := .returned }
  | .sleeping till => if till ≤ s.clock then some { s with helper := .call } else none
  | .call =>
    match s.tip with
    | .live (some info) =>
      some { s with calls := s.calls ++ [⟨info.toFn, info.toArg, .helper, s.clock⟩], helper := .free }
    | _ => some { s with fault := true, helper := .returned }
  | .free => some { free s with helper := .returned }
  | .returned => none

/-- A thread goes on, at a time. -/
def step (inp : Input) (s : State) : Thread × Int → Option State
  | (thread, time) =>
    if s.clock ≤ time then
      match thread with
      | .caller => callerStep inp { s with clock := time }
      | .helper => helperStep { s with clock := time }
    else none

/-! ## `to_wait` -/

def Timespec.Normal (t : Timespec) : Prop := 0 ≤ t.tvNsec ∧ t.tvNsec < SECTONSEC

/-- What is to be waited is normalised, not negative, and leads from one time to the other. -/
structure Exact (when' now wait : Timespec) : Prop where
  normal : wait.Normal
  nonneg : 0 ≤ wait.tvSec
  sum : now.total + wait.total = when'.total

theorem toWait_sum (when' now : Timespec) : now.total + (toWait when' now).total = when'.total := by
  unfold toWait Timespec.total SECTONSEC
  split
  · simp only
    omega
  · simp only
    omega

theorem later_iff (when' now : Timespec) :
    later when' now = true ↔ when'.tvSec > now.tvSec ∨ when'.tvSec = now.tvSec ∧ when'.tvNsec > now.tvNsec := by
  simp only [later, Bool.or_eq_true, Bool.and_eq_true, decide_eq_true_eq]

/-- **The wait is exact exactly if the comparison of `when`'s nanoseconds with `now`'s seconds has the outcome of the one
with `now`'s nanoseconds.** -/
theorem toWait_exact_iff {when' now : Timespec} (hwhen : when'.Normal) (hnow : now.Normal)
    (hlater : later when' now = true) :
    Exact when' now (toWait when' now) ↔ (when'.tvNsec ≥ now.tvSec ↔ when'.tvNsec ≥ now.tvNsec) := by
  obtain ⟨hw0, hw1⟩ := hwhen
  obtain ⟨hn0, hn1⟩ := hnow
  rw [later_iff] at hlater
  unfold SECTONSEC at hw1 hn1
  constructor
  · rintro ⟨⟨hnormal0, hnormal1⟩, -, -⟩
    unfold toWait SECTONSEC at hnormal0 hnormal1
    by_cases hborrow : when'.tvNsec ≥ now.tvSec
    · rw [if_pos hborrow] at hnormal0
      simp only at hnormal0
      omega
    · rw [if_neg hborrow] at hnormal1
      simp only at hnormal1
      omega
  · intro hsame
    refine ⟨?_, ?_, toWait_sum when' now⟩
    · unfold toWait
      by_cases hborrow : when'.tvNsec ≥ now.tvSec
      · rw [if_pos hborrow]
        unfold Timespec.Normal SECTONSEC
        simp only
        omega
      · rw [if_neg hborrow]
        unfold Timespec.Normal SECTONSEC
        simp only
        omega
    · unfold toWait
      by_cases hborrow : when'.tvNsec ≥ now.tvSec
      · rw [if_pos hborrow]
        simp only
        omega
      · rw [if_neg hborrow]
        simp only
        omega

theorem toWait_exact_early :
    Exact ⟨15, 700⟩ ⟨5, 200⟩ (toWait ⟨15, 700⟩ ⟨5, 200⟩) ↔ ((700 : Int) ≥ 5 ↔ (700 : Int) ≥ 200) :=
  toWait_exact_iff ⟨by decide, by decide⟩ ⟨by decide, by decide⟩ (by decide)

/-- **Ten seconds from now**, as `main` asks for: nine seconds and a whole second of nanoseconds. -/
theorem toWait_ten : later ⟨1700000010, 5⟩ ⟨1700000000, 5⟩ = true ∧
    toWait ⟨1700000010, 5⟩ ⟨1700000000, 5⟩ = ⟨9, 1000000000⟩ ∧
    ¬ Exact ⟨1700000010, 5⟩ ⟨1700000000, 5⟩ (toWait ⟨1700000010, 5⟩ ⟨1700000000, 5⟩) :=
  ⟨rfl, rfl, fun h => absurd h.normal.2 (by decide)⟩

end Ch12Mutexattr
end Cc
