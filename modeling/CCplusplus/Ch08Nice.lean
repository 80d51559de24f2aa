import CCplusplus.MyIcmp
import CCplusplus.Lib.Exec
/-!
# Ch08Nice — the ten seconds of `ch08_nice`

Parent and child count until the clock has come to `end`.  `checktime` compares the seconds and the microseconds each on
their own, so a reading in a later second whose microseconds are below those of `end` does not count as late
(`Reached.missed_iff`).  A process leaves its loop at the first late reading exactly if that one has the microseconds too
and comes before `count` wraps (`checktime_leaves_iff`).
-/
namespace Cc
namespace Ch08Nice

open CLib

/-- What a process of the program finds outside of it: `strtol` of the argument if there is one, the results of the calls
with `errno`, the reading for `end`, and those that `checktime` makes in this process. -/
structure Env where
  nzero : Int
  arg : Option Int
  start : Timeval
  pid : Int
  nice : Int → Int × Int
  clock : Nat → Timeval

/-- How the process ends, with what it printed; `exit` with the number of the reading that `checktime` had. -/
inductive Result where
  | errSys (out : List String) (msg : String)
  | errQuit (out : List String) (msg : String)
  | exit (out : List String) (reading : Nat)
  | running
deriving DecidableEq, Repr

def checktime (fin tv : Timeval) : Bool := decide (fin.tvSec ≤ tv.tvSec) && decide (fin.tvUsec ≤ tv.tvUsec)

/-- `for (;;)` at the reading `k`, for as many turns as there is fuel. -/
def mainLoop (clock : Nat → Timeval) (s : String) (fin : Timeval) (out : List String) : Nat → Nat → UInt64 → Result
  | 0, _, _ => .running
  | fuel + 1, k, count =>
    let count := count + 1
    if count = 0 then .errQuit out (s ++ " counter wrap")
    else if checktime fin (clock k) then .exit (out ++ [s ++ " count " ++ toString count.toInt64 ++ "\n"]) k
    else mainLoop clock s fin out fuel (k + 1) count

def Env.adj (e : Env) : Int := (e.arg.map asInt).getD 0

def Env.fin (e : Env) : Timeval := { e.start with tvSec := e.start.tvSec + 10 }

def main (e : Env) (fuel : Nat) : Result :=
  let out := ["NZEOR = " ++ toString e.nzero ++ "\n"]
  if e.pid < 0 then .errSys out "fork failed"
  else if e.pid = 0 then
    let out := out ++ ["current nice value in child is " ++ toString ((e.nice 0).1 + e.nzero) ++ ", adjusting by "
      ++ toString e.adj ++ "\n"]
    let (ret, errno) := e.nice e.adj
    if ret = -1 ∧ errno ≠ 0 then .errSys out "child set scheduling priority"
    else mainLoop e.clock "child" e.fin (out ++ ["now child nice value is " ++ toString (ret + e.nzero) ++ "\n"])
      fuel 0 0
  else
    let out := out ++ ["current nice value in parent is " ++ toString ((e.nice 0).1 + e.nzero) ++ "\n"]
    mainLoop e.clock "parent" e.fin out fuel 0 0

/-! ## Late readings -/

/-- `end` has come: seconds first, then microseconds. -/
def Reached (fin tv : Timeval) : Prop := fin.tvSec < tv.tvSec ∨ (fin.tvSec = tv.tvSec ∧ fin.tvUsec ≤ tv.tvUsec)

def Normalised (tv : Timeval) : Prop := 0 ≤ tv.tvUsec ∧ tv.tvUsec < 1000000

/-- Of normalised times, the order is that of their microseconds. -/
theorem reached_iff {fin tv : Timeval} (hfin : Normalised fin) (htv : Normalised tv) :
    Reached fin tv ↔ fin.tvSec * 1000000 + fin.tvUsec ≤ tv.tvSec * 1000000 + tv.tvUsec := by
  obtain ⟨h0, h1⟩ := hfin
  obtain ⟨h2, h3⟩ := htv
  unfold Reached
  omega

theorem checktime_iff {fin tv : Timeval} : checktime fin tv = true ↔ Reached fin tv ∧ fin.tvUsec ≤ tv.tvUsec := by
  unfold checktime Reached
  rw [Bool.and_eq_true, decide_eq_true_eq, decide_eq_true_eq]
  omega

/-- **What `checktime` misses**: late readings in a later second, earlier in it than `end` is in its own. -/
theorem Reached.missed_iff {fin tv : Timeval} (h : Reached fin tv) :
    checktime fin tv = false ↔ fin.tvSec < tv.tvSec ∧ tv.tvUsec < fin.tvUsec := by
  rw [Bool.eq_false_iff, ne_eq, checktime_iff]
  unfold Reached at h ⊢
  omega

/-! ## The loop -/

/-- A counter that has counted `k` turns is not yet back at 0. -/
theorem count_ne_zero_iff {k : Nat} (hk : k < 2 ^ 64) : UInt64.ofNat k + 1 ≠ 0 ↔ k + 1 < 2 ^ 64 := by
  rw [ne_eq, ← UInt64.toNat_inj, UInt64.toNat_add, UInt64.toNat_ofNat_of_lt' hk]
  change ¬ (k + 1) % 2 ^ 64 = 0 ↔ _
  omega

theorem mainLoop_turn {clock : Nat → Timeval} {fin : Timeval} {i : Nat} (s : String) (out : List String) (fuel : Nat)
    (hi : i + 1 < 2 ^ 64) (hc : checktime fin (clock i) = false) :
    mainLoop clock s fin out (fuel + 1) i (UInt64.ofNat i) = mainLoop clock s fin out fuel (i + 1) (UInt64.ofNat (i + 1)) := by
  have hwrap := (count_ne_zero_iff (Nat.lt_of_succ_lt hi)).2 hi
  rw [mainLoop, if_neg hwrap, hc, if_neg (by decide), UInt64.ofNat_add]
  rfl

/-- **Where the loop leaves in `checktime`**: at the first reading that passes, unless `count` has wrapped by then. -/
theorem mainLoop_exit_iff (clock : Nat → Timeval) (s : String) (fin : Timeval) (out : List String) (k : Nat) :
    ∀ (fuel i : Nat), i < 2 ^ 64 →
      ((∃ out', mainLoop clock s fin out fuel i (UInt64.ofNat i) = .exit out' k) ↔
        i ≤ k ∧ k < i + fuel ∧ k + 1 < 2 ^ 64 ∧ checktime fin (clock k) = true ∧
          ∀ j, i ≤ j → j < k → checktime fin (clock j) = false)
  | 0, i, hi => by
    constructor
    · rintro ⟨out', h⟩
      cases h
    · rintro ⟨h0, h1, -⟩
      omega
  | fuel + 1, i, hi => by
    by_cases hlt : i + 1 < 2 ^ 64
    · cases hc : checktime fin (clock i) with
      | true =>
        have hwrap := (count_ne_zero_iff hi).2 hlt
        rw [mainLoop, if_neg hwrap, hc, if_pos rfl]
        constructor
        · rintro ⟨out', h⟩
          cases h
          exact ⟨Nat.le_refl _, by omega, hlt, hc, fun j h1 h2 => by omega⟩
        · rintro ⟨hik, -, -, -, hfirst⟩
          rcases Nat.eq_or_lt_of_le hik with rfl | hik
          · exact ⟨_, rfl⟩
          · cases hc.symm.trans (hfirst i (Nat.le_refl i) hik)
      | false =>
        rw [mainLoop_turn s out fuel hlt hc, mainLoop_exit_iff clock s fin out k fuel (i + 1) hlt]
        constructor
        · rintro ⟨hik, hfuel, hk, hpass, hfirst⟩
          refine ⟨by omega, by omega, hk, hpass, fun j h1 h2 => ?_⟩
          rcases Nat.eq_or_lt_of_le h1 with rfl | h1
          · exact hc
          · exact hfirst j h1 h2
        · rintro ⟨hik, hfuel, hk, hpass, hfirst⟩
          rcases Nat.eq_or_lt_of_le hik with rfl | hik
          · cases hc.symm.trans hpass
          · exact ⟨hik, by omega, hk, hpass, fun j h1 h2 => hfirst j (by omega) h2⟩
    · -- the counter wraps at this turn
      have hwrap : UInt64.ofNat i + 1 = 0 := by
        by_contra h
        exact hlt ((count_ne_zero_iff hi).1 h)
      rw [mainLoop, if_pos hwrap]
      constructor
      · rintro ⟨out', h⟩
        cases h
      · rintro ⟨hik, -, hk, -⟩
        omega

/-! ## The process -/

def Env.loops (e : Env) : Bool :=
  decide (0 < e.pid) || (decide (e.pid = 0) && !(decide ((e.nice e.adj).1 = -1) && decide ((e.nice e.adj).2 ≠ 0)))

/-- The process leaves its loop in `checktime`, at the reading `k`. -/
def Leaves (e : Env) (k : Nat) : Prop := ∃ fuel out, main e fuel = .exit out k

/-- The reading `k` is the first one that is not before `end`. -/
def FirstLate (e : Env) (k : Nat) : Prop := Reached e.fin (e.clock k) ∧ ∀ j, j < k → ¬ Reached e.fin (e.clock j)

theorem main_eq {e : Env} (h : e.loops = true) : ∃ s out, ∀ fuel, main e fuel = mainLoop e.clock s e.fin out fuel 0 0 := by
  unfold Env.loops at h
  unfold main
  simp only [Bool.or_eq_true, Bool.and_eq_true, Bool.not_eq_true', decide_eq_true_eq, Bool.and_eq_false_iff,
    decide_eq_false_iff_not] at h
  rcases h with h | ⟨h, hnice⟩
  · simp only [if_neg (show ¬ e.pid < 0 by omega), if_neg (show ¬ e.pid = 0 by omega)]
    exact ⟨_, _, fun fuel => rfl⟩
  · have hret : ¬ ((e.nice e.adj).1 = -1 ∧ (e.nice e.adj).2 ≠ 0) := fun hboth => hnice.elim (· hboth.1) (· hboth.2)
    simp only [if_neg (show ¬ e.pid < 0 by omega), if_pos h, if_neg hret]
    exact ⟨_, _, fun fuel => rfl⟩

/-- The process leaves at the first reading that passes, and enough fuel is one turn more than there were before. -/
theorem leaves_iff_passes {e : Env} (h : e.loops = true) (k : Nat) :
    Leaves e k ↔ k + 1 < 2 ^ 64 ∧ checktime e.fin (e.clock k) = true ∧ ∀ j, j < k → checktime e.fin (e.clock j) = false := by
  obtain ⟨s, out, hmain⟩ := main_eq h
  have hloop := fun fuel => mainLoop_exit_iff e.clock s e.fin out k fuel 0 (by decide)
  constructor
  · rintro ⟨fuel, out', hexit⟩
    rw [hmain] at hexit
    obtain ⟨-, -, hk, hpass, hfirst⟩ := (hloop fuel).1 ⟨out', hexit⟩
    exact ⟨hk, hpass, fun j => hfirst j (Nat.zero_le j)⟩
  · rintro ⟨hk, hpass, hfirst⟩
    obtain ⟨out', hexit⟩ := (hloop (k + 1)).2 ⟨Nat.zero_le k, by omega, hk, hpass, fun j _ => hfirst j⟩
    exact ⟨k + 1, out', (hmain _).trans hexit⟩

theorem exists_firstLate {e : Env} {j : Nat} (h : Reached e.fin (e.clock j)) : ∃ k, k ≤ j ∧ FirstLate e k := by
  induction j using Nat.strongRecOn with
  | ind j ih =>
    by_cases hearlier : ∃ i, i < j ∧ Reached e.fin (e.clock i)
    · obtain ⟨i, hij, hi⟩ := hearlier
      obtain ⟨k, hki, hk⟩ := ih i hij hi
      exact ⟨k, by omega, hk⟩
    · exact ⟨j, Nat.le_refl j, h, fun i hij hi => hearlier ⟨i, hij, hi⟩⟩

/-- **A process leaves its loop in `checktime` at the first late reading and at no other** exactly if that reading, where
there is one, is not earlier in its second than `end`, and one of those before `count` wraps. -/
theorem checktime_leaves_iff (e : Env) (h : e.loops = true) :
    (∀ k, Leaves e k ↔ FirstLate e k) ↔
      ∀ k, FirstLate e k → e.fin.tvUsec ≤ (e.clock k).tvUsec ∧ k + 1 < 2 ^ 64 := by
  constructor
  · intro hleaves k hk
    obtain ⟨hwrap, hpass, -⟩ := (leaves_iff_passes h k).1 ((hleaves k).2 hk)
    exact ⟨(checktime_iff.1 hpass).2, hwrap⟩
  · intro hcond k
    rw [leaves_iff_passes h]
    constructor
    · rintro ⟨-, hpass, hfirst⟩
      refine ⟨(checktime_iff.1 hpass).1, fun j hj hlate => ?_⟩
      obtain ⟨m, hmj, hm⟩ := exists_firstLate hlate
      cases (checktime_iff.2 ⟨hm.1, (hcond m hm).1⟩).symm.trans (hfirst m (by omega))
    · intro hk
      obtain ⟨husec, hwrap⟩ := hcond k hk
      refine ⟨hwrap, checktime_iff.2 ⟨hk.1, husec⟩, fun j hj => Bool.eq_false_iff.2 (fun hpass => ?_)⟩
      exact hk.2 j hj (checktime_iff.1 hpass).1

/-- Ten seconds that begin and end with a second. -/
def onTheSecond : Env where
  nzero := 20
  arg := some 10
  start := ⟨0, 0⟩
  pid := 0
  nice := fun n => (n, 0)
  clock := fun k => ⟨k, 0⟩

theorem onTheSecond_leaves : FirstLate onTheSecond 10 ∧ Leaves onTheSecond 10 := by
  have hlate : Reached onTheSecond.fin (onTheSecond.clock 10) := .inr ⟨by decide, by decide⟩
  have hfirst : FirstLate onTheSecond 10 := by
    refine ⟨hlate, fun j hj hreached => ?_⟩
    have hsec : (10 : Int) ≤ (j : Nat) := hreached.elim Int.le_of_lt (fun h => Int.le_of_eq h.1)
    omega
  refine ⟨hfirst, ((checktime_leaves_iff onTheSecond (by decide)).2 (fun k hk => ⟨Int.le_refl 0, ?_⟩) 10).2 hfirst⟩
  have : ¬ 10 < k := fun h => hk.2 10 h hlate
  omega

/-- The readings do not go back, and they are normalised. -/
structure Clocked (e : Env) : Prop where
  start : Normalised e.start
  clock : ∀ k, Normalised (e.clock k)
  first : Reached e.start (e.clock 0)
  next : ∀ k, Reached (e.clock k) (e.clock (k + 1))

/-- Ten seconds that end a microsecond before a second does, looked at every half second from there. -/
def endOfSecond : Env where
  nzero := 20
  arg := none
  start := ⟨0, 999999⟩
  pid := 1
  nice := fun _ => (0, 0)
  clock := fun k => ⟨11, min (k * 500000) 999999⟩

/-- The first reading is late, and the process leaves at the third. -/
theorem endOfSecond_overruns : endOfSecond.loops = true ∧ Clocked endOfSecond ∧ FirstLate endOfSecond 0 ∧
    Leaves endOfSecond 2 ∧ ¬ ∀ k, Leaves endOfSecond k ↔ FirstLate endOfSecond k := by
  have hnormalised : ∀ k, Normalised (endOfSecond.clock k) := fun k => by
    change 0 ≤ min ((k : Int) * 500000) 999999 ∧ min ((k : Int) * 500000) 999999 < 1000000
    omega
  have hnext : ∀ k, Reached (endOfSecond.clock k) (endOfSecond.clock (k + 1)) := fun k => by
    refine .inr ⟨rfl, ?_⟩
    change min ((k : Int) * 500000) 999999 ≤ min (((k + 1 : Nat) : Int) * 500000) 999999
    omega
  have hfirst : FirstLate endOfSecond 0 := ⟨.inl (by decide), fun j hj => absurd hj (Nat.not_lt_zero j)⟩
  have hlate : Leaves endOfSecond 2 := ⟨3, _, rfl⟩
  refine ⟨by decide, ⟨⟨by decide, by decide⟩, hnormalised, .inl (by decide), hnext⟩, hfirst, hlate, fun h => ?_⟩
  exact ((h 2).1 hlate).2 0 (by decide) hfirst.1

end Ch08Nice
end Cc
