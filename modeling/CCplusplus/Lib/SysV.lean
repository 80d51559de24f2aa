import Mathlib.Algebra.BigOperators.Ring.Finset
import Mathlib.Algebra.Order.BigOperators.Group.Finset
import Mathlib.Data.Fintype.BigOperators
import Mathlib.Tactic.Common
/-!
# SysV — a set of System V semaphores, and what the end of a process undoes

A set holds a value for each of its members and, for each process, what the end of that process adds to them (`adj`).
`semop` does its operations in their order, all of them or none; one with `undo` is accounted in `adj`.  What a
member holds and what all the processes would give back is its `total`: operations with `undo` keep it, and so does the
end of a process that gives back no more than there is and can be (`Moved.total`).
-/
namespace CLib

structure SemSet (P ι : Type) where
  val : ι → Nat
  /-- `semadj` -/
  adj : P → ι → Int

/-- `struct sembuf` -/
structure Sembuf (ι : Type) where
  num : ι
  op : Int
  undo : Bool

namespace SemSet

variable {P ι : Type} [DecidableEq P] [DecidableEq ι]

/-- A set that was just created. -/
def zero : SemSet P ι := ⟨fun _ => 0, fun _ _ => 0⟩

/-- `semop` that does nothing. -/
inductive Refused where
  | waits
  /-- `ERANGE` -/
  | range
deriving DecidableEq, Repr

/-- The most that a value is; what a process gives back is between `-SEMVMX - 1` and `SEMVMX`. -/
def SEMVMX : Nat := 32767

/-- One operation of a process. -/
def apply (S : SemSet P ι) (p : P) (b : Sembuf ι) : Except Refused (SemSet P ι) :=
  if b.op = 0 then if S.val b.num = 0 then .ok S else .error .waits
  else if (S.val b.num : Int) + b.op < 0 then .error .waits
  else if SEMVMX < (S.val b.num : Int) + b.op ∨
      b.undo ∧ (S.adj p b.num - b.op < -SEMVMX - 1 ∨ SEMVMX < S.adj p b.num - b.op) then .error .range
  else .ok {
    val := Function.update S.val b.num ((S.val b.num : Int) + b.op).toNat
    adj := if b.undo then Function.update S.adj p (Function.update (S.adj p) b.num (S.adj p b.num - b.op)) else S.adj }

def semop (S : SemSet P ι) (p : P) : List (Sembuf ι) → Except Refused (SemSet P ι)
  | [] => .ok S
  | b :: bs =>
    match S.apply p b with
    | .error e => .error e
    | .ok S' => S'.semop p bs

/-- `semctl(…, SETVAL, …)`: no process has to give back anything. -/
def setval (S : SemSet P ι) (i : ι) (v : Nat) : SemSet P ι where
  val := Function.update S.val i v
  adj := fun p => Function.update (S.adj p) i 0

/-- The end of a process; a value stays between 0 and `SEMVMX`. -/
def undo (S : SemSet P ι) (p : P) : SemSet P ι where
  val := fun i => min ((S.val i : Int) + S.adj p i).toNat SEMVMX
  adj := Function.update S.adj p (fun _ => 0)

omit [DecidableEq ι] in
@[simp] theorem undo_adj (S : SemSet P ι) (p q : P) (i : ι) : (S.undo p).adj q i = if q = p then 0 else S.adj q i := by
  by_cases h : q = p <;> simp [undo, h]

/-! ## What `semop` does -/

theorem apply_zero {S S' : SemSet P ι} {p : P} {i : ι} {u : Bool} (h : S.apply p ⟨i, 0, u⟩ = .ok S') :
    S.val i = 0 ∧ S' = S := by
  unfold apply at h
  rw [if_pos rfl] at h
  split at h
  · rename_i h0
    exact ⟨h0, (Except.ok.inj h).symm⟩
  · cases h

theorem semop_cons {S S' : SemSet P ι} {p : P} {b : Sembuf ι} {bs : List (Sembuf ι)}
    (h : S.semop p (b :: bs) = .ok S') : ∃ S₁, S.apply p b = .ok S₁ ∧ S₁.semop p bs = .ok S' := by
  unfold semop at h
  split at h
  · cases h
  · rename_i S₁ h₁
    exact ⟨S₁, h₁, h⟩

theorem semop_cons_range {S : SemSet P ι} {p : P} {b : Sembuf ι} {bs : List (Sembuf ι)}
    (h : S.semop p (b :: bs) = .error .range) :
    S.apply p b = .error .range ∨ ∃ S₁, S.apply p b = .ok S₁ ∧ S₁.semop p bs = .error .range := by
  unfold semop at h
  split at h
  · rename_i e he
    exact .inl (he.trans h)
  · rename_i S₁ h₁
    exact .inr ⟨S₁, h₁, h⟩

theorem apply_range {S : SemSet P ι} {p : P} {b : Sembuf ι} (h : S.apply p b = .error .range) :
    SEMVMX < S.val b.num + b.op ∨ S.adj p b.num - b.op < -SEMVMX - 1 ∨ SEMVMX < S.adj p b.num - b.op := by
  unfold apply at h
  split at h
  · split at h <;> cases h
  · split at h
    · cases h
    · split at h
      · rename_i hout
        exact hout.imp_right And.right
      · cases h

/-- A list of operations that begins with a wait for 0. -/
theorem semop_waits {S S' : SemSet P ι} {p : P} {i : ι} {u : Bool} {bs : List (Sembuf ι)}
    (h : S.semop p (⟨i, 0, u⟩ :: bs) = .ok S') : S.val i = 0 := by
  obtain ⟨S₁, h₁, -⟩ := semop_cons h
  exact (apply_zero h₁).1

/-- What the operations add to a member. -/
def delta : List (Sembuf ι) → ι → Int
  | [], _ => 0
  | b :: bs, j => (if b.num = j then b.op else 0) + delta bs j

/-- Every operation changes nothing, or is undone at the end of its process. -/
def Undone (bs : List (Sembuf ι)) : Prop := ∀ b ∈ bs, b.op = 0 ∨ b.undo = true

/-- A process has added `v` to a member, and would take it back. -/
structure Moved (S : SemSet P ι) (p : P) (j : ι) (v : Int) (S' : SemSet P ι) : Prop where
  val : (S'.val j : Int) = S.val j + v
  adj : ∀ q, S'.adj q j = if q = p then S.adj q j - v else S.adj q j

omit [DecidableEq ι] in
theorem Moved.refl (S : SemSet P ι) (p : P) (j : ι) : Moved S p j 0 S := ⟨by simp, fun q => by simp⟩

theorem apply_moved {S S' : SemSet P ι} {p : P} {b : Sembuf ι} (hb : b.op = 0 ∨ b.undo = true)
    (h : S.apply p b = .ok S') (j : ι) : Moved S p j (if b.num = j then b.op else 0) S' := by
  obtain ⟨i, v, u⟩ := b
  by_cases hv : v = 0
  · subst hv
    rw [(apply_zero h).2, ite_self]
    exact .refl S p j
  obtain rfl : u = true := hb.resolve_left hv
  unfold apply at h
  rw [if_neg hv] at h
  dsimp only at h
  split at h
  · cases h
  rename_i hneg
  split at h
  · cases h
  obtain rfl := Except.ok.inj h
  by_cases hj : i = j
  · subst hj
    refine ⟨?_, fun q => ?_⟩
    · dsimp only
      rw [Function.update_self, if_pos rfl]
      omega
    · by_cases hq : q = p
      · subst hq
        simp
      · simp [hq]
  · refine ⟨by simp [hj, Ne.symm hj], fun q => ?_⟩
    by_cases hq : q = p
    · subst hq
      simp [hj, Ne.symm hj]
    · simp [hq]

theorem semop_moved {p : P} (j : ι) : ∀ {bs : List (Sembuf ι)} {S S' : SemSet P ι}, Undone bs →
    S.semop p bs = .ok S' → Moved S p j (delta bs j) S'
  | [], S, S', _, h => by
    cases h
    exact .refl S p j
  | b :: bs, S, S', hb, h => by
    obtain ⟨S₁, h₁, h₂⟩ := semop_cons h
    have hfirst := apply_moved (hb b List.mem_cons_self) h₁ j
    have hrest := semop_moved j (fun b' hb' => hb b' (List.mem_cons_of_mem _ hb')) h₂
    refine ⟨?_, fun q => ?_⟩
    · rw [hrest.val, hfirst.val, delta, Int.add_assoc]
    · rw [hrest.adj, hfirst.adj, delta]
      split
      · rw [Int.sub_sub]
      · rfl

/-- Operations by 1 are in range where there is room for all of them. -/
theorem semop_ne_range {p : P} : ∀ {bs : List (Sembuf ι)} {S : SemSet P ι}, Undone bs →
    (∀ b ∈ bs, -1 ≤ b.op ∧ b.op ≤ 1) →
    (∀ b ∈ bs, (S.val b.num : Int) + bs.length ≤ SEMVMX ∧ -SEMVMX ≤ S.adj p b.num - bs.length ∧
      S.adj p b.num + bs.length ≤ SEMVMX) → S.semop p bs ≠ .error .range
  | [], _, _, _, _ => by
    intro h
    cases h
  | b :: bs, S, hundone, hone, hroom => by
    intro h
    have hb := hone b List.mem_cons_self
    have hroomb := hroom b List.mem_cons_self
    rw [List.length_cons] at hroomb
    rcases semop_cons_range h with hrange | ⟨S₁, h₁, hrest⟩
    · have hout := apply_range hrange
      omega
    · refine semop_ne_range (fun c hc => hundone c (List.mem_cons_of_mem _ hc))
        (fun c hc => hone c (List.mem_cons_of_mem _ hc)) (fun c hc => ?_) hrest
      have hmoved := apply_moved (hundone b List.mem_cons_self) h₁ c.num
      have hval := hmoved.val
      have hadj := hmoved.adj p
      have hroomc := hroom c (List.mem_cons_of_mem _ hc)
      rw [List.length_cons] at hroomc
      rw [if_pos rfl] at hadj
      split at hval <;> omega

theorem apply_waits {S : SemSet P ι} {p : P} {b : Sembuf ι} (h : S.apply p b = .error .waits) :
    b.op = 0 ∨ S.val b.num + b.op < 0 := by
  unfold apply at h
  split at h
  · rename_i hzero
    exact .inl hzero
  · split at h
    · rename_i hneg
      exact .inr hneg
    · split at h <;> cases h

/-- Operations on members of their own, each with enough there, do not wait. -/
theorem semop_ne_waits {p : P} : ∀ {bs : List (Sembuf ι)} {S : SemSet P ι}, Undone bs → (bs.map Sembuf.num).Nodup →
    (∀ b ∈ bs, b.op ≠ 0 ∧ 0 ≤ S.val b.num + b.op) → S.semop p bs ≠ .error .waits
  | [], _, _, _, _ => by
    intro h
    cases h
  | b :: bs, S, hundone, hnodup, henough => by
    intro h
    have hb := henough b List.mem_cons_self
    rw [List.map_cons, List.nodup_cons] at hnodup
    unfold semop at h
    split at h
    · rename_i e he
      rw [Except.error.inj h] at he
      have hwaits := apply_waits he
      omega
    · rename_i S₁ h₁
      refine semop_ne_waits (fun c hc => hundone c (List.mem_cons_of_mem _ hc)) hnodup.2 (fun c hc => ?_) h
      have hne : b.num ≠ c.num := fun heq => hnodup.1 (heq ▸ List.mem_map_of_mem hc)
      have hmoved := (apply_moved (hundone b List.mem_cons_self) h₁ c.num).val
      rw [if_neg hne, Int.add_zero] at hmoved
      rw [hmoved]
      exact henough c (List.mem_cons_of_mem _ hc)

omit [DecidableEq ι] in
/-- The end of a process that gives back no more than there is, and no more than there can be. -/
theorem undo_moved (S : SemSet P ι) (p : P) {j : ι} (h : 0 ≤ (S.val j : Int) + S.adj p j)
    (hmax : (S.val j : Int) + S.adj p j ≤ SEMVMX) : Moved S p j (S.adj p j) (S.undo p) := by
  refine ⟨?_, fun q => ?_⟩
  · unfold undo
    dsimp only
    omega
  rw [undo_adj]
  by_cases hq : q = p
  · simp [hq]
  · simp [hq]

/-! ## The total -/

variable [Fintype P]

/-- What a member holds, and what all the processes would give back. -/
def total (S : SemSet P ι) (i : ι) : Int := S.val i + ∑ p, S.adj p i

theorem sum_change {f g : P → Int} (p : P) (h : ∀ q, q ≠ p → g q = f q) : ∑ q, g q = ∑ q, f q + (g p - f p) := by
  have hg := Finset.add_sum_erase Finset.univ g (Finset.mem_univ p)
  have hf := Finset.add_sum_erase Finset.univ f (Finset.mem_univ p)
  have he : ∑ q ∈ Finset.univ.erase p, g q = ∑ q ∈ Finset.univ.erase p, f q :=
    Finset.sum_congr rfl (fun q hq => h q (Finset.ne_of_mem_erase hq))
  omega

omit [DecidableEq ι] in
/-- **What a process would take back keeps the total**, and so does taking it back. -/
theorem Moved.total {S S' : SemSet P ι} {p : P} {j : ι} {v : Int} (h : Moved S p j v S') : S'.total j = S.total j := by
  have hsum := sum_change (f := fun q => S.adj q j) (g := fun q => S'.adj q j) p
    (fun q hq => by rw [h.adj, if_neg hq])
  have hp := h.adj p
  rw [if_pos rfl] at hp
  unfold SemSet.total
  rw [hsum, h.val, hp]
  omega

omit [DecidableEq P] in
theorem total_setval_self (S : SemSet P ι) (i : ι) (v : Nat) : (S.setval i v).total i = v := by
  unfold total setval
  simp

omit [DecidableEq P] in
theorem total_setval_of_ne (S : SemSet P ι) {i j : ι} (h : j ≠ i) (v : Nat) : (S.setval i v).total j = S.total j := by
  unfold total setval
  simp [h]

end SemSet
end CLib
