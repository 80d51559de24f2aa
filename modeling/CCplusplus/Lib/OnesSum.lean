import Mathlib.Algebra.GroupWithZero.Nat
import Mathlib.Data.Nat.Basic
import Mathlib.Algebra.BigOperators.Group.List.Basic
import Mathlib.Tactic.Common
/-!
# OnesSum — one's-complement addition

Addition with end-around carry on `M + 1 = 2^w` values, and the sum of a list under it.  That sum is determined by the
ordinary one: it is its representative modulo `M` among `1 … M`, and `0` only for a list of zeros (`onesSum_eq`), so of
the two zeros `0` and `M` a list with anything in it gives `M`.
-/
namespace CLib

/-- Addition on `0 … M` with end-around carry. -/
def endAround (M x y : Nat) : Nat := (x + y) % (M + 1) + (x + y) / (M + 1)

def onesSum (M : Nat) (l : List Nat) : Nat := l.foldl (endAround M) 0

/-- `s` reduced into `1 … M`, and `0` as itself. -/
def onesRep (M s : Nat) : Nat := if s = 0 then 0 else (s - 1) % M + 1

theorem onesRep_zero (M : Nat) : onesRep M 0 = 0 := if_pos rfl

theorem onesRep_of_pos {M s : Nat} (h : 0 < s) : onesRep M s = (s - 1) % M + 1 := if_neg (by omega)

theorem onesRep_le {M : Nat} (hM : 0 < M) (s : Nat) : onesRep M s ≤ M := by
  unfold onesRep
  split
  · exact Nat.zero_le M
  · exact Nat.mod_lt _ hM

theorem onesRep_of_le {M s : Nat} (h : s ≤ M) : onesRep M s = s := by
  unfold onesRep
  split
  · rename_i h0; exact h0.symm
  · rw [Nat.mod_eq_of_lt (by omega)]; omega

/-- **End-around carry adds modulo `M`**, and keeps away from the zero `0`. -/
theorem endAround_eq {M x y : Nat} (hx : x ≤ M) (hy : y ≤ M) : endAround M x y = onesRep M (x + y) := by
  unfold endAround
  rcases Nat.lt_or_ge (x + y) (M + 1) with h | h
  · rw [Nat.mod_eq_of_lt h, Nat.div_eq_of_lt h, onesRep_of_le (by omega)]; rfl
  · have hmod : (x + y) % (M + 1) = x + y - (M + 1) := by
      rw [Nat.mod_eq_sub_mod h, Nat.mod_eq_of_lt (by omega)]
    have hdiv : (x + y) / (M + 1) = 1 := Nat.div_eq_of_lt_le (by omega) (by omega)
    rw [hmod, hdiv, onesRep_of_pos (by omega)]
    rw [show x + y - 1 = x + y - 1 - M + M by omega, Nat.add_mod_right, Nat.mod_eq_of_lt (by omega)]; omega

theorem onesRep_add (M s t : Nat) : onesRep M (onesRep M s + t) = onesRep M (s + t) := by
  rcases Nat.eq_zero_or_pos s with rfl | hs
  · rw [onesRep_zero]
  · rw [onesRep_of_pos hs, onesRep_of_pos (by omega), onesRep_of_pos (by omega)]
    rw [show (s - 1) % M + 1 + t - 1 = (s - 1) % M + t by omega, Nat.mod_add_mod, show s - 1 + t = s + t - 1 by omega]

theorem foldl_endAround {M : Nat} (hM : 0 < M) : ∀ (l : List Nat) (s : Nat), (∀ x ∈ l, x ≤ M) →
    l.foldl (endAround M) (onesRep M s) = onesRep M (s + l.sum)
  | [], s, _ => by simp
  | x :: l, s, h => by
    rw [List.foldl_cons, endAround_eq (onesRep_le hM s) (h x List.mem_cons_self), onesRep_add,
      foldl_endAround hM l (s + x) (fun y hy => h y (List.mem_cons_of_mem x hy)), List.sum_cons, Nat.add_assoc]

/-- **The one's-complement sum from the ordinary one.** -/
theorem onesSum_eq {M : Nat} (hM : 0 < M) {l : List Nat} (h : ∀ x ∈ l, x ≤ M) : onesSum M l = onesRep M l.sum := by
  have := foldl_endAround hM l 0 h
  rwa [onesRep_zero, Nat.zero_add] at this

/-- A sum completed by its own complement is the zero `M`. -/
theorem onesRep_complement {M : Nat} (hM : 0 < M) (s : Nat) : onesRep M (s + (M - onesRep M s)) = M := by
  have hle := onesRep_le hM s
  rw [← onesRep_add, show onesRep M s + (M - onesRep M s) = M by omega, onesRep_of_le (Nat.le_refl M)]

end CLib
