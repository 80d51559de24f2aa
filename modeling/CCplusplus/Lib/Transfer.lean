import Mathlib.Tactic.Common
/-!
# Transfer — a transfer that is made in pieces

A call moves some of what is left, or nothing, or fails, and the transfer goes on until all is moved, or a call moves
nothing or fails (`move`).  The calls may move what they like: what was moved is the beginning of the source, in order,
and the value is its length, or -1 where the first call failed (`move_spec`).  `cut n` is a stream in pieces of `n`, as
calls move it that find all of it there.
-/
namespace CLib

variable {α : Type}

/-- `n` units from the source: `call nleft` is what a call returns where `nleft` are left. -/
def moveFrom (call : Nat → Int) (n : Nat) : Nat → Nat → List α → List α → Int × List α
  | 0, nleft, _, out => ((n : Int) - nleft, out)
  | fuel + 1, nleft, src, out =>
    if 0 < nleft then
      if call nleft < 0 then if nleft = n then (-1, out) else ((n : Int) - nleft, out)
      else
        -- no call moves more than it is asked for, or than there is
        let moved := min (call nleft).toNat (min nleft src.length)
        if moved = 0 then ((n : Int) - nleft, out)
        else moveFrom call n fuel (nleft - moved) (src.drop moved) (out ++ src.take moved)
    else ((n : Int) - nleft, out)

def move (call : Nat → Int) (n : Nat) (src : List α) : Int × List α := moveFrom call n n n src []

theorem moveFrom_spec (call : Nat → Int) (n : Nat) : ∀ (fuel nleft : Nat) (src out : List α), nleft ≤ n →
    out.length = n - nleft →
    ∃ k, k ≤ nleft ∧ (moveFrom call n fuel nleft src out).2 = out ++ src.take k ∧
      ((moveFrom call n fuel nleft src out).1 = (moveFrom call n fuel nleft src out).2.length ∨
        (moveFrom call n fuel nleft src out).1 = -1 ∧ (moveFrom call n fuel nleft src out).2 = [])
  | 0, nleft, src, out, hle, hout => ⟨0, Nat.zero_le _, by simp [moveFrom], .inl (by simp only [moveFrom]; omega)⟩
  | fuel + 1, nleft, src, out, hle, hout => by
    have hstop : ∃ k, k ≤ nleft ∧ ((n : Int) - nleft, out).2 = out ++ src.take k ∧
        (((n : Int) - nleft, out).1 = ((n : Int) - nleft, out).2.length ∨
          ((n : Int) - nleft, out).1 = -1 ∧ ((n : Int) - nleft, out).2 = []) :=
      ⟨0, Nat.zero_le _, by simp, .inl (by simp only; omega)⟩
    unfold moveFrom
    split
    · split
      · split
        · rename_i heq
          have hzero : out.length = 0 := by omega
          exact ⟨0, Nat.zero_le _, by simp, .inr ⟨rfl, List.length_eq_zero_iff.1 hzero⟩⟩
        · exact hstop
      · dsimp only
        split
        · exact hstop
        · generalize hm : min (call nleft).toNat (min nleft src.length) = moved
          have hlen : (out ++ src.take moved).length = n - (nleft - moved) := by
            rw [List.length_append, List.length_take]
            omega
          obtain ⟨k, hk, hmoved, hret⟩ := moveFrom_spec call n fuel (nleft - moved) (src.drop moved)
            (out ++ src.take moved) (by omega) hlen
          refine ⟨moved + k, by omega, ?_, hret⟩
          rw [hmoved, List.append_assoc, List.take_add]
    · exact hstop

/-- **What is moved is the beginning of the source**, and the value is how much it is. -/
theorem move_spec (call : Nat → Int) (n : Nat) (src : List α) :
    ∃ k, k ≤ n ∧ (move call n src).2 = src.take k ∧
      ((move call n src).1 = (move call n src).2.length ∨ (move call n src).1 = -1 ∧ (move call n src).2 = []) := by
  obtain ⟨k, hk, hmoved, hret⟩ := moveFrom_spec call n n n src [] (Nat.le_refl n) (by simp)
  exact ⟨k, hk, hmoved.trans (List.nil_append _), hret⟩

/-- All is moved where the value says so. -/
theorem move_all {call : Nat → Int} {src : List α} (h : (move call src.length src).1 = src.length) :
    (move call src.length src).2 = src := by
  obtain ⟨k, hk, hmoved, hret | ⟨hret, -⟩⟩ := move_spec call src.length src
  · have hlen : (src.take k).length = src.length := by
      rw [← hmoved]
      omega
    rw [List.length_take] at hlen
    rw [hmoved, List.take_of_length_le (by omega)]
  · omega

/-! ## A stream in pieces -/

def cutFrom (n : Nat) : Nat → List α → List (List α)
  | 0, _ => []
  | fuel + 1, s => if s.length = 0 then [] else s.take n :: cutFrom n fuel (s.drop n)

def cut (n : Nat) (s : List α) : List (List α) := cutFrom n s.length s

theorem cutFrom_flatten {n : Nat} (hn : 0 < n) : ∀ (fuel : Nat) (s : List α), s.length ≤ fuel →
    (cutFrom n fuel s).flatten = s
  | 0, s, h => (List.length_eq_zero_iff.1 (by omega) : s = []) ▸ rfl
  | fuel + 1, s, h => by
    unfold cutFrom
    split
    · rename_i hzero
      rw [List.length_eq_zero_iff.1 hzero]
      rfl
    · rw [List.flatten_cons, cutFrom_flatten hn fuel (s.drop n) (by rw [List.length_drop]; omega), List.take_append_drop]

theorem cut_flatten {n : Nat} (hn : 0 < n) (s : List α) : (cut n s).flatten = s :=
  cutFrom_flatten hn s.length s (Nat.le_refl _)

theorem cutFrom_ne_nil {n : Nat} (hn : 0 < n) : ∀ (fuel : Nat) (s : List α), ∀ p ∈ cutFrom n fuel s, p ≠ []
  | 0, _, p, h => by cases h
  | fuel + 1, s, p, h => by
    unfold cutFrom at h
    split at h
    · cases h
    · rename_i hne
      rcases List.mem_cons.1 h with rfl | h
      · intro hnil
        have hlen := congrArg List.length hnil
        rw [List.length_take, List.length_nil] at hlen
        omega
      · exact cutFrom_ne_nil hn fuel (s.drop n) p h

theorem cut_ne_nil {n : Nat} (hn : 0 < n) (s : List α) : ∀ p ∈ cut n s, p ≠ [] := cutFrom_ne_nil hn s.length s

/-- The last piece is what is left of the others, which have `n`. -/
theorem cutFrom_last {n : Nat} (hn : 0 < n) : ∀ (fuel : Nat) (s : List α), s.length ≤ fuel → s ≠ [] →
    ∃ first last, cutFrom n fuel s = first ++ [last] ∧ last.length = (s.length - 1) % n + 1
  | 0, s, h, hne => absurd (List.length_eq_zero_iff.1 (by omega)) hne
  | fuel + 1, s, h, hne => by
    have hpos : 0 < s.length := List.length_pos_iff.2 hne
    unfold cutFrom
    rw [if_neg (by omega)]
    by_cases hlast : s.length ≤ n
    · refine ⟨[], s.take n, ?_, ?_⟩
      · rw [List.drop_of_length_le hlast]
        cases fuel <;> simp [cutFrom]
      · rw [List.length_take, Nat.mod_eq_of_lt (by omega)]
        omega
    · have hdrop : (s.drop n).length = s.length - n := List.length_drop
      obtain ⟨first, last, hcut, hlen⟩ := cutFrom_last hn fuel (s.drop n) (by omega)
        (List.length_pos_iff.1 (by omega))
      refine ⟨s.take n :: first, last, by rw [hcut]; rfl, ?_⟩
      rw [hlen, hdrop, show s.length - 1 = s.length - n - 1 + n by omega, Nat.add_mod_right]

theorem cut_last {n : Nat} (hn : 0 < n) {s : List α} (hne : s ≠ []) :
    ∃ first last, cut n s = first ++ [last] ∧ last.length = (s.length - 1) % n + 1 :=
  cutFrom_last hn s.length s (Nat.le_refl _) hne

end CLib
