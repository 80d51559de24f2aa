import Mathlib.Data.List.Perm.Basic
import Mathlib.Data.List.Basic
import Mathlib.Tactic.Common
/-!
# Compare — comparators and the stable sort they determine

A comparator answers with the sign of an `int`, as `qsort`'s does.  A total preorder has one stable sort
(`StableSort.unique`), and `List.mergeSort` computes it (`stableSort_mergeSort`).
-/
namespace CLib

variable {α : Type}

/-- The comparator of a total preorder. -/
structure TotalPreorder (cmp : α → α → Int) : Prop where
  refl : ∀ x, cmp x x = 0
  antisymm : ∀ x y, (cmp x y).sign = -(cmp y x).sign
  trans : ∀ x y z, cmp x y ≤ 0 → cmp y z ≤ 0 → cmp x z ≤ 0

/-- `x` may stand before `y`. -/
def leq (cmp : α → α → Int) (x y : α) : Bool := decide (cmp x y ≤ 0)

def eqv (cmp : α → α → Int) (x y : α) : Bool := decide (cmp x y = 0)

namespace TotalPreorder

variable {cmp : α → α → Int}

theorem nonneg_iff (h : TotalPreorder cmp) (x y : α) : 0 ≤ cmp x y ↔ cmp y x ≤ 0 := by
  have hs := h.antisymm x y
  rw [← Int.sign_nonneg_iff, ← Int.sign_nonpos_iff]
  omega

theorem eq_zero_of_le (h : TotalPreorder cmp) {x y : α} (h1 : cmp x y ≤ 0) (h2 : cmp y x ≤ 0) : cmp x y = 0 :=
  Int.le_antisymm h1 ((h.nonneg_iff x y).2 h2)

theorem le_of_eq_zero (h : TotalPreorder cmp) {x y : α} (h0 : cmp x y = 0) : cmp y x ≤ 0 :=
  (h.nonneg_iff x y).1 (by omega)

theorem leq_total (h : TotalPreorder cmp) (x y : α) : (leq cmp x y || leq cmp y x) = true := by
  have := h.nonneg_iff x y
  simp only [leq, Bool.or_eq_true, decide_eq_true_eq]
  omega

theorem leq_trans (h : TotalPreorder cmp) (x y z : α) (h1 : leq cmp x y = true) (h2 : leq cmp y z = true) :
    leq cmp x z = true := by
  simp only [leq, decide_eq_true_eq] at *
  exact h.trans x y z h1 h2

/-- Comparing by a number. -/
theorem of_sub (f : α → Int) : TotalPreorder (fun x y => f x - f y) where
  refl := fun x => Int.sub_self (f x)
  antisymm := fun x y => by rw [← Int.sign_neg, Int.neg_sub]
  trans := fun x y z h1 h2 => by omega

end TotalPreorder

/-! ## The stable sort -/

/-- `l'` is a stable sort of `l`: a permutation, in order, that keeps elements comparing equal in their order. -/
structure StableSort (cmp : α → α → Int) (l l' : List α) : Prop where
  perm : l'.Perm l
  sorted : l'.Pairwise (fun x y => cmp x y ≤ 0)
  stable : ∀ x, l'.filter (eqv cmp x) = l.filter (eqv cmp x)

theorem sorted_unique {cmp : α → α → Int} (hc : TotalPreorder cmp) : ∀ (l l' : List α), l.Perm l' →
    l.Pairwise (fun x y => cmp x y ≤ 0) → l'.Pairwise (fun x y => cmp x y ≤ 0) →
    (∀ x, l.filter (eqv cmp x) = l'.filter (eqv cmp x)) → l = l'
  | [], l', hp, _, _, _ => hp.nil_eq
  | a :: t, [], hp, _, _, _ => absurd hp.eq_nil (by simp)
  | a :: t, b :: t', hp, hs, hs', hf => by
    -- each head stands before everything in the other list, so the heads compare equal
    have hle : ∀ {c d : α} {u v : List α}, (c :: u).Perm (d :: v) → (c :: u).Pairwise (fun x y => cmp x y ≤ 0) →
        cmp c d ≤ 0 := by
      intro c d u v hp hs
      rcases List.mem_cons.1 (hp.mem_iff.2 (List.mem_cons_self (a := d))) with rfl | hd
      · exact Int.le_of_eq (hc.refl _)
      · exact List.rel_of_pairwise_cons hs hd
    have hab : cmp a b = 0 := hc.eq_zero_of_le (hle hp hs) (hle hp.symm hs')
    have hfa := hf a
    rw [List.filter_cons_of_pos (by simp [eqv, hc.refl]), List.filter_cons_of_pos (by simp [eqv, hab])] at hfa
    obtain ⟨rfl, -⟩ := List.cons.inj hfa
    have hp' : t.Perm t' := hp.cons_inv
    refine congrArg (a :: ·) (sorted_unique hc t t' hp' hs.of_cons hs'.of_cons (fun x => ?_))
    have hfx := hf x
    rw [List.filter_cons, List.filter_cons] at hfx
    split at hfx
    · exact (List.cons.inj hfx).2
    · exact hfx

/-- **A total preorder has one stable sort.** -/
theorem StableSort.unique {cmp : α → α → Int} (hc : TotalPreorder cmp) {l l₁ l₂ : List α} (h₁ : StableSort cmp l l₁)
    (h₂ : StableSort cmp l l₂) : l₁ = l₂ :=
  sorted_unique hc l₁ l₂ (h₁.perm.trans h₂.perm.symm) h₁.sorted h₂.sorted
    (fun x => (h₁.stable x).trans (h₂.stable x).symm)

theorem mergeSort_halves (le : α → α → Bool) : ∀ (l : List α), 2 ≤ l.length → l.mergeSort le =
    List.merge ((l.take ((l.length + 1) / 2)).mergeSort le) ((l.drop ((l.length + 1) / 2)).mergeSort le) le
  | [], h => absurd h (by simp)
  | [_], h => absurd h (by simp)
  | x :: y :: l, _ => by
    rw [List.mergeSort]
    simp only [List.MergeSort.Internal.splitInTwo, List.splitAt_eq]

/-- Merge sort of a list cut where merge sort cuts it. -/
theorem mergeSort_append (le : α → α → Bool) (X Y : List α) (h : X.length = (X.length + Y.length + 1) / 2)
    (h2 : 2 ≤ X.length + Y.length) : (X ++ Y).mergeSort le = List.merge (X.mergeSort le) (Y.mergeSort le) le := by
  rw [mergeSort_halves le (X ++ Y) (by rwa [List.length_append]), List.length_append, ← h, List.take_left,
    List.drop_left]

/-- **Merge sort computes the stable sort.** -/
theorem stableSort_mergeSort {cmp : α → α → Int} (hc : TotalPreorder cmp) (l : List α) :
    StableSort cmp l (l.mergeSort (leq cmp)) := by
  have hperm := List.mergeSort_perm l (leq cmp)
  refine ⟨hperm, ?_, fun x => ?_⟩
  · exact (List.pairwise_mergeSort hc.leq_trans hc.leq_total l).imp (fun h => by simpa [leq] using h)
  · -- the elements equal to `x` are a sorted sublist of `l`, which merge sort keeps
    have hsub : (l.filter (eqv cmp x)).Sublist (l.mergeSort (leq cmp)) := by
      refine List.sublist_mergeSort hc.leq_trans hc.leq_total ?_ List.filter_sublist
      refine List.pairwise_of_forall_mem_list (fun a ha b hb => ?_)
      have ha := (List.mem_filter.1 ha).2
      have hb := (List.mem_filter.1 hb).2
      simp only [eqv, leq, decide_eq_true_eq] at *
      exact hc.trans a x b (hc.le_of_eq_zero ha) (by omega)
    have hsub' := hsub.filter (eqv cmp x)
    rw [List.filter_filter, List.filter_congr (fun a _ => Bool.and_self _)] at hsub'
    exact (hsub'.eq_of_length (hperm.filter _).length_eq.symm).symm

end CLib
