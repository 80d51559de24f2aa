import CCplusplus.MySortRefine
import CCplusplus.MySortCompared
import CCplusplus.Lib.Bytes
/-!
# MySortInts — arrays of `int` sorted with `cmp_int`

`my_sort_test.c` sorts ints with `cmp_int`, a subtraction that wraps around.  Where the difference of two ints is no
`int`, `cmp_int` answers the wrong way round (`cmpInt_flips`), so an array comes out in order exactly when the sorts, run
with the true difference, compare no such pair (`sorts_ints_iff`).
-/
namespace Cc
namespace MySort

open CLib

/-- `*(int *)a` -/
def readInt (x : Elem 4) : Int := (ofLe [x 0, x 1, x 2, x 3] : Int).bmod 4294967296

def cmpInt : CmpFn 4 := fun a b => (readInt a - readInt b).bmod 4294967296

/-- The subtraction as it should be. -/
def difference : CmpFn 4 := fun a b => readInt a - readInt b

/-- The difference of two elements is an `int`. -/
def Near (a b : Elem 4) : Prop := isInt (readInt a - readInt b) = true

theorem readInt_isInt (x : Elem 4) : -2147483648 ≤ readInt x ∧ readInt x ≤ 2147483647 := by
  have hlo := Int.le_bmod (x := (ofLe [x 0, x 1, x 2, x 3] : Int)) (by decide : 0 < 4294967296)
  have hhi := Int.bmod_lt (x := (ofLe [x 0, x 1, x 2, x 3] : Int)) (by decide : 0 < 4294967296)
  unfold readInt
  omega

theorem near_iff (a b : Elem 4) : Near a b ↔ -2147483648 ≤ difference a b ∧ difference a b ≤ 2147483647 := by
  unfold Near isInt INT_MAX difference
  simp only [Bool.and_eq_true, decide_eq_true_eq]

theorem difference_preorder : TotalPreorder difference := TotalPreorder.of_sub readInt

/-- **`cmp_int` is right on the pairs whose difference is an `int`**, and wrong on all others. -/
theorem cmpInt_flips : FlipsOff Near difference cmpInt where
  agree := fun a b h => by
    rw [near_iff] at h
    unfold difference at h
    exact Int.bmod_eq_of_le (by omega) (by omega)
  flip := fun a b h => by
    have ha := readInt_isInt a
    have hb := readInt_isInt b
    rw [near_iff] at h
    unfold cmpInt
    unfold difference at *
    rw [Int.bmod_def]
    omega

/-- `array[0] <= array[1] <= …` -/
def NonDecreasing (m : Mem) (base : Ptr) (size : Nat) : Prop :=
  (contents m base size 4).Pairwise (fun a b => readInt a ≤ readInt b)

theorem nonDecreasing_iff (m : Mem) (base : Ptr) (size : Nat) :
    NonDecreasing m base size ↔ (contents m base size 4).Pairwise (fun a b => difference a b ≤ 0) := by
  unfold NonDecreasing difference
  have he : ∀ a b : Elem 4, readInt a ≤ readInt b ↔ readInt a - readInt b ≤ 0 := fun a b => by omega
  simp only [he]

/-- The condition on an array, for the quick sort: every element of a range differs from the pivot by an `int`. -/
def QuickNear (fuel : Nat) (m : Mem) (base : Ptr) (size : Nat) : Prop :=
  Arr.quickMeets Near difference fuel (elems m base 4) 0 (size - 1)

/-- The condition on an array, for the merge sort: the heads of two sorted halves differ by an `int` each time they are
compared. -/
def MergeNear (m : Mem) (base : Ptr) (size : Nat) : Prop :=
  sortMeets Near (leq difference) (contents m base size 4)

theorem pairwise_seg_iff {α : Type} {a : Int → α} {R : α → α → Prop} {n : Nat} :
    (seg a 0 n).Pairwise R ↔ ∀ i j, 0 ≤ i → i < j → j ≤ (n : Int) - 1 → R (a i) (a j) := by
  refine ⟨fun h i j h1 h2 h3 => ?_, fun h => pairwise_seg (fun i j h1 h2 h3 => h i j h1 h2 (by omega))⟩
  have hi := getElem?_seg a 0 n i.toNat (by omega)
  have hj := getElem?_seg a 0 n j.toNat (by omega)
  rw [Int.zero_add, Int.toNat_of_nonneg (by omega)] at hi hj
  have hr := List.pairwise_iff_getElem.1 h i.toNat j.toNat (by rw [length_seg]; omega) (by rw [length_seg]; omega)
    (by omega)
  rw [List.getElem?_eq_getElem (by rw [length_seg]; omega)] at hi hj
  rwa [Option.some.inj hi, Option.some.inj hj] at hr

theorem myQsort_ints {m : Mem} {base : Ptr} {size : Nat} (hr : Region m base size 4) {fuel : Nat}
    (hfuel : size + 2 ≤ fuel) :
    ∃ m', myQsort fuel m base size cmpInt = .ok m' ∧ (NonDecreasing m' base size ↔ QuickNear fuel m base size) := by
  have hrefl : ∀ x, cmpInt x x = 0 := fun x =>
    (cmpInt_flips.agree x x (cmpInt_flips.self (difference_preorder.refl x))).trans (difference_preorder.refl x)
  obtain ⟨a', ha, -, -⟩ := Arr.doQsort_spec hrefl fuel (elems m base 4) 0 (size - 1) (by omega)
  obtain ⟨m', hm, hcontents, -⟩ := myQsort_contents hr ha
  refine ⟨m', hm, ?_⟩
  rw [nonDecreasing_iff, hcontents, pairwise_seg_iff]
  exact Arr.doQsort_sorted_iff cmpInt_flips difference_preorder (by omega) ha

theorem myMergeSort_ints {m : Mem} {base : Ptr} {size : Nat} (hr : Region m base size 4) {fuel : Nat}
    (hfuel : size + 1 ≤ fuel) :
    (∃ m', myMergeSort fuel m base size cmpInt = .ok m' ∧ (NonDecreasing m' base size ↔ MergeNear m base size)) ∨
      (myMergeSort fuel m base size cmpInt = .error .assertion ∧ ∃ k, m.os k = .refuse) := by
  rcases myMergeSort_contents cmpInt hr hfuel with ⟨m', hm, hcontents, -⟩ | hno
  · refine .inl ⟨m', hm, ?_⟩
    rw [nonDecreasing_iff, hcontents]
    exact mergeSort_sorted_iff cmpInt_flips difference_preorder _
  · exact .inr hno

/-- **The sorts leave ints in order exactly when they compare no pair whose difference is no `int`**, in an array of at most
`INT_MAX` bytes (`size * 4`, the bound of `Region`). -/
theorem sorts_ints_iff (m : Mem) (base : Ptr) (size : Nat) (hr : Region m base size 4) (fuel : Nat)
    (hfuel : size + 2 ≤ fuel) :
    (∃ m', myQsort fuel m base size cmpInt = .ok m' ∧ (NonDecreasing m' base size ↔ QuickNear fuel m base size)) ∧
    ((∃ m', myMergeSort fuel m base size cmpInt = .ok m' ∧ (NonDecreasing m' base size ↔ MergeNear m base size)) ∨
      (myMergeSort fuel m base size cmpInt = .error .assertion ∧ ∃ k, m.os k = .refuse)) :=
  ⟨myQsort_ints hr hfuel, myMergeSort_ints hr (by omega)⟩

/-- **Where any two ints differ by an `int`**, both conditions hold. -/
theorem near_of_forall {m : Mem} {base : Ptr} {size : Nat} {fuel : Nat} (hfuel : size + 2 ≤ fuel)
    (h : ∀ i j, 0 ≤ i → i < (size : Int) → 0 ≤ j → j < (size : Int) → Near (elems m base 4 i) (elems m base 4 j)) :
    QuickNear fuel m base size ∧ MergeNear m base size := by
  refine ⟨Arr.quickMeets_of_forall difference_preorder.refl fuel _ 0 _ (by omega) (fun i j hi1 hi2 hj1 hj2 =>
    h i j hi1 (by omega) hj1 (by omega)), sortMeets_of_forall _ (fun x hx y hy => ?_)⟩
  obtain ⟨i, hi1, hi2, rfl⟩ := mem_seg.1 hx
  obtain ⟨j, hj1, hj2, rfl⟩ := mem_seg.1 hy
  exact h i j hi1 (by omega) hj1 (by omega)

/-- `{ INT_MIN, 1 }`, little-endian. -/
def minOne : Mem :=
  Mem.single 8 (fun o => if o = 3 then 128 else if o = 4 then 1 else 0) (fun _ => .grant (fun _ => 0) false)

theorem region_minOne : Region minOne ⟨0, 0⟩ 2 4 := ⟨by decide, by decide⟩

theorem sorts_ints_iff_minOne :
    ∃ m', myQsort 4 minOne ⟨0, 0⟩ (2 : Nat) cmpInt = .ok m' ∧
      (NonDecreasing m' ⟨0, 0⟩ 2 ↔ QuickNear 4 minOne ⟨0, 0⟩ 2) :=
  (sorts_ints_iff minOne ⟨0, 0⟩ 2 region_minOne 4 (by decide)).1

/-- **`{ INT_MIN, 1 }` is left out of order** by both sorts. -/
theorem sorts_ints_minOne :
    (∃ m', myQsort 4 minOne ⟨0, 0⟩ (2 : Nat) cmpInt = .ok m' ∧ ¬ NonDecreasing m' ⟨0, 0⟩ 2) ∧
    ∃ m', myMergeSort 4 minOne ⟨0, 0⟩ (2 : Nat) cmpInt = .ok m' ∧ ¬ NonDecreasing m' ⟨0, 0⟩ 2 := by
  constructor
  · obtain ⟨m', hm, hiff⟩ := myQsort_ints region_minOne (by decide : 2 + 2 ≤ 4)
    refine ⟨m', hm, fun hs => ?_⟩
    have hnear := ((hiff.1 hs) (by decide)).1 1 (by decide) (by decide)
    exact absurd hnear (by unfold Near; decide)
  · rcases myMergeSort_ints region_minOne (by decide : 2 + 1 ≤ 4) with ⟨m', hm, hiff⟩ | ⟨-, k, hk⟩
    · refine ⟨m', hm, fun hs => ?_⟩
      have hmeets := hiff.1 hs
      unfold MergeNear contents seg seg seg sortMeets at hmeets
      have hmerge := hmeets.2.2
      simp only [List.length_cons, List.length_nil, Nat.reduceAdd, Nat.reduceDiv, List.take_succ_cons, List.take_zero,
        List.drop_succ_cons, List.drop_zero, List.mergeSort_singleton, mergeMeets] at hmerge
      exact absurd hmerge.1 (by unfold Near; decide)
    · cases hk

end MySort
end Cc
