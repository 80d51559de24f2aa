import CCplusplus.MySortRefine
/-!
# MySortOverflow — when the sorts' `int` products overflow

`get_elem`, `my_partition` and `do_merge` multiply an `int` by `elem_size` in `int`.  The array-level sorts have no fault
but running out of fuel (`Arr.doQsort_onlyFuel`, `Arr.doMyMergeSort_onlyFuel`), so the byte-level ones, which run them,
never overflow where the largest product is an `int`; where it is not, they come to it (`myQsort_overflows`,
`myMergeSort_overflows`).
-/
namespace Cc
namespace MySort

open CLib

namespace Arr

variable {α : Type}

theorem scanHight_onlyFuel (cmp : α → α → Int) (fuel : Nat) (a : Int → α) (begin low hight : Int) :
    OnlyFuel (scanHight cmp fuel a begin low hight) :=
  .whileLoop (fun _ => .ite (.ok _) (.ok _)) (fun _ => .ok _) fuel hight

theorem scanLow_onlyFuel (cmp : α → α → Int) (fuel : Nat) (a : Int → α) (begin hight low : Int) :
    OnlyFuel (scanLow cmp fuel a begin hight low) :=
  .whileLoop (fun _ => .ite (.ok _) (.ok _)) (fun _ => .ok _) fuel low

theorem partitionTurn_onlyFuel (cmp : α → α → Int) (fuel : Nat) (begin : Int) (s : (Int → α) × Int × Int) :
    OnlyFuel (partitionTurn cmp fuel begin s) := by
  obtain ⟨a, low, hight⟩ := s
  unfold partitionTurn
  refine (scanHight_onlyFuel cmp fuel a begin low hight).bind (fun h => ?_)
  refine (scanLow_onlyFuel cmp fuel a begin h low).bind (fun l => ?_)
  exact .ite (.ok _) (.ok _)

theorem myPartition_onlyFuel (cmp : α → α → Int) (fuel : Nat) (a : Int → α) (begin end_ : Int) :
    OnlyFuel (myPartition cmp fuel a begin end_) := by
  unfold myPartition
  refine OnlyFuel.bind (.whileLoop (fun _ => .ok _) (partitionTurn_onlyFuel cmp fuel begin) fuel _) (fun s => ?_)
  obtain ⟨a', low, hight⟩ := s
  exact .ite (.ok _) (.ok _)

theorem doQsort_onlyFuel (cmp : α → α → Int) : ∀ (fuel : Nat) (a : Int → α) (begin end_ : Int),
    OnlyFuel (doQsort cmp fuel a begin end_)
  | 0, _, _, _ => .outOfFuel
  | fuel + 1, a, begin, end_ => by
    unfold doQsort
    refine .ite (.ok _) ((myPartition_onlyFuel cmp fuel a begin end_).bind (fun s => ?_))
    obtain ⟨a', pivotIndex⟩ := s
    refine (doQsort_onlyFuel cmp fuel a' begin (pivotIndex - 1)).bind (fun a'' => ?_)
    exact doQsort_onlyFuel cmp fuel a'' (pivotIndex + 1) end_

theorem mergeTurn_onlyFuel (cmp : α → α → Int) (a : Int → α) (middle to_ i : Int) (s : (Int → α) × Int × Int) :
    OnlyFuel (mergeTurn cmp a middle to_ i s) := by
  obtain ⟨tmp, leftIndex, rightIndex⟩ := s
  exact .ite (.ok _) (.ite (.ok _) (.ite (.ok _) (.ok _)))

theorem doMerge_onlyFuel (cmp : α → α → Int) (a : Int → α) (from_ to_ : Int) :
    OnlyFuel (doMerge cmp a from_ to_) := by
  unfold doMerge
  refine .ite (.ok _) (OnlyFuel.bind (.forLoop (mergeTurn_onlyFuel cmp a _ to_) _ _ _) (fun s => ?_))
  obtain ⟨tmp, leftIndex, rightIndex⟩ := s
  exact .forLoop (fun _ _ => .ok _) _ _ _

theorem doMyMergeSort_onlyFuel (cmp : α → α → Int) : ∀ (fuel : Nat) (a : Int → α) (from_ to_ : Int),
    OnlyFuel (doMyMergeSort cmp fuel a from_ to_)
  | 0, _, _, _ => .outOfFuel
  | fuel + 1, a, from_, to_ => by
    unfold doMyMergeSort
    refine .ite (.ok _) (.ite (.ite (.ok _) (.ok _)) ?_)
    refine (doMyMergeSort_onlyFuel cmp fuel a from_ _).bind (fun a' => ?_)
    refine (doMyMergeSort_onlyFuel cmp fuel a' _ to_).bind (fun a'' => ?_)
    exact doMerge_onlyFuel cmp a'' from_ to_

end Arr

variable {elemSize : Nat}

/-! ## Where the largest product is an `int` -/

theorem product_le {i k : Int} (hi : i ≤ k) (hk : k * elemSize ≤ INT_MAX) : i * elemSize ≤ INT_MAX :=
  Int.le_trans (Int.mul_le_mul_of_nonneg_right hi (by omega)) hk

theorem myQsort_fits {m : Mem} {base : Ptr} {size : Nat} (cmpfn : CmpFn elemSize)
    (hlive : 0 < size → m.valid base (size * elemSize) = true)
    (h : size ≤ 1 ∨ ((size : Int) - 1) * elemSize ≤ INT_MAX) (fuel : Nat) :
    myQsort fuel m base size cmpfn ≠ .error .overflow := by
  rcases Nat.eq_zero_or_pos size with rfl | hpos
  · cases fuel <;> simp [myQsort, doQsort]
  have haddr : Addressable (fun _ => False) m base size elemSize := by
    refine ⟨hlive hpos, .inr (fun i h0 h1 => ?_)⟩
    rcases h with h | h
    · exact product_le (k := 0) (by omega) (by simp [INT_MAX])
    · exact product_le (by omega) h
  have hagree := doQsort_agree cmpfn haddr fuel m (elems m base elemSize) 0 (size - 1) ⟨.refl _ _ _, rfl⟩
    (Int.le_refl _) (by omega)
  intro he
  rcases hagree.fault (Arr.doQsort_onlyFuel cmpfn fuel _ _ _) he with h | h
  · cases h
  · exact h

theorem myMergeSort_fits {m : Mem} {base : Ptr} {size : Nat} (cmpfn : CmpFn elemSize)
    (helem : (elemSize : Int) ≤ INT_MAX) (hlive : 0 < size → m.valid base (size * elemSize) = true)
    (h : size ≤ 2 ∨ (size : Int) * elemSize ≤ INT_MAX) (fuel : Nat) :
    myMergeSort fuel m base size cmpfn ≠ .error .overflow := by
  rcases Nat.eq_zero_or_pos size with rfl | hpos
  · cases fuel <;> simp [myMergeSort, doMyMergeSort]
  have haddr : Addressable (Refused m) m base size elemSize := by
    refine ⟨hlive hpos, .inr (fun i h0 h1 => ?_)⟩
    rcases h with h | h
    · exact product_le (k := 1) (by omega) (by rwa [Int.one_mul])
    · exact product_le (by omega) h
  have hagree := doMyMergeSort_agree cmpfn haddr (fun _ he => he) (fun h3 => .inr (h.resolve_left (by omega))) fuel m
    (elems m base elemSize) 0 (size - 1) ⟨.refl _ _ _, rfl⟩ (Int.le_refl _) (by omega)
  intro he
  rcases hagree.fault (Arr.doMyMergeSort_onlyFuel cmpfn fuel _ _ _) he with h | h
  · cases h
  · cases h.1

/-! ## Where it is not -/

section Overflows

variable (m : Mem) (base : Ptr) {size : Nat} (cmpfn : CmpFn elemSize)

/-- `my_partition` begins with the address of the last element. -/
theorem myPartition_overflows (h2 : 2 ≤ size) (h : INT_MAX < ((size : Int) - 1) * elemSize) {fuel : Nat}
    (hfuel : 1 ≤ fuel) : myPartition fuel m base 0 ((size : Int) - 1) cmpfn = .error .overflow := by
  obtain ⟨n, rfl⟩ : ∃ n, fuel = n + 1 := ⟨fuel - 1, by omega⟩
  have hscan : ∀ pivot, scanHight (n + 1) m base pivot cmpfn 0 ((size : Int) - 1) = .error .overflow := by
    intro pivot
    unfold scanHight whileLoop
    rw [if_pos (by omega)]
    unfold getElem
    rw [imul_overflow h]
    rfl
  have hturn : ∀ pivot, partitionTurn (n + 1) base pivot cmpfn (m, 0, (size : Int) - 1) = .error .overflow := by
    intro pivot
    unfold partitionTurn
    simp only [hscan]
    rfl
  unfold myPartition
  rw [imul_ok (by omega) (by simp [INT_MAX]), ok_bind]
  unfold whileLoop
  simp only [pure_eq_ok, ok_bind, show (0 : Int) < (size : Int) - 1 by omega, decide_true, hturn]
  rfl

theorem myQsort_overflows (h2 : 2 ≤ size) (h : INT_MAX < ((size : Int) - 1) * elemSize) {fuel : Nat}
    (hfuel : 2 ≤ fuel) : myQsort fuel m base size cmpfn = .error .overflow := by
  obtain ⟨n, rfl⟩ : ∃ n, fuel = n + 1 := ⟨fuel - 1, by omega⟩
  unfold myQsort doQsort
  rw [if_neg (by omega), myPartition_overflows m base cmpfn h2 h (by omega)]
  rfl

variable {m base}

/-- A merge sort that is refused nothing returns, or it overflows. -/
theorem doMyMergeSort_ends (hlive : m.valid base (size * elemSize) = true) (hos : ∀ k, m.os k ≠ .refuse)
    (fuel : Nat) (m' : Mem) (a : Int → Elem elemSize) (from_ to_ : Int) (hm : Holds m base size m' a) (h0 : 0 ≤ from_)
    (hto : to_ < size) (hfuel : (to_ - from_).toNat + 1 ≤ fuel) :
    (∃ m'' : Mem, doMyMergeSort fuel m' base from_ to_ cmpfn = .ok m'' ∧
      ∃ a' : Int → Elem elemSize, Holds m base size m'' a') ∨
    doMyMergeSort fuel m' base from_ to_ cmpfn = .error .overflow := by
  obtain ⟨a', ha, -, -⟩ := Arr.doMyMergeSort_spec cmpfn fuel a from_ to_ hfuel
  have hagree := doMyMergeSort_agree (E := fun e => e = .overflow ∨ Refused m e) cmpfn ⟨hlive, .inl (.inl rfl)⟩
    (fun _ => .inr) (fun _ => .inl (.inl rfl)) fuel m' a from_ to_ hm h0 hto
  rw [ha] at hagree
  rcases hagree.of_ok with ⟨m'', hm'', hholds⟩ | ⟨e, he, rfl | ⟨-, k, hk⟩⟩
  · exact .inl ⟨m'', hm'', a', hholds⟩
  · exact .inr he
  · exact absurd hk (hos k)

/-- After its two halves `do_merge` multiplies the whole size. -/
theorem myMergeSort_overflows (hlive : m.valid base (size * elemSize) = true) (hos : ∀ k, m.os k ≠ .refuse)
    (h3 : 3 ≤ size) (h : INT_MAX < (size : Int) * elemSize) {fuel : Nat} (hfuel : size + 1 ≤ fuel) :
    myMergeSort fuel m base size cmpfn = .error .overflow := by
  obtain ⟨n, rfl⟩ : ∃ n, fuel = n + 1 := ⟨fuel - 1, by omega⟩
  have hmerge : ∀ m', doMerge m' base 0 ((size : Int) - 1) cmpfn = .error .overflow := by
    intro m'
    unfold doMerge
    rw [if_neg (by omega), show (size : Int) - 1 - 0 + 1 = size by omega, imul_overflow h]
    rfl
  unfold myMergeSort doMyMergeSort
  rw [if_neg (by omega), if_neg (by omega)]
  generalize hmid : 0 + ((size : Int) - 1 - 0) / 2 = middle
  dsimp only
  rcases doMyMergeSort_ends cmpfn hlive hos n m (elems m base elemSize) 0 middle ⟨.refl _ _ _, rfl⟩ (Int.le_refl 0)
    (by omega) (by omega) with ⟨m₁, h₁, a₁, hm₁⟩ | h₁
  · rw [h₁, ok_bind]
    rcases doMyMergeSort_ends cmpfn hlive hos n m₁ a₁ (middle + 1) (size - 1) hm₁ (by omega) (by omega)
      (by omega) with ⟨m₂, h₂, -⟩ | h₂
    · rw [h₂, ok_bind, hmerge]
    · rw [h₂]
      rfl
  · rw [h₁]
    rfl

end Overflows

/-! ## The sorts' products in `int` -/

/-- **When the sorts compute every product in `int`.**  On `size` elements that lie in one live block, `my_qsort` never
overflows, whatever the comparator, if and only if the offset of the last element is an `int`, or there is none beside
the first; `my_merge_sort` never does, whatever the system answers, if and only if the size of the array is an `int`, or
nothing is merged. -/
theorem sorts_products_iff (m : Mem) (base : Ptr) (size : Nat) (cmpfn : CmpFn elemSize)
    (helem : (elemSize : Int) ≤ INT_MAX) (hlive : 0 < size → m.valid base (size * elemSize) = true) :
    ((∀ fuel, myQsort fuel m base size cmpfn ≠ .error .overflow) ↔
      size ≤ 1 ∨ ((size : Int) - 1) * elemSize ≤ INT_MAX) ∧
    ((∀ os fuel, myMergeSort fuel { m with os := os } base size cmpfn ≠ .error .overflow) ↔
      size ≤ 2 ∨ (size : Int) * elemSize ≤ INT_MAX) := by
  refine ⟨⟨fun h => ?_, fun h fuel => myQsort_fits cmpfn hlive h fuel⟩,
    ⟨fun h => ?_, fun h os fuel => myMergeSort_fits (m := { m with os := os }) cmpfn helem hlive h fuel⟩⟩
  · by_contra hn
    rw [not_or, Int.not_le] at hn
    exact h 2 (myQsort_overflows m base cmpfn (by omega) hn.2 (Nat.le_refl 2))
  · by_contra hn
    rw [not_or, Int.not_le] at hn
    let m' : Mem := { m with os := fun _ => .grant (fun _ => 0) false }
    have hos : ∀ k, m'.os k ≠ .refuse := fun k hk => by cases hk
    exact h m'.os (size + 1)
      (myMergeSort_overflows (m := m') cmpfn (hlive (by omega)) hos (by omega) hn.2 (Nat.le_refl _))

theorem sorts_products_iff_three :
    ((∀ fuel, myQsort fuel threeElems ⟨0, 0⟩ (3 : Nat) cmpFirst ≠ .error .overflow) ↔
      3 ≤ 1 ∨ (((3 : Nat) : Int) - 1) * (2 : Nat) ≤ INT_MAX) ∧
    ((∀ os fuel, myMergeSort fuel { threeElems with os := os } ⟨0, 0⟩ (3 : Nat) cmpFirst ≠ .error .overflow) ↔
      3 ≤ 2 ∨ ((3 : Nat) : Int) * (2 : Nat) ≤ INT_MAX) :=
  sorts_products_iff threeElems ⟨0, 0⟩ 3 cmpFirst (by decide) (fun _ => region_threeElems.live)

/-- 536870913 elements of four bytes, one element more than 2 GiB. -/
def beyond2GiB : Mem := Mem.single (536870913 * 4) (fun _ => 0) (fun _ => .grant (fun _ => 0) false)

/-- The last of them is at `base + 536870912 * 4`, which an `int` makes `base - 2147483648`. -/
theorem sorts_beyond2GiB :
    beyond2GiB.valid ⟨0, 0⟩ (536870913 * 4) = true ∧
    myQsort 2 beyond2GiB ⟨0, 0⟩ (536870913 : Nat) (fun _ _ => 0 : CmpFn 4) = .error .overflow ∧
    myMergeSort 536870914 beyond2GiB ⟨0, 0⟩ (536870913 : Nat) (fun _ _ => 0 : CmpFn 4) = .error .overflow ∧
    imul 536870912 4 = .error .overflow ∧ asInt (536870912 * 4) = -2147483648 := by
  have hlive : beyond2GiB.valid ⟨0, 0⟩ (536870913 * 4) = true := by decide
  refine ⟨hlive, ?_, ?_, by decide, by decide⟩
  · exact myQsort_overflows beyond2GiB ⟨0, 0⟩ _ (by decide) (by decide) (Nat.le_refl 2)
  · exact myMergeSort_overflows _ hlive (fun k hk => by cases hk) (by decide) (by decide) (by decide)

end MySort
end Cc
