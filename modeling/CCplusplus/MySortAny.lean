import CCplusplus.MySortRefine
/-!
# MySortAny — the sorts with a comparator that is no order

All that is known of the comparator is `cmpfn(x, x) = 0`.  The sorts still end with a permutation of the elements
(`sorts_permute`).  That they stay off every byte outside the region is said twice: no such byte changes, and the same
run goes through in a memory where the region is a block of its own (`isolate`) and any other access is a fault.
-/
namespace Cc
namespace MySort

open CLib

variable {elemSize : Nat}

/-- The memory in which the `n` bytes at `base` are the whole of their block. -/
def isolate (m : Mem) (base : Ptr) (n : Nat) : Mem where
  byte := fun b o => if b = base.block then m.byte b (base.off + o) else m.byte b o
  size := fun b => if b = base.block then (m.size b).map (fun _ => n) else m.size b
  next := m.next
  os := m.os
  fresh := fun b h => by
    split
    · rw [m.fresh b h]
      rfl
    · exact m.fresh b h

theorem elems_isolate (m : Mem) (base : Ptr) (n : Nat) :
    elems (isolate m base n) ⟨base.block, 0⟩ elemSize = elems m base elemSize := by
  funext i k
  show (if base.block = base.block then _ else _) = m.byte base.block (base.off + i * elemSize + (k.val : Int))
  rw [if_pos rfl]
  simp only [Ptr.add_off, Int.zero_add, Int.add_assoc]
  rfl

theorem region_isolate {m : Mem} {base : Ptr} {size : Nat} (hr : Region m base size elemSize) :
    Region (isolate m base (size * elemSize)) ⟨base.block, 0⟩ size elemSize := by
  obtain ⟨s, hs, -⟩ := (Mem.valid_iff _ _ _).1 hr.live
  refine ⟨(Mem.valid_iff _ _ _).2 ⟨size * elemSize, ?_, Int.le_refl _, ?_⟩, hr.fits⟩
  · show (if base.block = base.block then _ else _) = _
    rw [if_pos rfl, hs]
    rfl
  · exact Int.le_of_eq (Int.zero_add _)

/-- What a sort owes when nothing is known of the order: it returns with a permutation of the elements and no byte
outside the region changed, or ends at the assertion that memory for `tmp` was granted. -/
def Permutes (m : Mem) (base : Ptr) (size elemSize : Nat) (r : Exec Mem) : Prop :=
  (∃ m', r = .ok m' ∧ (contents m' base size elemSize).Perm (contents m base size elemSize) ∧
    Mem.SameOutside base (size * elemSize) m m') ∨
  (r = .error .assertion ∧ ∃ k, m.os k = .refuse)

/-- Two runs that return leave the same elements. -/
def SameElems (base base₂ : Ptr) (size elemSize : Nat) (r r₂ : Exec Mem) : Prop :=
  ∀ m' m₂', r = .ok m' → r₂ = .ok m₂' → contents m' base size elemSize = contents m₂' base₂ size elemSize

theorem myQsort_permutes {m : Mem} {base : Ptr} {size : Nat} {cmpfn : CmpFn elemSize}
    (hr : Region m base size elemSize) (hrefl : ∀ x, cmpfn x x = 0) {fuel : Nat} (hfuel : size + 2 ≤ fuel) :
    ∃ m', myQsort fuel m base size cmpfn = .ok m' ∧
      (contents m' base size elemSize).Perm (contents m base size elemSize) ∧
      Mem.SameOutside base (size * elemSize) m m' := by
  obtain ⟨a', ha, hperm, -⟩ := Arr.doQsort_spec hrefl fuel (elems m base elemSize) 0 (size - 1) (by omega)
  obtain ⟨m', hm, hcontents, hsame⟩ := myQsort_contents hr ha
  refine ⟨m', hm, ?_, hsame⟩
  rw [hcontents]
  exact hperm.perm_seg size (by omega)

theorem myMergeSort_permutes {m : Mem} {base : Ptr} {size : Nat} (cmpfn : CmpFn elemSize)
    (hr : Region m base size elemSize) {fuel : Nat} (hfuel : size + 1 ≤ fuel) :
    Permutes m base size elemSize (myMergeSort fuel m base size cmpfn) := by
  rcases myMergeSort_contents cmpfn hr hfuel with ⟨m', hm, hcontents, hsame⟩ | hno
  · refine .inl ⟨m', hm, ?_, hsame⟩
    rw [hcontents]
    exact List.mergeSort_perm _ _
  · exact .inr hno

/-- In the isolated memory the sorts leave the same elements. -/
theorem myQsort_isolate {m : Mem} {base : Ptr} {size : Nat} {cmpfn : CmpFn elemSize}
    (hr : Region m base size elemSize) (hrefl : ∀ x, cmpfn x x = 0) {fuel : Nat} (hfuel : size + 2 ≤ fuel) :
    SameElems base ⟨base.block, 0⟩ size elemSize (myQsort fuel m base size cmpfn)
      (myQsort fuel (isolate m base (size * elemSize)) ⟨base.block, 0⟩ size cmpfn) := by
  obtain ⟨a', ha, -, -⟩ := Arr.doQsort_spec hrefl fuel (elems m base elemSize) 0 (size - 1) (by omega)
  obtain ⟨m', hm, hcontents, -⟩ := myQsort_contents hr ha
  rw [← elems_isolate m base (size * elemSize)] at ha
  obtain ⟨m₂', hm₂, hcontents₂, -⟩ := myQsort_contents (region_isolate hr) ha
  rintro n n₂ hn hn₂
  rw [hm] at hn
  rw [hm₂] at hn₂
  cases hn
  cases hn₂
  rw [hcontents, hcontents₂]

theorem myMergeSort_isolate {m : Mem} {base : Ptr} {size : Nat} (cmpfn : CmpFn elemSize)
    (hr : Region m base size elemSize) {fuel : Nat} (hfuel : size + 1 ≤ fuel) :
    SameElems base ⟨base.block, 0⟩ size elemSize (myMergeSort fuel m base size cmpfn)
      (myMergeSort fuel (isolate m base (size * elemSize)) ⟨base.block, 0⟩ size cmpfn) := by
  rintro n n₂ hn hn₂
  have hold : contents (isolate m base (size * elemSize)) ⟨base.block, 0⟩ size elemSize =
      contents m base size elemSize := by
    unfold contents
    rw [elems_isolate]
  rcases myMergeSort_contents cmpfn hr hfuel with ⟨m', hm, hcontents, -⟩ | ⟨hno, -⟩
  · rcases myMergeSort_contents cmpfn (region_isolate hr) hfuel with ⟨m₂', hm₂, hcontents₂, -⟩ | ⟨hno, -⟩
    · rw [hm] at hn
      rw [hm₂] at hn₂
      cases hn
      cases hn₂
      rw [hcontents, hcontents₂, hold]
    · rw [hno] at hn₂
      cases hn₂
  · rw [hno] at hn
    cases hn

/-- **The sorts terminate with a permutation and stay in the region, whatever the comparator.**  In any memory that holds
the array, and in the one where the array is a block of its own, so that an access to any other index is a fault, both
return (the merge sort unless it is refused memory) with a permutation of the elements, the same in both memories, and
no byte outside the array changed. -/
theorem sorts_permute (m : Mem) (base : Ptr) (size : Nat) (cmpfn : CmpFn elemSize)
    (hr : Region m base size elemSize) (hrefl : ∀ x, cmpfn x x = 0) (fuel : Nat) (hfuel : size + 2 ≤ fuel) :
    (∃ m', myQsort fuel m base size cmpfn = .ok m' ∧
      (contents m' base size elemSize).Perm (contents m base size elemSize) ∧
      Mem.SameOutside base (size * elemSize) m m') ∧
    (∃ m', myQsort fuel (isolate m base (size * elemSize)) ⟨base.block, 0⟩ size cmpfn = .ok m') ∧
    SameElems base ⟨base.block, 0⟩ size elemSize (myQsort fuel m base size cmpfn)
      (myQsort fuel (isolate m base (size * elemSize)) ⟨base.block, 0⟩ size cmpfn) ∧
    Permutes m base size elemSize (myMergeSort fuel m base size cmpfn) ∧
    Permutes (isolate m base (size * elemSize)) ⟨base.block, 0⟩ size elemSize
      (myMergeSort fuel (isolate m base (size * elemSize)) ⟨base.block, 0⟩ size cmpfn) ∧
    SameElems base ⟨base.block, 0⟩ size elemSize (myMergeSort fuel m base size cmpfn)
      (myMergeSort fuel (isolate m base (size * elemSize)) ⟨base.block, 0⟩ size cmpfn) := by
  obtain ⟨m₂, hm₂, -⟩ := myQsort_permutes (region_isolate hr) hrefl hfuel
  exact ⟨myQsort_permutes hr hrefl hfuel, ⟨m₂, hm₂⟩, myQsort_isolate hr hrefl hfuel,
    myMergeSort_permutes cmpfn hr (by omega), myMergeSort_permutes cmpfn (region_isolate hr) (by omega),
    myMergeSort_isolate cmpfn hr (by omega)⟩

/-- Three elements in the middle of a block of ten bytes. -/
def tenBytes : Mem := Mem.single 10 (fun o => UInt8.ofInt (9 - o)) (fun _ => .grant (fun _ => 0) false)

/-- Rock, paper, scissors: no order, and not even antisymmetric in size. -/
def cmpCycle : CmpFn 2 := fun x y =>
  let first : Elem 2 → Nat := fun z => (z ⟨0, Nat.zero_lt_two⟩).toNat
  if first x = first y then 0 else if first x % 3 = 0 then 5 else -1

theorem sorts_permute_cycle :
    (∃ m', myQsort 5 tenBytes ⟨0, 2⟩ (3 : Nat) cmpCycle = .ok m' ∧
      (contents m' ⟨0, 2⟩ 3 2).Perm (contents tenBytes ⟨0, 2⟩ 3 2) ∧ Mem.SameOutside ⟨0, 2⟩ (3 * 2) tenBytes m') ∧
    Permutes tenBytes ⟨0, 2⟩ 3 2 (myMergeSort 5 tenBytes ⟨0, 2⟩ (3 : Nat) cmpCycle) := by
  have hall := sorts_permute tenBytes ⟨0, 2⟩ 3 cmpCycle ⟨by decide, by decide⟩ (fun x => if_pos rfl) 5 (by decide)
  exact ⟨hall.1, hall.2.2.2.1⟩

end MySort
end Cc
