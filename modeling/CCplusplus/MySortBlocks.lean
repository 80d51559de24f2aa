import CCplusplus.MySortAny
import CCplusplus.MySortCompared
/-!
# MySortBlocks — the sorts on a list of blocks

`my_sort.c` with an element taken as one value, a block: the region is a list of blocks, `tmp` is another, and an index
that is not in the list is a fault.  The lists go through the states of the array-level sorts (`Blocks.doQsort_agree`,
`Blocks.doMyMergeSort_agree`), and so does the region of the byte-level sorts when it is cut into blocks.
-/
namespace Cc
namespace MySort

open CLib

namespace Blocks

variable {α : Type}

def getBlock (l : List α) (index : Int) : Exec α :=
  if 0 ≤ index then
    match l[index.toNat]? with
    | some x => .ok x
    | none => .error .outOfBounds
  else .error .outOfBounds

def setBlock (l : List α) (index : Int) (x : α) : Exec (List α) :=
  if 0 ≤ index ∧ index < l.length then .ok (l.set index.toNat x) else .error .outOfBounds

def swap (l : List α) (p p2 : Int) : Exec (List α) := do
  let tmp ← getBlock l p
  let l ← setBlock l p (← getBlock l p2)
  setBlock l p2 tmp

/-! ## Quick sort -/

def scanHight (cmp : α → α → Int) (fuel : Nat) (l : List α) (begin low : Int) : Int → Exec Int :=
  whileLoop
    (fun hight =>
      if hight > low then do
        let c := cmp (← getBlock l hight) (← getBlock l begin)
        pure (decide (c ≥ 0))
      else pure false)
    (fun hight => pure (hight - 1)) fuel

def scanLow (cmp : α → α → Int) (fuel : Nat) (l : List α) (begin hight : Int) : Int → Exec Int :=
  whileLoop
    (fun low =>
      if low < hight then do
        let c := cmp (← getBlock l low) (← getBlock l begin)
        pure (decide (c ≤ 0))
      else pure false)
    (fun low => pure (low + 1)) fuel

def partitionTurn (cmp : α → α → Int) (fuel : Nat) (begin : Int) : List α × Int × Int → Exec (List α × Int × Int)
  | (l, low, hight) => do
    let hight ← scanHight cmp fuel l begin low hight
    let low ← scanLow cmp fuel l begin hight low
    if hight > low then
      let l ← swap l hight low
      pure (l, low, hight)
    else pure (l, low, hight)

def myPartition (cmp : α → α → Int) (fuel : Nat) (l : List α) (begin end_ : Int) : Exec (List α × Int) := do
  let (l, low, _) ← whileLoop (fun (_, low, hight) => pure (decide (low < hight))) (partitionTurn cmp fuel begin) fuel
    (l, begin, end_)
  if low > begin then
    let l ← swap l low begin
    pure (l, low)
  else pure (l, low)

def doQsort (cmp : α → α → Int) : Nat → List α → Int → Int → Exec (List α)
  | 0, _, _, _ => .error .outOfFuel
  | fuel + 1, l, begin, end_ =>
    if end_ ≤ begin then pure l
    else do
      let (l, pivotIndex) ← myPartition cmp fuel l begin end_
      let l ← doQsort cmp fuel l begin (pivotIndex - 1)
      doQsort cmp fuel l (pivotIndex + 1) end_

def myQsort (cmp : α → α → Int) (fuel : Nat) (l : List α) : Exec (List α) := doQsort cmp fuel l 0 (l.length - 1)

/-! ## Merge sort -/

def mergeTurn (cmp : α → α → Int) (l : List α) (middle to_ : Int) :
    List α × Int × Int → Exec (List α × Int × Int)
  | (tmp, leftIndex, rightIndex) =>
    if leftIndex > middle then do
      let right ← getBlock l rightIndex
      pure (tmp ++ [right], leftIndex, rightIndex + 1)
    else if rightIndex > to_ then do
      let left ← getBlock l leftIndex
      pure (tmp ++ [left], leftIndex + 1, rightIndex)
    else do
      let left ← getBlock l leftIndex
      let right ← getBlock l rightIndex
      if cmp left right > 0 then pure (tmp ++ [right], leftIndex, rightIndex + 1)
      else pure (tmp ++ [left], leftIndex + 1, rightIndex)

def copyBackTurn (tmp : List α) (from_ : Int) (i : Int) (l : List α) : Exec (List α) := do
  setBlock l (from_ + i) (← getBlock tmp i)

def doMerge (cmp : α → α → Int) (l : List α) (from_ to_ : Int) : Exec (List α) :=
  if from_ ≥ to_ then pure l
  else do
    let middle := from_ + (to_ - from_) / 2
    let (tmp, _, _) ← forLoop (fun _ => mergeTurn cmp l middle to_) (to_ - from_ + 1).toNat 0 ([], from_, middle + 1)
    forLoop (copyBackTurn tmp from_) (to_ - from_ + 1).toNat 0 l

def doMyMergeSort (cmp : α → α → Int) : Nat → List α → Int → Int → Exec (List α)
  | 0, _, _, _ => .error .outOfFuel
  | fuel + 1, l, from_, to_ =>
    if from_ ≥ to_ then pure l
    else if to_ - from_ = 1 then do
      let c := cmp (← getBlock l from_) (← getBlock l to_)
      if c > 0 then swap l from_ to_ else pure l
    else do
      let middle := from_ + (to_ - from_) / 2
      let l ← doMyMergeSort cmp fuel l from_ middle
      let l ← doMyMergeSort cmp fuel l (middle + 1) to_
      doMerge cmp l from_ to_

def myMergeSort (cmp : α → α → Int) (fuel : Nat) (l : List α) : Exec (List α) :=
  doMyMergeSort cmp fuel l 0 (l.length - 1)

/-! ## A list of blocks and an array -/

theorem getBlock_seg (a : Int → α) {n : Nat} {i : Int} (h0 : 0 ≤ i) (h1 : i < n) :
    getBlock (seg a 0 n) i = .ok (a i) := by
  unfold getBlock
  rw [if_pos h0, getElem?_seg a 0 n i.toNat (by omega)]
  dsimp only
  rw [show (0 : Int) + (i.toNat : Int) = i by omega]

theorem set_seg (a : Int → α) (n k : Nat) (x : α) : (seg a 0 n).set k x = seg (setAt a k x) 0 n := by
  apply List.ext_getElem?
  intro j
  by_cases hj : j < n
  · rw [getElem?_seg _ 0 n j hj, List.getElem?_set, length_seg, getElem?_seg a 0 n j hj, Int.zero_add]
    by_cases hjk : k = j
    · subst hjk
      rw [if_pos rfl, if_pos hj, setAt_same]
    · rw [if_neg hjk, setAt_of_ne (by omega)]
  · rw [List.getElem?_eq_none (by rw [List.length_set, length_seg]; omega),
      List.getElem?_eq_none (by rw [length_seg]; omega)]

theorem setBlock_seg (a : Int → α) {n : Nat} {i : Int} (h0 : 0 ≤ i) (h1 : i < n) (x : α) :
    setBlock (seg a 0 n) i x = .ok (seg (setAt a i x) 0 n) := by
  unfold setBlock
  rw [length_seg, if_pos ⟨h0, h1⟩, set_seg, Int.toNat_of_nonneg h0]

theorem swap_seg (a : Int → α) {n : Nat} {p p2 : Int} (hp0 : 0 ≤ p) (hp : p < n) (hq0 : 0 ≤ p2) (hq : p2 < n) :
    swap (seg a 0 n) p p2 = .ok (seg (swapAt a p p2) 0 n) := by
  have hswap : setAt (setAt a p (a p2)) p2 (a p) = swapAt a p p2 := by
    funext i
    by_cases hi2 : i = p2
    · subst hi2
      rw [setAt_same, swapAt_right]
    · rw [setAt_of_ne hi2]
      by_cases hi : i = p
      · subst hi
        rw [setAt_same, swapAt_left]
      · rw [setAt_of_ne hi, swapAt_of_ne hi hi2]
  unfold swap
  simp only [getBlock_seg a hp0 hp, getBlock_seg a hq0 hq, ok_bind, setBlock_seg a hp0 hp, setBlock_seg _ hq0 hq, hswap]

section Agree

variable {E : Fault → Prop} {cmp : α → α → Int} {n : Nat} {a : Int → α}

theorem scanHight_agree (a : Int → α) (fuel : Nat) {begin low hight : Int} (h0 : 0 ≤ begin) (hb : begin ≤ low)
    (hl : low ≤ hight) (hn : hight < n) :
    Agree E (fun x y => x = y ∧ low ≤ x ∧ x ≤ hight) (scanHight cmp fuel (seg a 0 n) begin low hight)
      (Arr.scanHight cmp fuel a begin low hight) := by
  apply Agree.whileLoop (R := fun x y => x = y ∧ low ≤ x ∧ x ≤ hight)
  · rintro x y ⟨rfl, hx1, hx2⟩
    by_cases hx : x > low
    · rw [if_pos hx, if_pos hx, getBlock_seg a (by omega) (by omega), ok_bind, getBlock_seg a h0 (by omega), ok_bind]
      exact .ok rfl
    · rw [if_neg hx, if_neg hx]
      exact .ok rfl
  · rintro x y ⟨rfl, hx1, hx2⟩ hc
    have hx : x > low := Classical.byContradiction (fun hx => by rw [if_neg hx] at hc; cases hc)
    exact .ok ⟨rfl, by omega, by omega⟩
  · exact ⟨rfl, hl, Int.le_refl _⟩

theorem scanLow_agree (a : Int → α) (fuel : Nat) {begin low hight : Int} (h0 : 0 ≤ begin) (hb : begin ≤ low)
    (hl : low ≤ hight) (hn : hight < n) :
    Agree E (fun x y => x = y ∧ low ≤ x ∧ x ≤ hight) (scanLow cmp fuel (seg a 0 n) begin hight low)
      (Arr.scanLow cmp fuel a begin hight low) := by
  apply Agree.whileLoop (R := fun x y => x = y ∧ low ≤ x ∧ x ≤ hight)
  · rintro x y ⟨rfl, hx1, hx2⟩
    by_cases hx : x < hight
    · rw [if_pos hx, if_pos hx, getBlock_seg a (by omega) (by omega), ok_bind, getBlock_seg a h0 (by omega), ok_bind]
      exact .ok rfl
    · rw [if_neg hx, if_neg hx]
      exact .ok rfl
  · rintro x y ⟨rfl, hx1, hx2⟩ hc
    have hx : x < hight := Classical.byContradiction (fun hx => by rw [if_neg hx] at hc; cases hc)
    exact .ok ⟨rfl, by omega, by omega⟩
  · exact ⟨rfl, Int.le_refl _, hl⟩

/-- The states of the two outer loops. -/
structure TurnRel (n : Nat) (begin end_ : Int) (s : List α × Int × Int) (t : (Int → α) × Int × Int) : Prop where
  blocks : s.1 = seg t.1 0 n
  indices : s.2 = t.2
  beginLow : begin ≤ t.2.1
  lowHight : t.2.1 ≤ t.2.2
  hightEnd : t.2.2 ≤ end_

theorem partitionTurn_agree (fuel : Nat) {begin end_ : Int} (h0 : 0 ≤ begin) (he : end_ < n)
    {s : List α × Int × Int} {t : (Int → α) × Int × Int} (h : TurnRel n begin end_ s t) :
    Agree E (TurnRel n begin end_) (partitionTurn cmp fuel begin s) (Arr.partitionTurn cmp fuel begin t) := by
  obtain ⟨l, low, hight⟩ := s
  obtain ⟨a, low', hight'⟩ := t
  obtain ⟨hl, hidx, hbl, hlh, hhe⟩ := h
  obtain ⟨rfl, rfl⟩ := Prod.mk.inj hidx
  simp only at hl hbl hlh hhe
  subst hl
  unfold partitionTurn Arr.partitionTurn
  apply (scanHight_agree a fuel h0 hbl hlh (by omega)).bind
  rintro x _ ⟨rfl, hx1, hx2⟩
  apply (scanLow_agree a fuel h0 hbl hx1 (by omega)).bind
  rintro y _ ⟨rfl, hy1, hy2⟩
  by_cases hxy : x > y
  · rw [if_pos hxy, if_pos hxy, swap_seg a (by omega) (by omega) (by omega) (by omega), ok_bind]
    exact .ok ⟨rfl, rfl, by simp only; omega, by simp only; omega, by simp only; omega⟩
  · rw [if_neg hxy, if_neg hxy]
    exact .ok ⟨rfl, rfl, by simp only; omega, by simp only; omega, by simp only; omega⟩

theorem myPartition_agree (a : Int → α) (fuel : Nat) {begin end_ : Int} (h0 : 0 ≤ begin) (hbe : begin ≤ end_)
    (he : end_ < n) :
    Agree E (fun x y => x.1 = seg y.1 0 n ∧ x.2 = y.2 ∧ begin ≤ x.2 ∧ x.2 ≤ end_)
      (myPartition cmp fuel (seg a 0 n) begin end_) (Arr.myPartition cmp fuel a begin end_) := by
  unfold myPartition Arr.myPartition
  have hloop : Agree E (TurnRel n begin end_)
      (whileLoop (fun s => pure (decide (s.2.1 < s.2.2))) (partitionTurn cmp fuel begin) fuel (seg a 0 n, begin, end_))
      (whileLoop (fun s => pure (decide (s.2.1 < s.2.2))) (Arr.partitionTurn cmp fuel begin) fuel
        (a, begin, end_)) := by
    apply Agree.whileLoop
    · intro s t hst
      rw [hst.indices]
      exact .ok rfl
    · intro s t hst _
      exact partitionTurn_agree fuel h0 he hst
    · exact ⟨rfl, rfl, Int.le_refl _, hbe, Int.le_refl _⟩
  apply hloop.bind
  rintro ⟨l, low, hight⟩ ⟨a', low', hight'⟩ ⟨hl, hidx, hbl, hlh, hhe⟩
  obtain ⟨rfl, rfl⟩ := Prod.mk.inj hidx
  simp only at hl hbl hlh hhe
  subst hl
  by_cases hlow : low > begin
  · simp only [if_pos hlow, swap_seg a' (show 0 ≤ low by omega) (show low < n by omega) h0 (show begin < n by omega),
      ok_bind]
    exact .ok ⟨rfl, rfl, hbl, by simp only; omega⟩
  · simp only [if_neg hlow]
    exact .ok ⟨rfl, rfl, hbl, by simp only; omega⟩

/-- **The quick sort of a list of blocks is that of an array.** -/
theorem doQsort_agree (cmp : α → α → Int) : ∀ (fuel : Nat) (a : Int → α) (begin end_ : Int), 0 ≤ begin → end_ < n →
    Agree E (fun l a' => l = seg a' 0 n) (doQsort cmp fuel (seg a 0 n) begin end_) (Arr.doQsort cmp fuel a begin end_)
  | 0, _, _, _, _, _ => .error _
  | fuel + 1, a, begin, end_, h0, he => by
    unfold doQsort Arr.doQsort
    by_cases hle : end_ ≤ begin
    · rw [if_pos hle, if_pos hle]
      exact .ok rfl
    rw [if_neg hle, if_neg hle]
    apply (myPartition_agree a fuel h0 (by omega) he).bind
    rintro ⟨l₁, p⟩ ⟨a₁, p'⟩ ⟨h₁, hp, hp1, hp2⟩
    simp only at h₁ hp hp1 hp2
    subst hp h₁
    apply (doQsort_agree cmp fuel a₁ begin (p - 1) h0 (by omega)).bind
    rintro l₂ a₂ rfl
    exact doQsort_agree cmp fuel a₂ (p + 1) end_ (by omega) he

/-- The states of the merge loop before turn `i`. -/
structure MergeRel (from_ middle to_ i : Int) (s : List α × Int × Int) (t : (Int → α) × Int × Int) : Prop where
  start : 0 ≤ i
  written : s.1 = seg t.1 0 i.toNat
  indices : s.2 = t.2
  fromLeft : from_ ≤ t.2.1
  leftMiddle : t.2.1 ≤ middle + 1
  middleRight : middle + 1 ≤ t.2.2
  rightTo : t.2.2 ≤ to_ + 1
  count : t.2.1 - from_ + (t.2.2 - (middle + 1)) = i

theorem mergeTurn_agree {from_ middle to_ i : Int} (hf : 0 ≤ from_) (hto : to_ < n) (hi : i < to_ - from_ + 1)
    (hmt : middle ≤ to_) {s : List α × Int × Int} {t : (Int → α) × Int × Int}
    (h : MergeRel from_ middle to_ i s t) :
    Agree E (MergeRel from_ middle to_ (i + 1)) (mergeTurn cmp (seg a 0 n) middle to_ s)
      (Arr.mergeTurn cmp a middle to_ i t) := by
  obtain ⟨tmp, l, r⟩ := s
  obtain ⟨t, l', r'⟩ := t
  obtain ⟨hst, hwr, hidx, hfl, hlm, hmr, hrt, hcount⟩ := h
  obtain ⟨rfl, rfl⟩ := Prod.mk.inj hidx
  simp only at hwr hfl hlm hmr hrt hcount
  have hwrite : ∀ x, tmp ++ [x] = seg (setAt t i x) 0 (i + 1).toNat := fun x => by
    have happend := seg_setAt_concat t 0 i.toNat x
    rw [show (0 : Int) + (i.toNat : Int) = i by omega] at happend
    rw [hwr, show (i + 1).toNat = i.toNat + 1 by omega, happend]
  unfold mergeTurn Arr.mergeTurn
  dsimp only
  by_cases hl : l > middle
  · rw [if_pos hl, if_pos hl, getBlock_seg a (by omega) (by omega), ok_bind]
    exact .ok ⟨by omega, hwrite _, rfl, hfl, hlm, by simp only; omega, by simp only; omega, by simp only; omega⟩
  rw [if_neg hl, if_neg hl]
  by_cases hr : r > to_
  · rw [if_pos hr, if_pos hr, getBlock_seg a (by omega) (by omega), ok_bind]
    exact .ok ⟨by omega, hwrite _, rfl, by simp only; omega, by simp only; omega, hmr, hrt, by simp only; omega⟩
  rw [if_neg hr, if_neg hr, getBlock_seg a (by omega) (by omega), ok_bind, getBlock_seg a (by omega) (by omega), ok_bind]
  by_cases hc : cmp (a l) (a r) > 0
  · rw [if_pos hc, if_pos hc]
    exact .ok ⟨by omega, hwrite _, rfl, hfl, hlm, by simp only; omega, by simp only; omega, by simp only; omega⟩
  · rw [if_neg hc, if_neg hc]
    exact .ok ⟨by omega, hwrite _, rfl, by simp only; omega, by simp only; omega, hmr, hrt, by simp only; omega⟩

theorem copyBack_agree {k : Nat} {from_ : Int} (hf : 0 ≤ from_) (hto : from_ + k ≤ n) (t a : Int → α) :
    Agree E (fun l a' => l = seg a' 0 n) (forLoop (copyBackTurn (seg t 0 k) from_) k 0 (seg a 0 n))
      (forLoop (Arr.copyBackTurn t from_) k 0 a) := by
  have hloop := Agree.forLoop (E := E) (k : Int) (copyBackTurn (seg t 0 k) from_) (Arr.copyBackTurn t from_)
    (R := fun i l a' => 0 ≤ i ∧ l = seg a' 0 n) ?_ k 0 (seg a 0 n) a (by omega) ⟨Int.le_refl _, rfl⟩
  · exact hloop.imp (fun _ _ h => h.2)
  rintro i l a' hi ⟨h0, rfl⟩
  unfold copyBackTurn Arr.copyBackTurn
  rw [getBlock_seg t h0 hi, ok_bind, setBlock_seg a' (by omega) (by omega)]
  exact .ok ⟨by omega, rfl⟩

theorem doMerge_agree (a : Int → α) {from_ to_ : Int} (hf : 0 ≤ from_) (hto : to_ < n) :
    Agree E (fun l a' => l = seg a' 0 n) (doMerge cmp (seg a 0 n) from_ to_) (Arr.doMerge cmp a from_ to_) := by
  unfold doMerge Arr.doMerge
  by_cases hle : from_ ≥ to_
  · rw [if_pos hle, if_pos hle]
    exact .ok rfl
  rw [if_neg hle, if_neg hle]
  generalize hk : (to_ - from_ + 1).toNat = k
  generalize hmid : from_ + (to_ - from_) / 2 = middle
  have hloop := Agree.forLoop (E := E) (k : Int) (fun _ => mergeTurn cmp (seg a 0 n) middle to_)
    (Arr.mergeTurn cmp a middle to_) (R := MergeRel from_ middle to_)
    (fun i s t hi hst => mergeTurn_agree hf hto (by omega) (by omega) hst) k 0 ([], from_, middle + 1)
    (a, from_, middle + 1) (by omega)
    ⟨Int.le_refl _, rfl, rfl, Int.le_refl _, by simp only; omega, Int.le_refl _, by simp only; omega, by simp only; omega⟩
  apply hloop.bind
  rintro ⟨tmp, l, r⟩ ⟨t, l', r'⟩ hrel
  have hwritten := hrel.written
  rw [Int.toNat_natCast] at hwritten
  simp only at hwritten ⊢
  subst hwritten
  exact copyBack_agree hf (by omega) t a

/-- **The merge sort of a list of blocks is that of an array.** -/
theorem doMyMergeSort_agree (cmp : α → α → Int) : ∀ (fuel : Nat) (a : Int → α) (from_ to_ : Int), 0 ≤ from_ → to_ < n →
    Agree E (fun l a' => l = seg a' 0 n) (doMyMergeSort cmp fuel (seg a 0 n) from_ to_)
      (Arr.doMyMergeSort cmp fuel a from_ to_)
  | 0, _, _, _, _, _ => .error _
  | fuel + 1, a, from_, to_, h0, hto => by
    unfold doMyMergeSort Arr.doMyMergeSort
    by_cases hle : from_ ≥ to_
    · rw [if_pos hle, if_pos hle]
      exact .ok rfl
    rw [if_neg hle, if_neg hle]
    by_cases h1 : to_ - from_ = 1
    · rw [if_pos h1, if_pos h1, getBlock_seg a h0 (by omega), ok_bind, getBlock_seg a (by omega) hto, ok_bind]
      by_cases hc : cmp (a from_) (a to_) > 0
      · rw [if_pos hc, if_pos hc, swap_seg a h0 (by omega) (by omega) hto]
        exact .ok rfl
      · rw [if_neg hc, if_neg hc]
        exact .ok rfl
    rw [if_neg h1, if_neg h1]
    generalize hmid : from_ + (to_ - from_) / 2 = middle
    apply (doMyMergeSort_agree cmp fuel a from_ middle h0 (by omega)).bind
    rintro l₁ a₁ rfl
    apply (doMyMergeSort_agree cmp fuel a₁ (middle + 1) to_ (by omega) hto).bind
    rintro l₂ a₂ rfl
    exact doMerge_agree a₂ h0 hto

end Agree

end Blocks

/-! ## The region, cut into blocks -/

variable {elemSize : Nat} {m : Mem} {base : Ptr} {size : Nat} {cmpfn cmpfn' : CmpFn elemSize} {fuel : Nat}

/-- The memory `m'` that a sort leaves, beside what the same sort makes of the list of the blocks: that list, of the blocks
that were there, and nothing else is touched. -/
structure Blockwise (m : Mem) (base : Ptr) (size elemSize : Nat) (blocks : Exec (List (Elem elemSize))) (m' : Mem) :
    Prop where
  cut : blocks = .ok (contents m' base size elemSize)
  whole : (contents m' base size elemSize).Perm (contents m base size elemSize)
  outside : Mem.SameOutside base (size * elemSize) m m'

theorem myQsort_blockwise (hr : Region m base size elemSize) (hrefl : ∀ x, cmpfn x x = 0) (hfuel : size + 2 ≤ fuel) :
    ∃ m', myQsort fuel m base size cmpfn = .ok m' ∧
      Blockwise m base size elemSize (Blocks.myQsort cmpfn fuel (contents m base size elemSize)) m' := by
  obtain ⟨a', ha, hperm, -⟩ := Arr.doQsort_spec hrefl fuel (elems m base elemSize) 0 (size - 1) (by omega)
  obtain ⟨m', hm, hcontents, hsame⟩ := myQsort_contents hr ha
  have hagree := Blocks.doQsort_agree (E := fun _ => False) (n := size) cmpfn fuel (elems m base elemSize) 0
    (size - 1) (Int.le_refl _) (by omega)
  rw [ha] at hagree
  refine ⟨m', hm, ?_, ?_, hsame⟩
  · rcases hagree.of_ok with ⟨l, hl, rfl⟩ | ⟨e, -, he⟩
    · unfold Blocks.myQsort contents
      rw [length_seg, hl, ← hcontents]
      rfl
    · exact he.elim
  · rw [hcontents]
    exact hperm.perm_seg size (by omega)

theorem myMergeSort_blockwise (cmpfn : CmpFn elemSize) (hr : Region m base size elemSize) (hfuel : size + 1 ≤ fuel) :
    (∃ m', myMergeSort fuel m base size cmpfn = .ok m' ∧
      Blockwise m base size elemSize (Blocks.myMergeSort cmpfn fuel (contents m base size elemSize)) m') ∨
    (myMergeSort fuel m base size cmpfn = .error .assertion ∧ ∃ k, m.os k = .refuse) := by
  rcases myMergeSort_contents cmpfn hr hfuel with ⟨m', hm, hcontents, hsame⟩ | hno
  · obtain ⟨a', ha, -, hsort⟩ := Arr.doMyMergeSort_spec cmpfn fuel (elems m base elemSize) 0 (size - 1) (by omega)
    have hagree := Blocks.doMyMergeSort_agree (E := fun _ => False) (n := size) cmpfn fuel
      (elems m base elemSize) 0 (size - 1) (Int.le_refl _) (by omega)
    rw [ha] at hagree
    refine .inl ⟨m', hm, ?_, ?_, hsame⟩
    · rcases hagree.of_ok with ⟨l, hl, rfl⟩ | ⟨e, -, he⟩
      · have hlen : ((size : Int) - 1 + 1 - 0).toNat = size := by omega
        unfold slice at hsort
        rw [hlen] at hsort
        unfold Blocks.myMergeSort
        rw [hcontents]
        unfold contents
        rw [length_seg, hl, hsort]
      · exact he.elim
    · rw [hcontents]
      exact List.mergeSort_perm _ _
  · exact .inr hno

/-- Two comparators that agree on the blocks of the region leave the same blocks. -/
theorem myQsort_sameElems (hr : Region m base size elemSize) (hrefl : ∀ x, cmpfn x x = 0) (hfuel : size + 2 ≤ fuel)
    (he : ∀ x ∈ contents m base size elemSize, ∀ y ∈ contents m base size elemSize, cmpfn' x y = cmpfn x y) :
    SameElems base base size elemSize (myQsort fuel m base size cmpfn) (myQsort fuel m base size cmpfn') := by
  obtain ⟨a', ha, -⟩ := Arr.doQsort_spec hrefl fuel (elems m base elemSize) 0 (size - 1) (by omega)
  have hmeets := Arr.quickMeets_of_forall (P := fun x y => cmpfn' x y = cmpfn x y) hrefl fuel (elems m base elemSize) 0
    (size - 1) (by omega) (fun i j hi1 hi2 hj1 hj2 =>
      he _ (mem_seg.2 ⟨i, hi1, by omega, rfl⟩) _ (mem_seg.2 ⟨j, hj1, by omega, rfl⟩))
  have ha' := Arr.doQsort_congr (fun _ _ h => h) hrefl fuel (elems m base elemSize) 0 (size - 1) (by omega) hmeets
  rw [ha] at ha'
  obtain ⟨m₁, hm₁, hcontents₁, -⟩ := myQsort_contents hr ha
  obtain ⟨m₂, hm₂, hcontents₂, -⟩ := myQsort_contents hr ha'
  intro n₁ n₂ hn₁ hn₂
  rw [hm₁] at hn₁
  rw [hm₂] at hn₂
  cases hn₁
  cases hn₂
  rw [hcontents₁, hcontents₂]

theorem myMergeSort_sameElems (hr : Region m base size elemSize) (hfuel : size + 1 ≤ fuel)
    (he : ∀ x ∈ contents m base size elemSize, ∀ y ∈ contents m base size elemSize, cmpfn' x y = cmpfn x y) :
    SameElems base base size elemSize (myMergeSort fuel m base size cmpfn) (myMergeSort fuel m base size cmpfn') := by
  have hsort := List.map_mergeSort (r := leq cmpfn) (s := leq cmpfn') (f := id) (fun x hx y hy => by
    unfold leq
    rw [id, id, he x hx y hy])
  rw [List.map_id, List.map_id] at hsort
  intro n₁ n₂ hn₁ hn₂
  rcases myMergeSort_contents cmpfn hr hfuel with ⟨m₁, hm₁, hcontents₁, -⟩ | ⟨hno, -⟩
  · rcases myMergeSort_contents cmpfn' hr hfuel with ⟨m₂, hm₂, hcontents₂, -⟩ | ⟨hno, -⟩
    · rw [hm₁] at hn₁
      rw [hm₂] at hn₂
      cases hn₁
      cases hn₂
      rw [hcontents₁, hcontents₂, hsort]
    · rw [hno] at hn₂
      cases hn₂
  · rw [hno] at hn₁
    cases hn₁

/-- **The byte-level sorts are the sorts of a list of blocks.**  On any region, with any comparator that finds an element
equal to itself, the blocks that a sort leaves are those that the same sort leaves of the list, the blocks of before in
another order, and no byte outside changes; the merge sort may also stop when it is refused memory.  And what is compared
are blocks of the region: nothing depends on what the comparator says of other bytes. -/
theorem sorts_blockwise (m : Mem) (base : Ptr) (size : Nat) (cmpfn : CmpFn elemSize) (hr : Region m base size elemSize)
    (hrefl : ∀ x, cmpfn x x = 0) (fuel : Nat) (hfuel : size + 2 ≤ fuel) :
    (∃ m', myQsort fuel m base size cmpfn = .ok m' ∧
      Blockwise m base size elemSize (Blocks.myQsort cmpfn fuel (contents m base size elemSize)) m') ∧
    ((∃ m', myMergeSort fuel m base size cmpfn = .ok m' ∧
        Blockwise m base size elemSize (Blocks.myMergeSort cmpfn fuel (contents m base size elemSize)) m') ∨
      (myMergeSort fuel m base size cmpfn = .error .assertion ∧ ∃ k, m.os k = .refuse)) ∧
    ∀ cmpfn' : CmpFn elemSize,
      (∀ x ∈ contents m base size elemSize, ∀ y ∈ contents m base size elemSize, cmpfn' x y = cmpfn x y) →
      SameElems base base size elemSize (myQsort fuel m base size cmpfn) (myQsort fuel m base size cmpfn') ∧
      SameElems base base size elemSize (myMergeSort fuel m base size cmpfn) (myMergeSort fuel m base size cmpfn') :=
  ⟨myQsort_blockwise hr hrefl hfuel, myMergeSort_blockwise cmpfn hr (by omega), fun _ he =>
    ⟨myQsort_sameElems hr hrefl hfuel he, myMergeSort_sameElems hr (by omega) he⟩⟩

/-- Three elements in the middle of a block, and a comparator that is no order. -/
theorem sorts_blockwise_cycle :
    (∃ m', myQsort 5 tenBytes ⟨0, 2⟩ (3 : Nat) cmpCycle = .ok m' ∧
      Blockwise tenBytes ⟨0, 2⟩ 3 2 (Blocks.myQsort cmpCycle 5 (contents tenBytes ⟨0, 2⟩ 3 2)) m') ∧
    ((∃ m', myMergeSort 5 tenBytes ⟨0, 2⟩ (3 : Nat) cmpCycle = .ok m' ∧
        Blockwise tenBytes ⟨0, 2⟩ 3 2 (Blocks.myMergeSort cmpCycle 5 (contents tenBytes ⟨0, 2⟩ 3 2)) m') ∨
      (myMergeSort 5 tenBytes ⟨0, 2⟩ (3 : Nat) cmpCycle = .error .assertion ∧ ∃ k, tenBytes.os k = .refuse)) := by
  have hall := sorts_blockwise tenBytes ⟨0, 2⟩ 3 cmpCycle ⟨by decide, by decide⟩ (fun x => if_pos rfl) 5 (by decide)
  exact ⟨hall.1, hall.2.1⟩

end MySort
end Cc
