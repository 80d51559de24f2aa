import CCplusplus.Lib.Exec
import CCplusplus.Lib.Seg
import CCplusplus.Lib.Compare
/-!
# MySortArray — the sorts on an indexed array

The algorithms of `my_sort.c` with the bytes taken away: an array of any type, indexed by `Int`, and a comparator on its
entries.  `Arr.doQsort_spec` is the quick sort's correctness (a permutation for any comparator that finds an element
equal to itself, in order for a total preorder); `Arr.doMyMergeSort_spec` says that the merge sort is `List.mergeSort`,
whatever the comparator.
-/
namespace Cc
namespace MySort
namespace Arr

open CLib

variable {α : Type}

/-! ## Quick sort -/

def scanHight (cmp : α → α → Int) (fuel : Nat) (a : Int → α) (begin low : Int) : Int → Exec Int :=
  whileLoop (fun hight => if hight > low then pure (decide (cmp (a hight) (a begin) ≥ 0)) else pure false)
    (fun hight => pure (hight - 1)) fuel

def scanLow (cmp : α → α → Int) (fuel : Nat) (a : Int → α) (begin hight : Int) : Int → Exec Int :=
  whileLoop (fun low => if low < hight then pure (decide (cmp (a low) (a begin) ≤ 0)) else pure false)
    (fun low => pure (low + 1)) fuel

def partitionTurn (cmp : α → α → Int) (fuel : Nat) (begin : Int) :
    (Int → α) × Int × Int → Exec ((Int → α) × Int × Int)
  | (a, low, hight) => do
    let hight ← scanHight cmp fuel a begin low hight
    let low ← scanLow cmp fuel a begin hight low
    if hight > low then pure (swapAt a hight low, low, hight) else pure (a, low, hight)

def myPartition (cmp : α → α → Int) (fuel : Nat) (a : Int → α) (begin end_ : Int) : Exec ((Int → α) × Int) := do
  let (a, low, _) ← whileLoop (fun (_, low, hight) => pure (decide (low < hight))) (partitionTurn cmp fuel begin) fuel
    (a, begin, end_)
  if low > begin then pure (swapAt a low begin, low) else pure (a, low)

def doQsort (cmp : α → α → Int) : Nat → (Int → α) → Int → Int → Exec (Int → α)
  | 0, _, _, _ => .error .outOfFuel
  | fuel + 1, a, begin, end_ =>
    if end_ ≤ begin then pure a
    else do
      let (a, pivotIndex) ← myPartition cmp fuel a begin end_
      let a ← doQsort cmp fuel a begin (pivotIndex - 1)
      doQsort cmp fuel a (pivotIndex + 1) end_

/-- The scan from the right stops at `low` or at an entry below the pivot, past entries that are not. -/
theorem scanHight_spec (cmp : α → α → Int) (fuel : Nat) (a : Int → α) (begin : Int) {low hight : Int}
    (h : low ≤ hight) (hf : (hight - low).toNat < fuel) :
    ∃ h', scanHight cmp fuel a begin low hight = .ok h' ∧ low ≤ h' ∧ h' ≤ hight ∧
      (∀ i, h' < i → i ≤ hight → 0 ≤ cmp (a i) (a begin)) ∧ (h' = low ∨ cmp (a h') (a begin) < 0) := by
  have rule := whileLoop_total
    (fun x => if x > low then pure (decide (cmp (a x) (a begin) ≥ 0)) else pure false)
    (fun x => pure (x - 1))
    (fun x => low ≤ x ∧ x ≤ hight ∧ ∀ i, x < i → i ≤ hight → 0 ≤ cmp (a i) (a begin))
    (fun x => low ≤ x ∧ x ≤ hight ∧ (∀ i, x < i → i ≤ hight → 0 ≤ cmp (a i) (a begin)) ∧
      (x = low ∨ cmp (a x) (a begin) < 0))
    (fun x => (x - low).toNat) ?_ fuel hight ⟨h, by omega, fun i h1 h2 => by omega⟩ hf
  · exact rule
  · rintro x ⟨h1, h2, h3⟩
    by_cases hx : x > low
    · by_cases hc : cmp (a x) (a begin) ≥ 0
      · refine .inr ⟨by simp [hx, hc], x - 1, rfl, ⟨by omega, by omega, fun i hi hi' => ?_⟩, by omega⟩
        by_cases hix : i = x
        · rw [hix]; exact hc
        · exact h3 i (by omega) hi'
      · exact .inl ⟨by simp [hx]; omega, h1, h2, h3, .inr (by omega)⟩
    · exact .inl ⟨by simp [hx], h1, h2, h3, .inl (by omega)⟩

/-- The scan from the left stops at `hight` or at an entry above the pivot, past entries that are not. -/
theorem scanLow_spec (cmp : α → α → Int) (fuel : Nat) (a : Int → α) (begin : Int) {low hight : Int}
    (h : low ≤ hight) (hf : (hight - low).toNat < fuel) :
    ∃ l', scanLow cmp fuel a begin hight low = .ok l' ∧ low ≤ l' ∧ l' ≤ hight ∧
      (∀ i, low ≤ i → i < l' → cmp (a i) (a begin) ≤ 0) ∧ (l' = hight ∨ 0 < cmp (a l') (a begin)) := by
  have rule := whileLoop_total
    (fun x => if x < hight then pure (decide (cmp (a x) (a begin) ≤ 0)) else pure false)
    (fun x => pure (x + 1))
    (fun x => low ≤ x ∧ x ≤ hight ∧ ∀ i, low ≤ i → i < x → cmp (a i) (a begin) ≤ 0)
    (fun x => low ≤ x ∧ x ≤ hight ∧ (∀ i, low ≤ i → i < x → cmp (a i) (a begin) ≤ 0) ∧
      (x = hight ∨ 0 < cmp (a x) (a begin)))
    (fun x => (hight - x).toNat) ?_ fuel low ⟨by omega, h, fun i h1 h2 => by omega⟩ hf
  · exact rule
  · rintro x ⟨h1, h2, h3⟩
    by_cases hx : x < hight
    · by_cases hc : cmp (a x) (a begin) ≤ 0
      · refine .inr ⟨by simp [hx, hc], x + 1, rfl, ⟨by omega, by omega, fun i hi hi' => ?_⟩, by omega⟩
        by_cases hix : i = x
        · rw [hix]; exact hc
        · exact h3 i hi (by omega)
      · exact .inl ⟨by simp [hx]; omega, h1, h2, h3, .inr (by omega)⟩
    · exact .inl ⟨by simp [hx], h1, h2, h3, .inl (by omega)⟩

/-- Between two turns of the outer loop: left of `low` nothing is above the pivot, right of `hight` nothing is below it,
the pivot is still in slot `begin`, and slot `low` is not above it either. -/
structure PartInv (cmp : α → α → Int) (a₀ : Int → α) (begin end_ : Int) (s : (Int → α) × Int × Int) : Prop where
  beginLow : begin ≤ s.2.1
  lowHight : s.2.1 ≤ s.2.2
  hightEnd : s.2.2 ≤ end_
  perm : PermOn begin end_ a₀ s.1
  pivot : s.1 begin = a₀ begin
  below : ∀ i, begin ≤ i → i < s.2.1 → cmp (s.1 i) (a₀ begin) ≤ 0
  above : ∀ i, s.2.2 < i → i ≤ end_ → 0 ≤ cmp (s.1 i) (a₀ begin)
  atLow : cmp (s.1 s.2.1) (a₀ begin) ≤ 0

theorem partInv_init {cmp : α → α → Int} (hrefl : ∀ x, cmp x x = 0) (a : Int → α) {begin end_ : Int}
    (h : begin ≤ end_) : PartInv cmp a begin end_ (a, begin, end_) where
  beginLow := Int.le_refl _
  lowHight := h
  hightEnd := Int.le_refl _
  perm := .refl _ _ _
  pivot := rfl
  below := fun i h1 h2 => absurd h2 (by simp only; omega)
  above := fun i h1 h2 => absurd h1 (by simp only; omega)
  atLow := Int.le_of_eq (hrefl _)

/-- **One turn of the outer loop** keeps the invariant and brings `low` and `hight` closer. -/
theorem partitionTurn_spec {cmp : α → α → Int} {fuel : Nat} {a₀ : Int → α} {begin end_ : Int}
    {s : (Int → α) × Int × Int} (hs : PartInv cmp a₀ begin end_ s) (hlt : s.2.1 < s.2.2)
    (hf : (end_ - begin).toNat < fuel) :
    ∃ s', partitionTurn cmp fuel begin s = .ok s' ∧ PartInv cmp a₀ begin end_ s' ∧
      (s'.2.2 - s'.2.1).toNat < (s.2.2 - s.2.1).toNat := by
  obtain ⟨a, low, hight⟩ := s
  obtain ⟨hbl, hlh, hhe, hperm, hpiv, hbelow, habove, hatlow⟩ := hs
  simp only at hbl hlh hhe hperm hpiv hbelow habove hatlow hlt ⊢
  obtain ⟨h', hh, hh1, hh2, hh3, hh4⟩ := scanHight_spec cmp fuel a begin hlh (by omega)
  obtain ⟨l', hl, hl1, hl2, hl3, hl4⟩ := scanLow_spec cmp fuel a begin hh1 (by omega)
  rw [hpiv] at hh3 hh4 hl3 hl4
  have hbelow' : ∀ i, begin ≤ i → i < l' → cmp (a i) (a₀ begin) ≤ 0 := fun i h1 h2 => by
    by_cases hil : i < low
    · exact hbelow i h1 hil
    · exact hl3 i (by omega) h2
  have habove' : ∀ i, h' < i → i ≤ end_ → 0 ≤ cmp (a i) (a₀ begin) := fun i h1 h2 => by
    by_cases hih : hight < i
    · exact habove i hih h2
    · exact hh3 i h1 (by omega)
  -- the left scan passes slot `low` itself, unless the right scan has come down to it
  have hmove : h' = low ∨ low < l' := by
    rcases hh4 with rfl | _
    · exact .inl rfl
    · rcases Int.lt_or_eq_of_le hl1 with h | rfl
      · exact .inr h
      · rcases hl4 with h | h
        · exact .inl h.symm
        · omega
  unfold partitionTurn
  simp only [hh, hl, ok_bind, pure_eq_ok]
  by_cases hswap : h' > l'
  · rw [if_pos hswap]
    have hbl' : begin < l' := by omega
    refine ⟨_, rfl, ⟨?_, ?_, ?_, ?_, ?_, ?_, ?_, ?_⟩, ?_⟩ <;> simp only
    · omega
    · omega
    · omega
    · exact hperm.trans (.swapAt a ⟨by omega, by omega⟩ ⟨by omega, by omega⟩)
    · rw [swapAt_of_ne (by omega) (by omega), hpiv]
    · intro i h1 h2
      rw [swapAt_of_ne (by omega) (by omega)]; exact hbelow' i h1 h2
    · intro i h1 h2
      rw [swapAt_of_ne (by omega) (by omega)]; exact habove' i h1 h2
    · rw [swapAt_right]; omega
    · omega
  · rw [if_neg hswap]
    refine ⟨_, rfl, ⟨?_, ?_, ?_, hperm, hpiv, hbelow', habove', ?_⟩, ?_⟩ <;> simp only
    · omega
    · omega
    · omega
    · -- the two ways of leaving: `hight` came down to `low`, or `low` went up to `hight`
      have heq : l' = h' := by omega
      rcases hh4 with rfl | h
      · rwa [heq]
      · rw [heq]; omega
    · omega

/-- **The partition**: a permutation of `begin..end`, nothing above the pivot to the left of the index returned and
nothing below it to the right. -/
theorem myPartition_spec {cmp : α → α → Int} (hrefl : ∀ x, cmp x x = 0) (fuel : Nat) (a : Int → α) (begin end_ : Int)
    (h : begin ≤ end_) (hf : (end_ - begin).toNat < fuel) :
    ∃ a' p, myPartition cmp fuel a begin end_ = .ok (a', p) ∧ begin ≤ p ∧ p ≤ end_ ∧ PermOn begin end_ a a' ∧
      a' p = a begin ∧ (∀ i, begin ≤ i → i < p → cmp (a' i) (a' p) ≤ 0) ∧
      (∀ i, p < i → i ≤ end_ → 0 ≤ cmp (a' i) (a' p)) := by
  obtain ⟨⟨b, low, hight⟩, hloop, hinv, hexit⟩ := whileLoop_total
    (fun (s : (Int → α) × Int × Int) => pure (decide (s.2.1 < s.2.2)))
    (partitionTurn cmp fuel begin) (PartInv cmp a begin end_)
    (fun s => PartInv cmp a begin end_ s ∧ ¬ s.2.1 < s.2.2) (fun s => (s.2.2 - s.2.1).toNat)
    (fun s hs => by
      by_cases hlt : s.2.1 < s.2.2
      · exact .inr ⟨by simp [hlt], partitionTurn_spec hs hlt hf⟩
      · exact .inl ⟨by simp [hlt], hs, hlt⟩)
    fuel (a, begin, end_) (partInv_init hrefl a h) hf
  obtain ⟨hbl, hlh, hhe, hperm, hpiv, hbelow, habove, hatlow⟩ := hinv
  simp only at hbl hlh hhe hperm hpiv hbelow habove hatlow hexit
  have heq : hight = low := by omega
  subst heq
  unfold myPartition
  rw [hloop]
  simp only [ok_bind, pure_eq_ok]
  by_cases hlb : hight > begin
  · rw [if_pos hlb]
    refine ⟨_, _, rfl, hbl, hhe, hperm.trans (.swapAt b ⟨hbl, hhe⟩ ⟨by omega, h⟩), ?_, fun i h1 h2 => ?_,
      fun i h1 h2 => ?_⟩
    · rw [swapAt_left, hpiv]
    · rw [swapAt_left, hpiv]
      by_cases hib : i = begin
      · rw [hib, swapAt_right]; exact hatlow
      · rw [swapAt_of_ne (by omega) hib]; exact hbelow i h1 h2
    · rw [swapAt_left, swapAt_of_ne (by omega) (by omega), hpiv]; exact habove i h1 h2
  · rw [if_neg hlb]
    have hlow : hight = begin := by omega
    subst hlow
    exact ⟨b, hight, rfl, by omega, hhe, hperm, hpiv, fun i h1 h2 => by omega, fun i h1 h2 => by
      rw [hpiv]; exact habove i h1 h2⟩

/-- **The quick sort** ends with a permutation of `begin..end`, in order when the comparator is a total preorder. -/
theorem doQsort_spec {cmp : α → α → Int} (hrefl : ∀ x, cmp x x = 0) : ∀ (fuel : Nat) (a : Int → α) (begin end_ : Int),
    (end_ - begin).toNat + 2 ≤ fuel → ∃ a', doQsort cmp fuel a begin end_ = .ok a' ∧ PermOn begin end_ a a' ∧
      (TotalPreorder cmp → ∀ i j, begin ≤ i → i < j → j ≤ end_ → cmp (a' i) (a' j) ≤ 0)
  | 0, _, _, _, hf => absurd hf (by omega)
  | fuel + 1, a, begin, end_, hf => by
    unfold doQsort
    by_cases hle : end_ ≤ begin
    · rw [if_pos hle]
      exact ⟨a, rfl, .refl _ _ _, fun _ i j h1 h2 h3 => by omega⟩
    rw [if_neg hle]
    obtain ⟨a₁, p, hp, hbp, hpe, hperm₁, -, hlow, hhigh⟩ :=
      myPartition_spec hrefl fuel a begin end_ (by omega) (by omega)
    obtain ⟨a₂, h₂, hperm₂, hsort₂⟩ := doQsort_spec hrefl fuel a₁ begin (p - 1) (by omega)
    obtain ⟨a₃, h₃, hperm₃, hsort₃⟩ := doQsort_spec hrefl fuel a₂ (p + 1) end_ (by omega)
    refine ⟨a₃, by simp [hp, h₂, h₃], ?_, fun hc i j h1 h2 h3 => ?_⟩
    · exact (hperm₁.trans (hperm₂.widen (by omega) (by omega))).trans (hperm₃.widen (by omega) (by omega))
    have hpiv : a₃ p = a₁ p := by
      rw [hperm₃.eq_outside (.inl (by omega)), hperm₂.eq_outside (.inr (by omega))]
    -- each side is a permutation of the side the partition left, so the pivot still separates them
    have hl : ∀ i, begin ≤ i → i ≤ p - 1 → cmp (a₃ i) (a₃ p) ≤ 0 := fun i h1 h2 => by
      rw [hpiv, hperm₃.eq_outside (.inl (by omega))]
      exact hperm₂.all (P := fun x => cmp x (a₁ p) ≤ 0) (fun i h1 h2 => hlow i h1 (by omega)) i h1 h2
    have hr : ∀ i, p + 1 ≤ i → i ≤ end_ → cmp (a₃ p) (a₃ i) ≤ 0 := fun i h1 h2 => by
      rw [← hc.nonneg_iff, hpiv]
      refine hperm₃.all (P := fun x => 0 ≤ cmp x (a₁ p)) (fun i h1 h2 => ?_) i h1 h2
      rw [hperm₂.eq_outside (.inr (by omega))]; exact hhigh i (by omega) h2
    rcases Int.lt_trichotomy i p with hi | rfl | hi
    · rcases Int.lt_trichotomy j p with hj | rfl | hj
      · rw [hperm₃.eq_outside (.inl (by omega)), hperm₃.eq_outside (.inl (by omega))]
        exact hsort₂ hc i j h1 h2 (by omega)
      · exact hl i h1 (by omega)
      · exact hc.trans _ _ _ (hl i h1 (by omega)) (hr j (by omega) h3)
    · exact hr j (by omega) h3
    · exact hsort₃ hc i j (by omega) h2 h3

/-! ## Merge sort -/

def mergeTurn (cmp : α → α → Int) (a : Int → α) (middle to_ : Int) (i : Int) :
    (Int → α) × Int × Int → Exec ((Int → α) × Int × Int)
  | (tmp, leftIndex, rightIndex) =>
    if leftIndex > middle then pure (setAt tmp i (a rightIndex), leftIndex, rightIndex + 1)
    else if rightIndex > to_ then pure (setAt tmp i (a leftIndex), leftIndex + 1, rightIndex)
    else if cmp (a leftIndex) (a rightIndex) > 0 then pure (setAt tmp i (a rightIndex), leftIndex, rightIndex + 1)
    else pure (setAt tmp i (a leftIndex), leftIndex + 1, rightIndex)

def copyBackTurn (tmp : Int → α) (from_ : Int) (i : Int) (a : Int → α) : Exec (Int → α) :=
  pure (setAt a (from_ + i) (tmp i))

/-- The temporary starts as anything at all; here as `a`. -/
def doMerge (cmp : α → α → Int) (a : Int → α) (from_ to_ : Int) : Exec (Int → α) :=
  if from_ ≥ to_ then pure a
  else do
    let middle := from_ + (to_ - from_) / 2
    let (tmp, _, _) ← forLoop (mergeTurn cmp a middle to_) (to_ - from_ + 1).toNat 0 (a, from_, middle + 1)
    forLoop (copyBackTurn tmp from_) (to_ - from_ + 1).toNat 0 a

def doMyMergeSort (cmp : α → α → Int) : Nat → (Int → α) → Int → Int → Exec (Int → α)
  | 0, _, _, _ => .error .outOfFuel
  | fuel + 1, a, from_, to_ =>
    if from_ ≥ to_ then pure a
    else if to_ - from_ = 1 then
      if cmp (a from_) (a to_) > 0 then pure (swapAt a from_ to_) else pure a
    else do
      let middle := from_ + (to_ - from_) / 2
      let a ← doMyMergeSort cmp fuel a from_ middle
      let a ← doMyMergeSort cmp fuel a (middle + 1) to_
      doMerge cmp a from_ to_

/-- Before turn `i`: what `tmp` holds, followed by the merge of what is left of the two halves, is the merge of the
halves. -/
structure MergeInv (cmp : α → α → Int) (a : Int → α) (from_ middle to_ : Int) (i : Int) (s : (Int → α) × Int × Int) :
    Prop where
  fromLeft : from_ ≤ s.2.1
  leftMiddle : s.2.1 ≤ middle + 1
  middleRight : middle + 1 ≤ s.2.2
  rightTo : s.2.2 ≤ to_ + 1
  count : s.2.1 - from_ + (s.2.2 - (middle + 1)) = i
  merged : seg s.1 0 i.toNat ++ List.merge (slice a s.2.1 middle) (slice a s.2.2 to_) (leq cmp) =
    List.merge (slice a from_ middle) (slice a (middle + 1) to_) (leq cmp)

/-- What a turn writes is the head of the merge it leaves. -/
theorem seg_setAt_merged {tmp : Int → α} {i : Int} (hi : 0 ≤ i) (x : α) (rest : List α) :
    seg (setAt tmp i x) 0 (i + 1).toNat ++ rest = seg tmp 0 i.toNat ++ (x :: rest) := by
  have h := seg_setAt_concat tmp 0 i.toNat x
  rw [show (0 : Int) + (i.toNat : Int) = i by omega] at h
  rw [show (i + 1).toNat = i.toNat + 1 by omega, h, List.append_assoc, List.singleton_append]

theorem mergeTurn_spec {cmp : α → α → Int} {a : Int → α} {from_ middle to_ i : Int} {s : (Int → α) × Int × Int}
    (hi : i < to_ - from_ + 1) (hs : MergeInv cmp a from_ middle to_ i s) :
    ∃ s', mergeTurn cmp a middle to_ i s = .ok s' ∧ MergeInv cmp a from_ middle to_ (i + 1) s' := by
  obtain ⟨tmp, l, r⟩ := s
  obtain ⟨hfl, hlm, hmr, hrt, hcount, hmerged⟩ := hs
  simp only at hfl hlm hmr hrt hcount hmerged
  have h0 : 0 ≤ i := by omega
  simp only [mergeTurn]
  by_cases hl : l > middle
  · -- the left half is used up
    refine ⟨_, if_pos hl, ⟨hfl, hlm, by simp only; omega, by simp only; omega, by simp only; omega, ?_⟩⟩
    rw [slice_nil hl, List.nil_merge, slice_cons (by omega)] at hmerged
    simp only
    rw [slice_nil hl, List.nil_merge, seg_setAt_merged h0, hmerged]
  rw [if_neg hl]
  by_cases hr : r > to_
  · -- the right half is used up
    refine ⟨_, if_pos hr, ⟨by simp only; omega, by simp only; omega, hmr, hrt, by simp only; omega, ?_⟩⟩
    rw [slice_nil hr, List.merge_right, slice_cons (by omega)] at hmerged
    simp only
    rw [slice_nil hr, List.merge_right, seg_setAt_merged h0, hmerged]
  rw [if_neg hr]
  rw [slice_cons (by omega : l ≤ middle), slice_cons (by omega : r ≤ to_), List.cons_merge_cons] at hmerged
  by_cases hc : cmp (a l) (a r) > 0
  · refine ⟨_, if_pos hc, ⟨hfl, hlm, by simp only; omega, by simp only; omega, by simp only; omega, ?_⟩⟩
    rw [if_neg (by simp only [leq, decide_eq_true_eq]; omega), ← slice_cons (by omega : l ≤ middle)] at hmerged
    simp only
    rw [seg_setAt_merged h0, hmerged]
  · refine ⟨_, if_neg hc, ⟨by simp only; omega, by simp only; omega, hmr, hrt, by simp only; omega, ?_⟩⟩
    rw [if_pos (by simp only [leq, decide_eq_true_eq]; omega), ← slice_cons (by omega : r ≤ to_)] at hmerged
    simp only
    rw [seg_setAt_merged h0, hmerged]

/-- The copy back writes `tmp` over `from..to`. -/
theorem copyBack_spec (tmp a : Int → α) (from_ : Int) (n : Nat) :
    ∃ a', forLoop (copyBackTurn tmp from_) n 0 a = .ok a' ∧ seg a' from_ n = seg tmp 0 n ∧
      ∀ i, i < from_ ∨ from_ + n ≤ i → a' i = a i := by
  obtain ⟨a', ha, -, hin, hout⟩ := forLoop_total (copyBackTurn tmp from_) (n : Int)
    (fun k b => 0 ≤ k ∧ (∀ i, 0 ≤ i → i < k → b (from_ + i) = tmp i) ∧
      ∀ i, i < from_ ∨ from_ + k ≤ i → b i = a i)
    (fun k b _ ⟨hk, hin, hout⟩ => by
      refine ⟨_, rfl, by omega, fun i h1 h2 => ?_, fun i h => ?_⟩
      · by_cases hik : i = k
        · rw [hik, setAt_same]
        · rw [setAt_of_ne (by omega)]; exact hin i h1 (by omega)
      · rw [setAt_of_ne (by omega)]; exact hout i (by omega))
    n 0 a (by omega) ⟨Int.le_refl _, fun i h1 h2 => by omega, fun i _ => rfl⟩
  refine ⟨a', ha, ?_, hout⟩
  refine List.ext_getElem? (fun k => ?_)
  by_cases hk : k < n
  · rw [getElem?_seg _ _ _ _ hk, getElem?_seg _ _ _ _ hk, hin k (by omega) (by omega), Int.zero_add]
  · rw [List.getElem?_eq_none (by simp; omega), List.getElem?_eq_none (by simp; omega)]

theorem doMerge_spec (cmp : α → α → Int) (a : Int → α) {from_ to_ : Int} (h : from_ < to_) :
    ∃ a', doMerge cmp a from_ to_ = .ok a' ∧ (∀ i, i < from_ ∨ to_ < i → a' i = a i) ∧
      slice a' from_ to_ = List.merge (slice a from_ (from_ + (to_ - from_) / 2))
        (slice a (from_ + (to_ - from_) / 2 + 1) to_) (leq cmp) := by
  unfold doMerge
  rw [if_neg (by omega)]
  generalize hm : from_ + (to_ - from_) / 2 = middle
  obtain ⟨⟨tmp, l, r⟩, hloop, hfl, hlm, hmr, hrt, hcount, hmerged⟩ := forLoop_total
    (mergeTurn cmp a middle to_) (to_ - from_ + 1) (MergeInv cmp a from_ middle to_)
    (fun i s hi hs => mergeTurn_spec hi hs) (to_ - from_ + 1).toNat 0 (a, from_, middle + 1) (by omega)
    ⟨Int.le_refl _, by simp only; omega, Int.le_refl _, by simp only; omega, by simp only; omega, by simp⟩
  obtain ⟨a', hcopy, hin, hout⟩ := copyBack_spec tmp a from_ (to_ - from_ + 1).toNat
  refine ⟨a', by simp only [hloop, ok_bind, hcopy], fun i hi => hout i (by omega), ?_⟩
  simp only at hfl hlm hmr hrt hcount hmerged
  rw [slice_nil (by omega : middle < l), slice_nil (by omega : to_ < r), List.nil_merge, List.append_nil] at hmerged
  rw [← hmerged, ← hin]
  unfold slice
  congr 1; omega

/-- **The merge sort is `List.mergeSort`** on `from..to`, and leaves the other entries alone. -/
theorem doMyMergeSort_spec (cmp : α → α → Int) : ∀ (fuel : Nat) (a : Int → α) (from_ to_ : Int),
    (to_ - from_).toNat + 1 ≤ fuel → ∃ a', doMyMergeSort cmp fuel a from_ to_ = .ok a' ∧
      (∀ i, i < from_ ∨ to_ < i → a' i = a i) ∧ slice a' from_ to_ = (slice a from_ to_).mergeSort (leq cmp)
  | 0, _, _, _, hf => absurd hf (by omega)
  | fuel + 1, a, from_, to_, hf => by
    unfold doMyMergeSort
    by_cases hle : from_ ≥ to_
    · rw [if_pos hle]
      refine ⟨a, rfl, fun _ _ => rfl, ?_⟩
      by_cases heq : from_ = to_
      · rw [slice_cons (by omega), slice_nil (by omega), List.mergeSort_singleton]
      · rw [slice_nil (by omega), List.mergeSort_nil]
    rw [if_neg hle]
    by_cases h1 : to_ - from_ = 1
    · rw [if_pos h1]
      obtain rfl : to_ = from_ + 1 := by omega
      have hpair : ∀ b : Int → α, slice b from_ (from_ + 1) = [b from_, b (from_ + 1)] := fun b => by
        rw [slice_cons (by omega), slice_cons (by omega), slice_nil (by omega)]
      have hsort := mergeSort_append (leq cmp) [a from_] [a (from_ + 1)] (by simp) (by simp)
      rw [List.mergeSort_singleton, List.mergeSort_singleton, List.cons_merge_cons, List.singleton_append] at hsort
      by_cases hc : cmp (a from_) (a (from_ + 1)) > 0
      · rw [if_pos hc]
        refine ⟨_, rfl, fun i hi => swapAt_of_ne (by omega) (by omega), ?_⟩
        rw [hpair, hpair, hsort, if_neg (by simp only [leq, decide_eq_true_eq]; omega), swapAt_left, swapAt_right,
          List.merge_right]
      · rw [if_neg hc]
        refine ⟨_, rfl, fun _ _ => rfl, ?_⟩
        rw [hpair, hsort, if_pos (by simp only [leq, decide_eq_true_eq]; omega), List.nil_merge]
    rw [if_neg h1]
    generalize hm : from_ + (to_ - from_) / 2 = middle
    obtain ⟨a₁, h₁, hout₁, hsort₁⟩ := doMyMergeSort_spec cmp fuel a from_ middle (by omega)
    obtain ⟨a₂, h₂, hout₂, hsort₂⟩ := doMyMergeSort_spec cmp fuel a₁ (middle + 1) to_ (by omega)
    obtain ⟨a₃, h₃, hout₃, hmerge⟩ := doMerge_spec cmp a₂ (show from_ < to_ by omega)
    refine ⟨a₃, by simp only [h₁, h₂, h₃, ok_bind], fun i hi => ?_, ?_⟩
    · rw [hout₃ i hi, hout₂ i (by omega), hout₁ i (by omega)]
    rw [hm, slice_congr (fun i h1 h2 => hout₂ i (.inl (by omega))), hsort₁, hsort₂,
      slice_congr (fun i h1 h2 => hout₁ i (.inr (by omega)))] at hmerge
    rw [hmerge, ← slice_append a (show from_ ≤ middle + 1 by omega) (show middle ≤ to_ by omega),
      mergeSort_append _ _ _ (by simp only [length_slice]; omega) (by simp only [length_slice]; omega)]

end Arr
end MySort
end Cc
