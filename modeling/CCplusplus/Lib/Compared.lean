import CCplusplus.Lib.Compare
/-!
# Compared — the pairs that a merge sort compares

A comparator that is right on the pairs of `P` and turned round on all others (`FlipsOff`) sorts exactly the lists on
which merge sort, run with the right comparator, compares pairs of `P` only (`mergeSort_sorted_iff`): a pair judged the
wrong way round stands the wrong way round ever after, since a merge keeps the order of both its lists.
-/
namespace CLib

variable {α : Type}

/-- `cmp'` answers as `cmp` does on the pairs of `P`, and the other way round on the others. -/
structure FlipsOff (P : α → α → Prop) (cmp cmp' : α → α → Int) : Prop where
  agree : ∀ x y, P x y → cmp' x y = cmp x y
  flip : ∀ x y, ¬ P x y → cmp x y < 0 ∧ 0 < cmp' x y ∨ 0 < cmp x y ∧ cmp' x y < 0

namespace FlipsOff

variable {P : α → α → Prop} {cmp cmp' : α → α → Int}

theorem of_nonpos (h : FlipsOff P cmp cmp') {x y : α} (h1 : cmp x y ≤ 0) (h2 : cmp' x y ≤ 0) : P x y := by
  by_contra hp
  have := h.flip x y hp
  omega

theorem of_nonneg (h : FlipsOff P cmp cmp') {x y : α} (h1 : 0 ≤ cmp x y) (h2 : 0 ≤ cmp' x y) : P x y := by
  by_contra hp
  have := h.flip x y hp
  omega

/-- An element that compares equal to itself is judged rightly against itself. -/
theorem self (h : FlipsOff P cmp cmp') {x : α} (hx : cmp x x = 0) : P x x := by
  by_contra hp
  have := h.flip x x hp
  omega

end FlipsOff

/-! ## Merging -/

/-- Every pair that merging compares is in `P`. -/
def mergeMeets (P : α → α → Prop) (le : α → α → Bool) : List α → List α → Prop
  | [], _ => True
  | _ :: _, [] => True
  | x :: xs, y :: ys => P x y ∧ if le x y then mergeMeets P le xs (y :: ys) else mergeMeets P le (x :: xs) ys

theorem sublist_merge_left (le : α → α → Bool) : ∀ (xs ys : List α), xs.Sublist (List.merge xs ys le)
  | [], ys => List.nil_sublist _
  | x :: xs, [] => by
    rw [List.merge_right]
  | x :: xs, y :: ys => by
    rw [List.cons_merge_cons]
    split
    · exact (sublist_merge_left le xs (y :: ys)).cons_cons x
    · exact (sublist_merge_left le (x :: xs) ys).cons y

theorem sublist_merge_right (le : α → α → Bool) : ∀ (xs ys : List α), ys.Sublist (List.merge xs ys le)
  | [], ys => by
    rw [List.nil_merge]
  | x :: xs, [] => List.nil_sublist _
  | x :: xs, y :: ys => by
    rw [List.cons_merge_cons]
    split
    · exact (sublist_merge_right le xs (y :: ys)).cons x
    · exact (sublist_merge_right le (x :: xs) ys).cons_cons y

section
variable {P : α → α → Prop} {cmp cmp' : α → α → Int}

theorem FlipsOff.leq_eq (h : FlipsOff P cmp cmp') {x y : α} (hp : P x y) : leq cmp' x y = leq cmp x y := by
  unfold leq
  rw [h.agree x y hp]

theorem merge_eq_of_meets (h : FlipsOff P cmp cmp') : ∀ (xs ys : List α), mergeMeets P (leq cmp) xs ys →
    List.merge xs ys (leq cmp') = List.merge xs ys (leq cmp)
  | [], ys, _ => by rw [List.nil_merge, List.nil_merge]
  | x :: xs, [], _ => by rw [List.merge_right, List.merge_right]
  | x :: xs, y :: ys, hm => by
    unfold mergeMeets at hm
    obtain ⟨hp, hrest⟩ := hm
    rw [List.cons_merge_cons, List.cons_merge_cons, h.leq_eq hp]
    split
    · rename_i hle
      rw [if_pos hle] at hrest
      rw [merge_eq_of_meets h xs (y :: ys) hrest]
    · rename_i hle
      rw [if_neg hle] at hrest
      rw [merge_eq_of_meets h (x :: xs) ys hrest]

/-- A merge that comes out in order compared no pair off `P`. -/
theorem merge_meets_of_sorted (h : FlipsOff P cmp cmp') : ∀ (xs ys : List α),
    (List.merge xs ys (leq cmp')).Pairwise (fun x y => cmp x y ≤ 0) → (∀ x y, cmp x y ≤ 0 ↔ 0 ≤ cmp y x) →
    mergeMeets P (leq cmp) xs ys
  | [], ys, _, _ => by
    unfold mergeMeets
    trivial
  | x :: xs, [], _, _ => by
    unfold mergeMeets
    trivial
  | x :: xs, y :: ys, hs, hsym => by
    rw [List.cons_merge_cons] at hs
    unfold mergeMeets
    by_cases hle : leq cmp' x y = true
    · rw [if_pos hle] at hs
      have hxy : cmp x y ≤ 0 := List.rel_of_pairwise_cons hs (List.mem_merge_right _ List.mem_cons_self)
      have hp := h.of_nonpos hxy (of_decide_eq_true hle)
      refine ⟨hp, ?_⟩
      rw [h.leq_eq hp] at hle
      rw [if_pos hle]
      exact merge_meets_of_sorted h xs (y :: ys) hs.of_cons hsym
    · rw [if_neg hle] at hs
      have hyx : cmp y x ≤ 0 := List.rel_of_pairwise_cons hs (List.mem_merge_left _ List.mem_cons_self)
      have hgt : 0 < cmp' x y := by
        have := of_decide_eq_false (Bool.eq_false_iff.2 hle)
        omega
      have hp := h.of_nonneg ((hsym y x).1 hyx) (by omega)
      refine ⟨hp, ?_⟩
      rw [h.leq_eq hp] at hle
      rw [if_neg hle]
      exact merge_meets_of_sorted h (x :: xs) ys hs.of_cons hsym

end

/-! ## Sorting -/

/-- Every pair that merge sort compares is in `P`. -/
def sortMeets (P : α → α → Prop) (le : α → α → Bool) : List α → Prop
  | [] => True
  | [_] => True
  | x :: y :: l =>
    let n := ((x :: y :: l).length + 1) / 2
    sortMeets P le ((x :: y :: l).take n) ∧ sortMeets P le ((x :: y :: l).drop n) ∧
      mergeMeets P le (((x :: y :: l).take n).mergeSort le) (((x :: y :: l).drop n).mergeSort le)
termination_by l => l.length
decreasing_by
  · simp only [List.length_take, List.length_cons]
    omega
  · simp only [List.length_drop, List.length_cons]
    omega

section
variable {P : α → α → Prop} {cmp cmp' : α → α → Int}

theorem mergeSort_eq_of_meets (h : FlipsOff P cmp cmp') (l : List α) (hm : sortMeets P (leq cmp) l) :
    l.mergeSort (leq cmp') = l.mergeSort (leq cmp) := by
  induction l using sortMeets.induct with
  | case1 => rw [List.mergeSort_nil, List.mergeSort_nil]
  | case2 x => rw [List.mergeSort_singleton, List.mergeSort_singleton]
  | case3 x y l n ihl ihr =>
    unfold sortMeets at hm
    obtain ⟨hl, hr, hmerge⟩ := hm
    have h2 : 2 ≤ (x :: y :: l).length := by simp
    rw [mergeSort_halves (leq cmp') _ h2, mergeSort_halves (leq cmp) _ h2, ihl hl, ihr hr,
      merge_eq_of_meets h _ _ hmerge]

theorem meets_of_mergeSort_sorted (h : FlipsOff P cmp cmp') (hc : TotalPreorder cmp) (l : List α)
    (hs : (l.mergeSort (leq cmp')).Pairwise (fun x y => cmp x y ≤ 0)) : sortMeets P (leq cmp) l := by
  induction l using sortMeets.induct with
  | case1 =>
    unfold sortMeets
    trivial
  | case2 x =>
    unfold sortMeets
    trivial
  | case3 x y l n ihl ihr =>
    have h2 : 2 ≤ (x :: y :: l).length := by simp
    rw [mergeSort_halves (leq cmp') _ h2] at hs
    -- both halves come out in order, so they compared pairs of `P` only and are what the right comparator makes of them
    have hl := ihl (hs.sublist (sublist_merge_left _ _ _))
    have hr := ihr (hs.sublist (sublist_merge_right _ _ _))
    rw [mergeSort_eq_of_meets h _ hl, mergeSort_eq_of_meets h _ hr] at hs
    unfold sortMeets
    exact ⟨hl, hr, merge_meets_of_sorted h _ _ hs (fun x y => (hc.nonneg_iff y x).symm)⟩

/-- **Merge sort with `cmp'` sorts a list exactly when it compares pairs of `P` only.** -/
theorem mergeSort_sorted_iff (h : FlipsOff P cmp cmp') (hc : TotalPreorder cmp) (l : List α) :
    (l.mergeSort (leq cmp')).Pairwise (fun x y => cmp x y ≤ 0) ↔ sortMeets P (leq cmp) l := by
  refine ⟨meets_of_mergeSort_sorted h hc l, fun hm => ?_⟩
  rw [mergeSort_eq_of_meets h l hm]
  exact (stableSort_mergeSort hc l).sorted

end

/-- Where all pairs are in `P`, so are those that merge sort compares. -/
theorem mergeMeets_of_forall {P : α → α → Prop} {le : α → α → Bool} : ∀ (xs ys : List α),
    (∀ x ∈ xs, ∀ y ∈ ys, P x y) → mergeMeets P le xs ys
  | [], ys, _ => by
    unfold mergeMeets
    trivial
  | x :: xs, [], _ => by
    unfold mergeMeets
    trivial
  | x :: xs, y :: ys, h => by
    unfold mergeMeets
    refine ⟨h x List.mem_cons_self y List.mem_cons_self, ?_⟩
    split
    · exact mergeMeets_of_forall xs (y :: ys) (fun a ha b hb => h a (List.mem_cons_of_mem x ha) b hb)
    · exact mergeMeets_of_forall (x :: xs) ys (fun a ha b hb => h a ha b (List.mem_cons_of_mem y hb))

theorem sortMeets_of_forall {P : α → α → Prop} {le : α → α → Bool} (l : List α)
    (h : ∀ x ∈ l, ∀ y ∈ l, P x y) : sortMeets P le l := by
  induction l using sortMeets.induct with
  | case1 =>
    unfold sortMeets
    trivial
  | case2 x =>
    unfold sortMeets
    trivial
  | case3 x y l n ihl ihr =>
    unfold sortMeets
    refine ⟨ihl (fun a ha b hb => h a (List.mem_of_mem_take ha) b (List.mem_of_mem_take hb)),
      ihr (fun a ha b hb => h a (List.mem_of_mem_drop ha) b (List.mem_of_mem_drop hb)),
      mergeMeets_of_forall _ _ (fun a ha b hb => ?_)⟩
    exact h a (List.mem_of_mem_take (List.mem_mergeSort.1 ha)) b (List.mem_of_mem_drop (List.mem_mergeSort.1 hb))

end CLib
