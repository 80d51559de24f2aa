import CCplusplus.MySort
import CCplusplus.MySortArray
/-!
# MySortRefine — the byte sorts run the array sorts

Cut into elements, the region the byte-level sort works on goes through the states of the array-level sort of
`MySortArray`, and no byte outside the region changes (`doQsort_agree`, `doMyMergeSort_agree`).  The merge sort may also
stop at its assertion, when the system refuses memory for `tmp`.
-/
namespace Cc
namespace MySort

open CLib

variable {elemSize : Nat}

theorem getElem_agree {E : Fault → Prop} {m : Mem} {base : Ptr} {size : Nat} (hr : Addressable E m base size elemSize)
    {i : Int} (h0 : 0 ≤ i) (h1 : i < size) : Agree E Eq (getElem base i elemSize) (.ok (base.add (i * elemSize))) := by
  unfold getElem
  exact (hr.imul h0 h1).first (fun _ h => .ok (congrArg base.add h))

/-! ## `swap` -/

/-- The byte loop of `swap` exchanges the two elements. -/
theorem swapByte_loop (m : Mem) {pp pp2 : Ptr} {n : Nat} (hp : m.valid pp n = true) (hp2 : m.valid pp2 n = true)
    (h : Mem.apart pp n pp2 n = true) :
    ∃ s, forLoop (fun _ => swapByte) n 0 (m, pp, pp2) = .ok s ∧ s.1 = m.exchange pp pp2 n := by
  obtain ⟨s, hs, -, hinv⟩ := forLoop_total (fun _ => swapByte) (n : Int)
    (fun k s => 0 ≤ k ∧ s = (m.exchange pp pp2 k.toNat, pp.add k, pp2.add k))
    (fun k s hk ⟨h0, hs⟩ => by
      obtain ⟨j, rfl⟩ : ∃ j : Nat, k = j := ⟨k.toNat, by omega⟩
      subst hs
      have hv : m.valid (pp.add j) 1 = true := Mem.valid_add hp h0 (by omega)
      have hv2 : m.valid (pp2.add j) 1 = true := Mem.valid_add hp2 h0 (by omega)
      have ha := (Mem.apart_iff _ _ _ _).1 h
      have hbyte : ∀ (r : Ptr), (r = pp ∨ r = pp2) →
          (m.exchange pp pp2 j).byte r.block (r.off + j) = m.byte r.block (r.off + j) := fun r hr => by
        refine Mem.exchange_byte_of_outside m ?_ ?_ <;>
        · rw [← Bool.not_eq_true, Mem.inside_iff]
          rcases hr with rfl | rfl <;> omega
      refine ⟨(m.exchange pp pp2 (j + 1), (pp.add j).add 1, (pp2.add j).add 1), ?_, by omega, ?_⟩
      · unfold swapByte
        simp only [Int.toNat_natCast]
        rw [Mem.load_ok (m := m.exchange pp pp2 j) hv, ok_bind, Mem.load_ok (m := m.exchange pp pp2 j) hv2, ok_bind,
          Mem.store_ok (m := m.exchange pp pp2 j) hv, ok_bind, Mem.store_ok (by exact hv2), ok_bind]
        simp only [Ptr.add_block, Ptr.add_off, hbyte pp (.inl rfl), hbyte pp2 (.inr rfl)]
        rw [Mem.exchange_succ m h (by omega)]
        rfl
      · simp only [Ptr.add]
        rw [show ((j : Int) + 1).toNat = j + 1 by omega, Int.add_assoc, Int.add_assoc])
    n 0 (m, pp, pp2) (by omega) ⟨Int.le_refl _, by simp [Mem.exchange_zero, Ptr.add]⟩
  exact ⟨s, hs, by rw [hinv, Int.toNat_natCast]⟩

/-- The memory `m`, reached from `m₀` by writing the region at `base` only, holds the array `a` there. -/
structure Holds (m₀ : Mem) (base : Ptr) (size : Nat) (m : Mem) (a : Int → Elem elemSize) : Prop where
  same : Mem.SameOutside base (size * elemSize) m₀ m
  array : elems m base elemSize = a

theorem swap_agree {E : Fault → Prop} {m₀ m : Mem} {base : Ptr} {size : Nat} {a : Int → Elem elemSize}
    (hr : Addressable E m₀ base size elemSize) (h : Holds m₀ base size m a) (p p2 : Int) (hp0 : 0 ≤ p) (hp : p < size)
    (hq0 : 0 ≤ p2) (hq : p2 < size) (hne : p ≠ p2) :
    Agree E (Holds m₀ base size) (swap m base p p2 elemSize) (.ok (swapAt a p p2)) := by
  have hr' := hr.of_same h.same
  obtain ⟨s, hs, hm⟩ := swapByte_loop m (valid_slot hr'.live hp0 hp) (valid_slot hr'.live hq0 hq)
    (slots_apart base elemSize hne)
  unfold swap
  refine (getElem_agree hr' hp0 hp).first ?_
  rintro _ rfl
  refine (getElem_agree hr' hq0 hq).first ?_
  rintro _ rfl
  rw [hs, ok_bind]
  refine .ok ⟨h.same.trans ?_, ?_⟩
  · rw [hm]
    exact .exchange m (Region.inside_of_slot base elemSize hp0 hp) (Region.inside_of_slot base elemSize hq0 hq)
  · rw [hm, elems_exchange m base hne, h.array]

/-! ## Quick sort -/

section Qsort

variable {E : Fault → Prop} {m₀ m : Mem} {base : Ptr} {size : Nat} {cmpfn : CmpFn elemSize} {a : Int → Elem elemSize}

/-- A scan compares one element with the pivot. -/
theorem compare_agree (hr : Addressable E m base size elemSize) {begin i : Int} (hb0 : 0 ≤ begin) (hb : begin < size)
    (hi0 : 0 ≤ i) (hi : i < size) (test : Int → Bool) :
    Agree E Eq
      (getElem base i elemSize >>= fun p => callCmp m cmpfn p (base.add (begin * elemSize)) >>= fun c => pure (test c))
      (.ok (test (cmpfn (elems m base elemSize i) (elems m base elemSize begin)))) := by
  refine (getElem_agree hr hi0 hi).first ?_
  rintro _ rfl
  rw [hr.callCmp_ok cmpfn hi0 hi hb0 hb]
  exact .ok rfl

theorem scanHight_agree (hr : Addressable E m₀ base size elemSize) (h : Holds m₀ base size m a) (fuel : Nat)
    {begin low hight : Int} (h0 : 0 ≤ begin) (hb : begin ≤ low) (hl : low ≤ hight) (hs : hight < size) :
    Agree E (fun x y => x = y ∧ low ≤ x ∧ x ≤ hight)
      (scanHight fuel m base (base.add (begin * elemSize)) cmpfn low hight)
      (Arr.scanHight cmpfn fuel a begin low hight) := by
  have hr' := hr.of_same h.same
  apply Agree.whileLoop (R := fun x y => x = y ∧ low ≤ x ∧ x ≤ hight)
  · rintro x y ⟨rfl, hx1, hx2⟩
    by_cases hx : x > low
    · rw [if_pos hx, if_pos hx, ← h.array]
      exact compare_agree hr' h0 (by omega) (by omega) (by omega) (fun c => decide (c ≥ 0))
    · rw [if_neg hx, if_neg hx]; exact .ok rfl
  · rintro x y ⟨rfl, hx1, hx2⟩ hc
    have hx : x > low := Classical.byContradiction (fun hx => by rw [if_neg hx] at hc; cases hc)
    exact .ok ⟨rfl, by omega, by omega⟩
  · exact ⟨rfl, hl, Int.le_refl _⟩

theorem scanLow_agree (hr : Addressable E m₀ base size elemSize) (h : Holds m₀ base size m a) (fuel : Nat)
    {begin low hight : Int} (h0 : 0 ≤ begin) (hb : begin ≤ low) (hl : low ≤ hight) (hs : hight < size) :
    Agree E (fun x y => x = y ∧ low ≤ x ∧ x ≤ hight)
      (scanLow fuel m base (base.add (begin * elemSize)) cmpfn hight low)
      (Arr.scanLow cmpfn fuel a begin hight low) := by
  have hr' := hr.of_same h.same
  apply Agree.whileLoop (R := fun x y => x = y ∧ low ≤ x ∧ x ≤ hight)
  · rintro x y ⟨rfl, hx1, hx2⟩
    by_cases hx : x < hight
    · rw [if_pos hx, if_pos hx, ← h.array]
      exact compare_agree hr' h0 (by omega) (by omega) (by omega) (fun c => decide (c ≤ 0))
    · rw [if_neg hx, if_neg hx]; exact .ok rfl
  · rintro x y ⟨rfl, hx1, hx2⟩ hc
    have hx : x < hight := Classical.byContradiction (fun hx => by rw [if_neg hx] at hc; cases hc)
    exact .ok ⟨rfl, by omega, by omega⟩
  · exact ⟨rfl, Int.le_refl _, hl⟩

/-- The states of the two outer loops: the same indices, ordered, and the array that memory holds. -/
structure TurnRel (m₀ : Mem) (base : Ptr) (size : Nat) (begin end_ : Int) (s : Mem × Int × Int)
    (t : (Int → Elem elemSize) × Int × Int) : Prop where
  holds : Holds m₀ base size s.1 t.1
  indices : s.2 = t.2
  beginLow : begin ≤ t.2.1
  lowHight : t.2.1 ≤ t.2.2
  hightEnd : t.2.2 ≤ end_

theorem partitionTurn_agree (hr : Addressable E m₀ base size elemSize) (fuel : Nat) {begin end_ : Int} (h0 : 0 ≤ begin)
    (he : end_ < size) {s : Mem × Int × Int} {t : (Int → Elem elemSize) × Int × Int}
    (h : TurnRel m₀ base size begin end_ s t) :
    Agree E (TurnRel m₀ base size begin end_) (partitionTurn fuel base (base.add (begin * elemSize)) cmpfn s)
      (Arr.partitionTurn cmpfn fuel begin t) := by
  obtain ⟨m, low, hight⟩ := s
  obtain ⟨a, low', hight'⟩ := t
  obtain ⟨hm, hidx, hbl, hlh, hhe⟩ := h
  obtain ⟨rfl, rfl⟩ := Prod.mk.inj hidx
  simp only at hm hbl hlh hhe
  unfold partitionTurn Arr.partitionTurn
  apply (scanHight_agree hr hm fuel h0 hbl hlh (by omega)).bind
  rintro x _ ⟨rfl, hx1, hx2⟩
  apply (scanLow_agree hr hm fuel h0 hbl hx1 (by omega)).bind
  rintro y _ ⟨rfl, hy1, hy2⟩
  by_cases hxy : x > y
  · rw [if_pos hxy, if_pos hxy]
    refine (swap_agree hr hm x y (by omega) (by omega) (by omega) (by omega) (by omega)).first (fun m' hm' => ?_)
    exact .ok ⟨hm', rfl, by simp only; omega, by simp only; omega, by simp only; omega⟩
  · rw [if_neg hxy, if_neg hxy]
    exact .ok ⟨hm, rfl, by simp only; omega, by simp only; omega, by simp only; omega⟩

theorem myPartition_agree (hr : Addressable E m₀ base size elemSize) (h : Holds m₀ base size m a) (fuel : Nat)
    {begin end_ : Int} (h0 : 0 ≤ begin) (hbe : begin ≤ end_) (he : end_ < size) :
    Agree E (fun x y => Holds m₀ base size x.1 y.1 ∧ x.2 = y.2 ∧ begin ≤ x.2 ∧ x.2 ≤ end_)
      (myPartition fuel m base begin end_ cmpfn) (Arr.myPartition cmpfn fuel a begin end_) := by
  unfold myPartition Arr.myPartition
  refine (hr.imul h0 (by omega)).first ?_
  rintro _ rfl
  have hloop : Agree E (TurnRel m₀ base size begin end_)
      (whileLoop (fun s => pure (decide (s.2.1 < s.2.2)))
        (partitionTurn fuel base (base.add (begin * elemSize)) cmpfn) fuel (m, begin, end_))
      (whileLoop (fun s => pure (decide (s.2.1 < s.2.2))) (Arr.partitionTurn cmpfn fuel begin) fuel
        (a, begin, end_)) := by
    apply Agree.whileLoop
    · intro s t hst
      rw [hst.indices]; exact .ok rfl
    · intro s t hst _
      exact partitionTurn_agree hr fuel h0 he hst
    · exact ⟨h, rfl, Int.le_refl _, hbe, Int.le_refl _⟩
  apply hloop.bind
  rintro ⟨m', low, hight⟩ ⟨a', low', hight'⟩ ⟨hm, hidx, hbl, hlh, hhe⟩
  obtain ⟨rfl, rfl⟩ := Prod.mk.inj hidx
  simp only at hm hbl hlh hhe
  by_cases hlow : low > begin
  · simp only [if_pos hlow]
    refine (swap_agree hr hm low begin (by omega) (by omega) h0 (by omega) (by omega)).first (fun m'' hm'' => ?_)
    exact .ok ⟨hm'', rfl, hbl, by simp only; omega⟩
  · simp only [if_neg hlow]
    exact .ok ⟨hm, rfl, hbl, by simp only; omega⟩

/-- **The byte-level quick sort runs the array-level one.** -/
theorem doQsort_agree (cmpfn : CmpFn elemSize) (hr : Addressable E m₀ base size elemSize) :
    ∀ (fuel : Nat) (m : Mem) (a : Int → Elem elemSize) (begin end_ : Int), Holds m₀ base size m a → 0 ≤ begin →
      end_ < size →
      Agree E (Holds m₀ base size) (doQsort fuel m base begin end_ cmpfn) (Arr.doQsort cmpfn fuel a begin end_)
  | 0, _, _, _, _, _, _, _ => .error _
  | fuel + 1, m, a, begin, end_, h, h0, he => by
    unfold doQsort Arr.doQsort
    by_cases hle : end_ ≤ begin
    · rw [if_pos hle, if_pos hle]; exact .ok h
    rw [if_neg hle, if_neg hle]
    apply (myPartition_agree hr h fuel h0 (by omega) he).bind
    rintro ⟨m₁, p⟩ ⟨a₁, p'⟩ ⟨h₁, hp, hp1, hp2⟩
    simp only at h₁ hp hp1 hp2
    subst hp
    apply (doQsort_agree cmpfn hr fuel m₁ a₁ begin (p - 1) h₁ h0 (by omega)).bind
    intro m₂ a₂ h₂
    exact doQsort_agree cmpfn hr fuel m₂ a₂ (p + 1) end_ h₂ (by omega) he

end Qsort

/-! ## Merge sort -/

section MergeSort

variable {m₀ m : Mem} {base tmp : Ptr} {size : Nat} {cmpfn : CmpFn elemSize} {a : Int → Elem elemSize}

/-- The states of the merge loop before turn `i`: `tmp` holds the first `i` entries, the rest of memory is as it was. -/
structure MergeRel (m₁ : Mem) (base tmp : Ptr) (n : Nat) (a : Int → Elem elemSize) (from_ middle to_ i : Int)
    (s : Mem × Int × Int) (t : (Int → Elem elemSize) × Int × Int) : Prop where
  same : Mem.SameOutside tmp (n * elemSize) m₁ s.1
  array : elems s.1 base elemSize = a
  written : ∀ k, 0 ≤ k → k < i → elems s.1 tmp elemSize k = t.1 k
  indices : s.2 = t.2
  start : 0 ≤ i
  fromLeft : from_ ≤ t.2.1
  leftMiddle : t.2.1 ≤ middle + 1
  middleRight : middle + 1 ≤ t.2.2
  rightTo : t.2.2 ≤ to_ + 1
  count : t.2.1 - from_ + (t.2.2 - (middle + 1)) = i

theorem mergeTurn_agree {E : Fault → Prop} {m₁ : Mem} {n : Nat} (hr : Addressable E m₁ base size elemSize)
    (hrt : Addressable E m₁ tmp n elemSize) (hne : tmp.block ≠ base.block) (hb : base.block < m₁.next)
    {from_ middle to_ i : Int} (hf : 0 ≤ from_) (hto : to_ < size) (hn : (n : Int) = to_ - from_ + 1) (hi : i < n)
    (hmt : middle ≤ to_) {s : Mem × Int × Int} {t : (Int → Elem elemSize) × Int × Int}
    (h : MergeRel m₁ base tmp n a from_ middle to_ i s t) :
    Agree E (MergeRel m₁ base tmp n a from_ middle to_ (i + 1)) (mergeTurn base tmp middle to_ cmpfn i s)
      (Arr.mergeTurn cmpfn a middle to_ i t) := by
  obtain ⟨m, l, r⟩ := s
  obtain ⟨t, l', r'⟩ := t
  obtain ⟨hsame, harr, hwr, hidx, hst, hfl, hlm, hmr, hrt', hcount⟩ := h
  obtain ⟨rfl, rfl⟩ := Prod.mk.inj hidx
  simp only at hsame harr hwr hfl hlm hmr hrt' hcount
  have hrm := hr.of_same hsame
  have hrtm := hrt.of_same hsame
  -- taking entry `j` of the array into slot `i` of `tmp`
  have take : ∀ (j l₁ r₁ : Int), 0 ≤ j → j < size → from_ ≤ l₁ → l₁ ≤ middle + 1 → middle + 1 ≤ r₁ → r₁ ≤ to_ + 1 →
      l₁ - from_ + (r₁ - (middle + 1)) = i + 1 →
      Agree E (MergeRel m₁ base tmp n a from_ middle to_ (i + 1))
        (m.memcpy (tmp.add (i * elemSize)) (base.add (j * elemSize)) elemSize >>= fun m => pure (m, l₁, r₁))
        (pure (setAt t i (a j), l₁, r₁)) := by
    intro j l₁ r₁ hj0 hj h1 h2 h3 h4 h5
    obtain ⟨m', hcpy, helems, hsame'⟩ := memcpy_slot hrtm.live hst hi (valid_slot hrm.live hj0 hj)
      ((Mem.apart_iff _ _ _ _).2 (.inl hne))
    rw [hcpy, ok_bind]
    have hnext := hsame.next
    refine .ok ⟨hsame.trans hsame', ?_, fun k hk0 hk => ?_, rfl, by omega, h1, h2, h3, h4, h5⟩
    · rw [elems_of_same hsame' (by omega) hne, harr]
    · simp only at helems ⊢
      rw [helems, ← harr]
      by_cases hki : k = i
      · rw [hki, setAt_same, setAt_same]; rfl
      · rw [setAt_of_ne hki, setAt_of_ne hki]; exact hwr k hk0 (by omega)
  unfold mergeTurn Arr.mergeTurn
  dsimp only
  refine (getElem_agree hrtm hst hi).first ?_
  rintro _ rfl
  by_cases hl : l > middle
  · rw [if_pos hl, if_pos hl]
    refine (getElem_agree hrm (by omega) (by omega)).first ?_
    rintro _ rfl
    exact take r l (r + 1) (by omega) (by omega) hfl hlm (by omega) (by omega) (by omega)
  rw [if_neg hl, if_neg hl]
  by_cases hrr : r > to_
  · rw [if_pos hrr, if_pos hrr]
    refine (getElem_agree hrm (by omega) (by omega)).first ?_
    rintro _ rfl
    exact take l (l + 1) r (by omega) (by omega) (by omega) (by omega) hmr hrt' (by omega)
  rw [if_neg hrr, if_neg hrr]
  refine (getElem_agree hrm (i := l) (by omega) (by omega)).first ?_
  rintro _ rfl
  refine (getElem_agree hrm (i := r) (by omega) (by omega)).first ?_
  rintro _ rfl
  rw [hrm.callCmp_ok cmpfn (by omega) (by omega) (by omega) (by omega), ok_bind, harr]
  by_cases hc : cmpfn (a l) (a r) > 0
  · rw [if_pos hc, if_pos hc]
    exact take r l (r + 1) (by omega) (by omega) hfl hlm (by omega) (by omega) (by omega)
  · rw [if_neg hc, if_neg hc]
    exact take l (l + 1) r (by omega) (by omega) (by omega) (by omega) hmr hrt' (by omega)

theorem copyBack_agree {E : Fault → Prop} {m₂ : Mem} {n : Nat} (hr : Addressable E m₂ base size elemSize)
    (hrt : Addressable E m₂ tmp n elemSize) (hne : base.block ≠ tmp.block) (hb : tmp.block < m₂.next) {from_ : Int}
    (hf : 0 ≤ from_) (hto : from_ + n ≤ size) {t : Int → Elem elemSize}
    (ht : ∀ k : Int, 0 ≤ k → k < n → elems m₂ tmp elemSize k = t k) :
    Agree E (Holds m₂ base size) (forLoop (copyBackTurn base tmp from_ elemSize) n 0 m₂)
      (forLoop (Arr.copyBackTurn t from_) n 0 (elems m₂ base elemSize)) := by
  have hloop := Agree.forLoop (E := E) (n : Int) (copyBackTurn base tmp from_ elemSize)
    (Arr.copyBackTurn t from_) (R := fun i m a => 0 ≤ i ∧ Holds m₂ base size m a) ?_ n 0 m₂
    (elems m₂ base elemSize) (by omega) ⟨Int.le_refl _, .refl _ _ _, rfl⟩
  · exact hloop.imp (fun _ _ h => h.2)
  rintro i m a hi ⟨h0, h⟩
  have hrm := hr.of_same h.same
  have hrtm := hrt.of_same h.same
  obtain ⟨m', hcpy, helems, hsame⟩ := memcpy_slot hrm.live (i := from_ + i) (by omega) (by omega)
    (valid_slot hrtm.live h0 hi) ((Mem.apart_iff _ _ _ _).2 (.inl hne))
  have htmp : m.bytes (tmp.add (i * elemSize)) elemSize = t i := by
    rw [← ht i h0 hi]; exact congrFun (elems_of_same h.same hb hne) i
  unfold copyBackTurn Arr.copyBackTurn
  refine (getElem_agree hrtm h0 hi).first ?_
  rintro _ rfl
  refine (getElem_agree hrm (by omega) (by omega)).first ?_
  rintro _ rfl
  rw [hcpy]
  exact .ok ⟨by omega, h.same.trans hsame, by rw [helems, h.array, htmp]⟩

/-- The one way the merge sort stops early: its assertion, after the system refused a request. -/
def Refused (m : Mem) (e : Fault) : Prop := e = .assertion ∧ ∃ k, m.os k = .refuse

/-- **The byte-level merge runs the array-level one**, unless it is refused memory or the size of `tmp` overflows. -/
theorem doMerge_agree {E : Fault → Prop} (hr : Addressable E m₀ base size elemSize) (hE : ∀ e, Refused m₀ e → E e)
    (h : Holds m₀ base size m a) {from_ to_ : Int} (hf : 0 ≤ from_) (hto : to_ < size)
    (hfit : E .overflow ∨ (to_ - from_ + 1) * elemSize ≤ INT_MAX) :
    Agree E (Holds m₀ base size) (doMerge m base from_ to_ cmpfn) (Arr.doMerge cmpfn a from_ to_) := by
  unfold doMerge Arr.doMerge
  by_cases hle : from_ ≥ to_
  · rw [if_pos hle, if_pos hle]; exact .ok h
  rw [if_neg hle, if_neg hle]
  generalize hn : (to_ - from_ + 1).toNat = n
  have hnt : to_ - from_ + 1 = n := by omega
  have hrm := hr.of_same h.same
  have hlt := block_lt_next hrm.live
  have hnat : ((n * elemSize : Nat) : Int) = n * elemSize := Int.natCast_mul _ _
  rw [hnt] at hfit ⊢
  by_cases hn : INT_MAX < (n : Int) * elemSize
  · rw [imul_overflow hn]
    exact .stop (hfit.resolve_right (by omega))
  rw [imul_ok (by omega) (by omega), ok_bind, ← hnat, Int.toNat_natCast]
  generalize hmid : from_ + (to_ - from_) / 2 = middle
  rcases Mem.malloc_cases m (n * elemSize) with ⟨hos, hnull⟩ | ⟨m₁, hmalloc, halloc⟩
  · obtain ⟨p, m₁, hm₁⟩ : ∃ p m₁, m.malloc (n * elemSize) = (p, m₁) := ⟨_, _, rfl⟩
    rw [hm₁] at hnull ⊢
    simp only at hnull
    subst hnull
    exact .stop (hE _ ⟨rfl, m.next, by rw [← h.same.os]; exact hos⟩)
  simp only [hmalloc]
  have hne : m.next ≠ base.block := by omega
  have hr₁ : Addressable E m₁ base size elemSize := by
    refine ⟨?_, hr.fits⟩
    rw [Mem.valid_congr (halloc.old _ (Ne.symm hne))]; exact hrm.live
  have hrt₁ : Region m₁ ⟨m.next, 0⟩ n elemSize := by
    refine ⟨(Mem.valid_iff _ _ _).2 ⟨_, halloc.new, Int.le_refl _, by simp⟩, by omega⟩
  have haddr₁ : Addressable E m₁ ⟨m.next, 0⟩ n elemSize := hrt₁.addressable
  have hnext₁ := halloc.next
  have harr₁ : elems m₁ base elemSize = a := by
    rw [← h.array]
    funext i k
    exact congrFun (halloc.byte _ (Ne.symm hne)) _
  have hloop := Agree.forLoop (E := E) (n : Int)
    (mergeTurn base ⟨m.next, 0⟩ middle to_ cmpfn) (Arr.mergeTurn cmpfn a middle to_)
    (R := MergeRel m₁ base ⟨m.next, 0⟩ n a from_ middle to_)
    (fun i s t hi hst => mergeTurn_agree hr₁ haddr₁ hne (by omega) hf hto hnt.symm hi (by omega) hst)
    n 0 (m₁, from_, middle + 1) (a, from_, middle + 1) (by omega)
    ⟨.refl _ _ _, harr₁, fun k h1 h2 => by omega, rfl, Int.le_refl _, Int.le_refl _, by simp only; omega, Int.le_refl _,
      by simp only; omega, by simp only; omega⟩
  apply hloop.bind
  rintro ⟨m₂, l, r⟩ ⟨t, l', r'⟩ hrel
  have hsame₂ := hrel.same
  have harr₂ := hrel.array
  simp only at hsame₂ harr₂ ⊢
  have hnext₂ := hsame₂.next
  have hcopy := copyBack_agree (hr₁.of_same hsame₂) (haddr₁.of_same hsame₂) (Ne.symm hne)
    (by simp only; omega) hf (by omega) hrel.written
  rw [harr₂] at hcopy
  generalize hy : forLoop (Arr.copyBackTurn t from_) n 0 a = y at hcopy ⊢
  cases hx : forLoop (copyBackTurn base ⟨m.next, 0⟩ from_ elemSize) n 0 m₂ with
  | error e =>
    rw [hx] at hcopy
    cases hcopy with
    | error => exact .error e
    | stop he => exact .stop he
  | ok m₃ =>
    rw [hx] at hcopy
    cases hcopy with
    | ok h₃ =>
      obtain ⟨m₄, hfree, hsame₄, hbyte⟩ := Mem.SameOutside.scratch halloc hsame₂ h₃.same
      rw [ok_bind, hfree]
      exact .ok ⟨h.same.trans hsame₄, by rw [← h₃.array]; unfold elems Mem.bytes; rw [hbyte]⟩

/-- **The byte-level merge sort runs the array-level one**, unless it is refused memory or a product overflows. -/
theorem doMyMergeSort_agree {E : Fault → Prop} (cmpfn : CmpFn elemSize) (hr : Addressable E m₀ base size elemSize)
    (hE : ∀ e, Refused m₀ e → E e) (hfit : 3 ≤ size → E .overflow ∨ (size * elemSize : Int) ≤ INT_MAX) :
    ∀ (fuel : Nat) (m : Mem) (a : Int → Elem elemSize) (from_ to_ : Int), Holds m₀ base size m a → 0 ≤ from_ →
      to_ < size →
      Agree E (Holds m₀ base size) (doMyMergeSort fuel m base from_ to_ cmpfn)
        (Arr.doMyMergeSort cmpfn fuel a from_ to_)
  | 0, _, _, _, _, _, _, _ => .error _
  | fuel + 1, m, a, from_, to_, h, h0, hto => by
    have hrm := hr.of_same h.same
    unfold doMyMergeSort Arr.doMyMergeSort
    by_cases hle : from_ ≥ to_
    · rw [if_pos hle, if_pos hle]; exact .ok h
    rw [if_neg hle, if_neg hle]
    by_cases h1 : to_ - from_ = 1
    · rw [if_pos h1, if_pos h1]
      refine (getElem_agree hrm (i := from_) h0 (by omega)).first ?_
      rintro _ rfl
      refine (getElem_agree hrm (i := to_) (by omega) hto).first ?_
      rintro _ rfl
      rw [hrm.callCmp_ok cmpfn h0 (by omega) (by omega) hto, ok_bind, h.array]
      by_cases hc : cmpfn (a from_) (a to_) > 0
      · rw [if_pos hc, if_pos hc]
        exact swap_agree hr h from_ to_ h0 (by omega) (by omega) hto (by omega)
      · rw [if_neg hc, if_neg hc]; exact .ok h
    rw [if_neg h1, if_neg h1]
    generalize hmid : from_ + (to_ - from_) / 2 = middle
    apply (doMyMergeSort_agree cmpfn hr hE hfit fuel m a from_ middle h h0 (by omega)).bind
    intro m₁ a₁ h₁
    apply (doMyMergeSort_agree cmpfn hr hE hfit fuel m₁ a₁ (middle + 1) to_ h₁ (by omega) hto).bind
    intro m₂ a₂ h₂
    refine doMerge_agree hr hE h₂ h0 hto ((hfit (by omega)).imp id (fun hle => ?_))
    have hmul : (to_ - from_ + 1) * (elemSize : Int) ≤ size * elemSize :=
      Int.mul_le_mul_of_nonneg_right (by omega) (by omega)
    omega

end MergeSort

/-! ## What the sorts leave in memory -/

/-- Three elements of two bytes, which `cmpFirst` compares by their first byte. -/
def threeElems : Mem := Mem.single 6 (fun o => UInt8.ofInt (7 - o)) (fun _ => .grant (fun _ => 0) false)

def cmpFirst : CmpFn 2 := fun x y => ((x ⟨0, Nat.zero_lt_two⟩).toNat : Int) - (y ⟨0, Nat.zero_lt_two⟩).toNat

theorem region_threeElems : Region threeElems ⟨0, 0⟩ 3 2 := ⟨by decide, by decide⟩

theorem cmpFirst_preorder : TotalPreorder cmpFirst := TotalPreorder.of_sub _

/-- Where the array-level quick sort returns, so does `my_qsort`, with that array in the region. -/
theorem myQsort_contents {m : Mem} {base : Ptr} {size : Nat} {cmpfn : CmpFn elemSize}
    (hr : Region m base size elemSize) {a' : Int → Elem elemSize} {fuel : Nat}
    (ha : Arr.doQsort cmpfn fuel (elems m base elemSize) 0 (size - 1) = .ok a') :
    ∃ m', myQsort fuel m base size cmpfn = .ok m' ∧ contents m' base size elemSize = seg a' 0 size ∧
      Mem.SameOutside base (size * elemSize) m m' := by
  have hagree := doQsort_agree (E := fun _ => False) cmpfn hr.addressable fuel m (elems m base elemSize) 0 (size - 1)
    ⟨.refl _ _ _, rfl⟩ (Int.le_refl _) (by omega)
  rw [ha] at hagree
  rcases hagree.of_ok with ⟨m', hm, hholds⟩ | ⟨e, -, he⟩
  · refine ⟨m', hm, ?_, hholds.same⟩
    unfold contents
    rw [hholds.array]
  · exact he.elim

/-- `my_merge_sort` leaves `List.mergeSort` of the region in it, unless it is refused memory. -/
theorem myMergeSort_contents {m : Mem} {base : Ptr} {size : Nat} (cmpfn : CmpFn elemSize)
    (hr : Region m base size elemSize) {fuel : Nat} (hfuel : size + 1 ≤ fuel) :
    (∃ m', myMergeSort fuel m base size cmpfn = .ok m' ∧
      contents m' base size elemSize = (contents m base size elemSize).mergeSort (leq cmpfn) ∧
      Mem.SameOutside base (size * elemSize) m m') ∨
    (myMergeSort fuel m base size cmpfn = .error .assertion ∧ ∃ k, m.os k = .refuse) := by
  obtain ⟨a', ha, -, hsort⟩ := Arr.doMyMergeSort_spec cmpfn fuel (elems m base elemSize) 0 (size - 1) (by omega)
  have hagree := doMyMergeSort_agree (E := Refused m) cmpfn hr.addressable (fun _ he => he) (fun _ => .inr hr.fits)
    fuel m (elems m base elemSize) 0 (size - 1)
    ⟨.refl _ _ _, rfl⟩ (Int.le_refl _) (by omega)
  rw [ha] at hagree
  rcases hagree.of_ok with ⟨m', hm, hholds⟩ | ⟨e, he, hrefused⟩
  · refine .inl ⟨m', hm, ?_, hholds.same⟩
    have e : ((size : Int) - 1 + 1 - 0).toNat = size := by omega
    unfold slice at hsort
    rw [e] at hsort
    unfold contents
    rw [hholds.array, hsort]
  · obtain ⟨rfl, hk⟩ := hrefused
    exact .inr ⟨he, hk⟩

/-- **`my_qsort` sorts.**  On a region of `size` elements, with a comparator that is a total preorder, it returns, and
the region then holds a permutation of its elements in the comparator's order; no byte outside the region changes. -/
theorem myQsort_sorts (m : Mem) (base : Ptr) (size : Nat) (cmpfn : CmpFn elemSize)
    (hr : Region m base size elemSize) (hc : TotalPreorder cmpfn) (fuel : Nat) (hfuel : size + 2 ≤ fuel) :
    ∃ m', myQsort fuel m base size cmpfn = .ok m' ∧
      (contents m' base size elemSize).Perm (contents m base size elemSize) ∧
      (contents m' base size elemSize).Pairwise (fun x y => cmpfn x y ≤ 0) ∧
      Mem.SameOutside base (size * elemSize) m m' := by
  obtain ⟨a', ha, hperm, hsort⟩ := Arr.doQsort_spec hc.refl fuel (elems m base elemSize) 0 (size - 1) (by omega)
  obtain ⟨m', hm, hcontents, hsame⟩ := myQsort_contents hr ha
  refine ⟨m', hm, ?_, ?_, hsame⟩
  · rw [hcontents]
    exact hperm.perm_seg size (by omega)
  · rw [hcontents]
    exact pairwise_seg (fun i j h1 h2 h3 => hsort hc i j h1 h2 (by omega))

theorem myQsort_sorts_three :
    ∃ m', myQsort 5 threeElems ⟨0, 0⟩ (3 : Nat) cmpFirst = .ok m' ∧
      (contents m' ⟨0, 0⟩ 3 2).Perm (contents threeElems ⟨0, 0⟩ 3 2) ∧
      (contents m' ⟨0, 0⟩ 3 2).Pairwise (fun x y => cmpFirst x y ≤ 0) ∧
      Mem.SameOutside ⟨0, 0⟩ (3 * 2) threeElems m' :=
  myQsort_sorts threeElems ⟨0, 0⟩ 3 cmpFirst region_threeElems cmpFirst_preorder 5 (by decide)

/-- **`my_merge_sort` is the stable sort.**  On a region of `size` elements, with a comparator that is a total preorder,
it returns, and the region then holds the one stable sort of its elements; no byte outside the region changes.  The only
other way it ends is its assertion that memory for `tmp` was granted. -/
theorem myMergeSort_stable (m : Mem) (base : Ptr) (size : Nat) (cmpfn : CmpFn elemSize)
    (hr : Region m base size elemSize) (hc : TotalPreorder cmpfn) (fuel : Nat) (hfuel : size + 1 ≤ fuel) :
    (∃ m', myMergeSort fuel m base size cmpfn = .ok m' ∧
      StableSort cmpfn (contents m base size elemSize) (contents m' base size elemSize) ∧
      (∀ l, StableSort cmpfn (contents m base size elemSize) l → l = contents m' base size elemSize) ∧
      Mem.SameOutside base (size * elemSize) m m') ∨
    (myMergeSort fuel m base size cmpfn = .error .assertion ∧ ∃ k, m.os k = .refuse) := by
  rcases myMergeSort_contents cmpfn hr hfuel with ⟨m', hm, hcontents, hsame⟩ | ⟨he, hk⟩
  · have hstable := stableSort_mergeSort hc (contents m base size elemSize)
    rw [← hcontents] at hstable
    exact .inl ⟨m', hm, hstable, fun l hl => hl.unique hc hstable, hsame⟩
  · exact .inr ⟨he, hk⟩

theorem myMergeSort_stable_three :
    (∃ m', myMergeSort 4 threeElems ⟨0, 0⟩ (3 : Nat) cmpFirst = .ok m' ∧
      StableSort cmpFirst (contents threeElems ⟨0, 0⟩ 3 2) (contents m' ⟨0, 0⟩ 3 2) ∧
      (∀ l, StableSort cmpFirst (contents threeElems ⟨0, 0⟩ 3 2) l → l = contents m' ⟨0, 0⟩ 3 2) ∧
      Mem.SameOutside ⟨0, 0⟩ (3 * 2) threeElems m') ∨
    (myMergeSort 4 threeElems ⟨0, 0⟩ (3 : Nat) cmpFirst = .error .assertion ∧ ∃ k, threeElems.os k = .refuse) :=
  myMergeSort_stable threeElems ⟨0, 0⟩ 3 cmpFirst region_threeElems cmpFirst_preorder 4 (by decide)

end MySort
end Cc
