import CCplusplus.MyArrayList
/-!
# MyArrayListRefine — the byte list is a sequence

`Refines m list xs` says that the slots in use hold `xs`.  Every call a caller may make keeps it, with `xs` changed and
the call answered as on a plain sequence, or ends at the assertion that memory was granted (`step_follows`); so does
every run (`run_follows`).
-/
namespace Cc
namespace MyArrayList

open CLib

variable {elemSize : Nat}

/-- The list holds the sequence `xs`. -/
structure Refines (m : Mem) (list : MyArrayList) (xs : List (Elem elemSize)) : Prop where
  width : list.elemSize = elemSize
  count : list.currentSize = xs.length
  room : list.currentSize ≤ list.size
  positive : 0 < list.size ∧ 0 < elemSize
  base : list.values.off = 0
  live : m.size list.values.block = some (list.size.toNat * elemSize)
  fits : list.size * elemSize ≤ INT_MAX
  holds : contents m list.values xs.length elemSize = xs

/-- A factor of a product that is an `int`. -/
theorem le_of_mul_le {x : Int} {n : Nat} (h0 : 0 ≤ x) (hn : 0 < n) (h : x * n ≤ INT_MAX) : x ≤ INT_MAX := by
  have h1 : x * 1 ≤ x * (n : Int) := Int.mul_le_mul_of_nonneg_left (by omega) h0
  omega

namespace Refines

variable {m : Mem} {list : MyArrayList} {xs : List (Elem elemSize)}

theorem region (h : Refines m list xs) : Region m list.values list.size.toNat elemSize := by
  have hp := h.positive.1
  refine ⟨(Mem.valid_iff _ _ _).2 ⟨_, h.live, ?_, ?_⟩, ?_⟩
  · exact Int.le_of_eq h.base.symm
  · exact Int.le_of_eq (by rw [h.base, Int.zero_add])
  · rw [Int.toNat_of_nonneg (by omega)]
    exact h.fits

/-- The slots of the block are addressed without wrapping around. -/
theorem elemAddr_eq (h : Refines m list xs) {i : Int} (h0 : 0 ≤ i) (h1 : i < list.size) :
    elemAddr list i = list.values.add (i * elemSize) := by
  have hp := h.positive.1
  have hb := slot_bounds list.size.toNat elemSize h0 (by omega)
  have hf := h.fits
  rw [Int.natCast_mul, Int.toNat_of_nonneg (by omega)] at hb
  unfold elemAddr
  rw [h.width, asInt_eq hb.1 (by omega)]

theorem sizeT_eq (h : Refines m list xs) : asSizeT list.elemSize = elemSize := by
  have hp := h.positive
  have h1 : (1 : Int) * elemSize ≤ list.size * elemSize := Int.mul_le_mul_of_nonneg_right (by omega) (by omega)
  have hf := h.fits
  rw [h.width, asSizeT_of_nonneg (by omega) (by omega), Int.toNat_natCast]

/-- Memory changed outside the list's block. -/
theorem frame (h : Refines m list xs) {m' : Mem} (hs : m'.size list.values.block = m.size list.values.block)
    (hb : m'.byte list.values.block = m.byte list.values.block) : Refines m' list xs where
  width := h.width
  count := h.count
  room := h.room
  positive := h.positive
  base := h.base
  live := hs.trans h.live
  fits := h.fits
  holds := by
    have he : elems m' list.values elemSize = elems m list.values elemSize := by
      unfold elems Mem.bytes
      simp only [Ptr.add_block, hb]
    have hold := h.holds
    unfold contents at hold ⊢
    rw [he, hold]

end Refines

/-! ## `list_new` and `list_grow` -/

theorem listNew_refines (m : Mem) {size elemSize : Nat} (hs : 0 < size) (he : 0 < elemSize)
    (hf : (size : Int) * elemSize ≤ INT_MAX) :
    (listNew m size elemSize = .error .assertion ∧ m.os m.next = .refuse) ∨
      ∃ m' list, listNew m size elemSize = .ok (m', list) ∧ Refines m' list ([] : List (Elem elemSize)) ∧
        m'.os = m.os := by
  have hnn : (0 : Int) ≤ size * elemSize := Int.mul_nonneg (by omega) (by omega)
  have hbytes : asSizeT (asInt ((size : Int) * elemSize)) = size * elemSize := by
    rw [asInt_eq hnn hf, asSizeT_of_nonneg hnn hf, ← Int.natCast_mul, Int.toNat_natCast]
  unfold listNew
  rw [if_pos ⟨by omega, by omega⟩, hbytes]
  rcases Mem.malloc_cases m (size * elemSize) with ⟨hos, hnull⟩ | ⟨m', hm, ha⟩
  · left
    refine ⟨?_, hos⟩
    split
    · rfl
    · rename_i hsome
      rw [hsome] at hnull; cases hnull
  · right
    rw [hm]
    exact ⟨m', _, rfl, ⟨rfl, rfl, Int.natCast_nonneg size, ⟨by simpa using hs, he⟩, rfl, ha.new, hf, rfl⟩, ha.os⟩

/-- **Growth keeps the sequence**, doubles the capacity, and leaves the other blocks alone. -/
theorem listGrow_refines {m : Mem} {list : MyArrayList} {xs : List (Elem elemSize)} (h : Refines m list xs)
    (hf : list.size * 2 * elemSize ≤ INT_MAX) :
    (listGrow m list = .error .assertion ∧ m.os m.next = .refuse) ∨
      ∃ m' list', listGrow m list = .ok (m', list') ∧ Refines m' list' xs ∧ list'.size = list.size * 2 ∧ m'.os = m.os ∧
        ∀ b, b ≠ list.values.block → b < m.next →
          b ≠ list'.values.block ∧ m'.size b = m.size b ∧ m'.byte b = m.byte b := by
  have hp := h.positive
  have hle := le_of_mul_le (x := list.size * 2) (by omega) hp.2 hf
  have hnn : 0 ≤ list.size * 2 * elemSize := Int.mul_nonneg (by omega) (by omega)
  have hbytes : asSizeT (asInt (list.size * 2 * elemSize)) = (list.size * 2).toNat * elemSize := by
    rw [asInt_eq hnn hf, asSizeT_of_nonneg hnn hf, Int.toNat_mul (by omega) (by omega), Int.toNat_natCast]
  unfold listGrow
  rw [asInt_eq (x := list.size * 2) (by omega) hle, h.width]
  dsimp only
  rw [hbytes]
  rcases Mem.realloc_cases h.live h.base ((list.size * 2).toNat * elemSize) with ⟨hos, m', hm⟩ | ⟨q, m', hm, hr⟩
  · left
    rw [hm]
    exact ⟨rfl, hos⟩
  · right
    rw [hm]
    refine ⟨m', _, rfl, ⟨rfl, h.count, ?_, ?_, hr.off, hr.new, hf, ?_⟩, rfl, hr.os, fun b hb hn => ?_⟩
    · have := h.room
      exact (by omega : list.currentSize ≤ list.size * 2)
    · exact ⟨(by omega : 0 < list.size * 2), hp.2⟩
    · -- the elements in use lie in the part that both sizes reach
      have hc := h.count
      have hroom := h.room
      have hold := h.holds
      unfold contents at hold ⊢
      rw [← hold, length_seg]
      apply seg_congr
      intro i h0 hi
      funext k
      have hb := slot_bounds list.size.toNat elemSize h0 (by omega)
      have hk := k.isLt
      unfold elems Mem.bytes
      simp only [Ptr.add_block, Ptr.add_off, hr.off, h.base]
      rw [hr.kept _ (by omega)]
    · refine ⟨?_, hr.oldSize b hb hn, hr.oldByte b hb hn⟩
      rcases hr.block with he | he
      · rw [he]; exact hb
      · rw [he]; omega

/-! ## The operations -/

variable {m : Mem} {list : MyArrayList} {xs : List (Elem elemSize)}

/-- Slot `current_size` filled with a value. -/
theorem Refines.append (h : Refines m list xs) (hlt : list.currentSize < list.size) {p : Ptr}
    (hv : m.valid p elemSize = true)
    (ha : Mem.apart (list.values.add (list.currentSize * elemSize)) elemSize p elemSize = true) :
    ∃ m', m.memcpy (elemAddr list list.currentSize) p (asSizeT list.elemSize) = .ok m' ∧
      Refines m' { list with currentSize := list.currentSize + 1 } (xs ++ [m.bytes p elemSize]) ∧ m'.os = m.os := by
  have hc := h.count
  have hp := h.positive.1
  obtain ⟨m', hcpy, helems, hsame⟩ := memcpy_slot h.region.live (i := list.currentSize) (by omega) (by omega) hv ha
  rw [h.elemAddr_eq (by omega) hlt, h.sizeT_eq]
  refine ⟨m', hcpy, ⟨h.width, ?_, ?_, h.positive, h.base, ?_, h.fits, ?_⟩, hsame.os⟩
  · simp only [List.length_append, List.length_singleton]
    omega
  · simp only
    omega
  · simp only [hsame.size]
    exact h.live
  · have hold := h.holds
    unfold contents at hold ⊢
    simp only [List.length_append, List.length_singleton]
    rw [helems, hc]
    have hset := seg_setAt_concat (elems m list.values elemSize) 0 xs.length (m.bytes p elemSize)
    rw [Int.zero_add] at hset
    rw [hset, hold]

/-- What is admitted of a value to add. -/
theorem admits_add {p : Ptr} : admits elemSize (.add p) (m, list) = true ↔
    m.valid p elemSize = true ∧ (list.currentSize ≠ list.size ∨ list.size * 2 * elemSize ≤ INT_MAX) ∧
      (p.block ≠ list.values.block ∨
        list.currentSize ≠ list.size ∧ p.off + elemSize ≤ list.currentSize * elemSize) := by
  simp only [admits, proper, aside, Bool.and_eq_true, Bool.or_eq_true, decide_eq_true_eq]
  constructor
  · rintro ⟨⟨⟨hv, hgrow⟩, hused⟩, haside⟩
    refine ⟨hv, hgrow, ?_⟩
    by_cases hblock : p.block = list.values.block
    · exact .inr ⟨haside.resolve_right (fun hne => hne hblock), hused.resolve_left (fun hne => hne hblock)⟩
    · exact .inl hblock
  · rintro ⟨hv, hgrow, hblock | ⟨hroom, hused⟩⟩
    · exact ⟨⟨⟨hv, hgrow⟩, .inl hblock⟩, .inr hblock⟩
    · exact ⟨⟨⟨hv, hgrow⟩, .inr hused⟩, .inl hroom⟩

/-- **`list_add` appends**, unless growth is refused memory. -/
theorem listAdd_refines (h : Refines m list xs) {p : Ptr} (hadm : admits elemSize (.add p) (m, list) = true) :
    (listAdd m list p = .error .assertion ∧ m.os m.next = .refuse) ∨
      ∃ m' list', listAdd m list p = .ok (m', list') ∧ Refines m' list' (xs ++ [m.bytes p elemSize]) ∧
        m'.os = m.os := by
  obtain ⟨hv, hgrow, halias⟩ := admits_add.1 hadm
  have hc := h.count
  have hroom := h.room
  have hp := h.positive.1
  unfold listAdd
  by_cases hfull : list.currentSize = list.size
  · -- the value is in another block, which growth leaves alone
    have hblock : p.block ≠ list.values.block := halias.resolve_right (fun ha => ha.1 hfull)
    obtain ⟨s, hs, -⟩ := (Mem.valid_iff _ _ _).1 hv
    rw [if_pos hfull]
    rcases listGrow_refines h (hgrow.resolve_left (fun hn => hn hfull)) with
      ⟨he, hos⟩ | ⟨m₁, list₁, he, h₁, hsize, hos, hother⟩
    · left
      rw [he]
      exact ⟨rfl, hos⟩
    · right
      obtain ⟨hne, hsz, hby⟩ := hother p.block hblock (Mem.lt_next_of_size hs)
      have hv₁ : m₁.valid p elemSize = true := (Mem.valid_congr hsz _).trans hv
      have hc₁ := h₁.count
      obtain ⟨m', hcpy, h', hos'⟩ := h₁.append (by omega) hv₁ ((Mem.apart_iff _ _ _ _).2 (.inl (Ne.symm hne)))
      have hbytes : m₁.bytes p elemSize = m.bytes p elemSize := by
        unfold Mem.bytes
        rw [hby]
      rw [he]
      simp only [ok_bind, hcpy, pure_eq_ok]
      exact ⟨m', _, rfl, hbytes ▸ h', hos'.trans hos⟩
  · right
    rw [if_neg hfull]
    have hapart : Mem.apart (list.values.add (list.currentSize * elemSize)) elemSize p elemSize = true := by
      rw [Mem.apart_iff]
      rcases halias with hne | ⟨-, hoff⟩
      · exact .inl (Ne.symm hne)
      · right; right
        simp only [Ptr.add_off, h.base]
        omega
    obtain ⟨m', hcpy, h', hos'⟩ := h.append (by omega) hv hapart
    simp only [ok_bind, hcpy, pure_eq_ok]
    exact ⟨m', _, rfl, h', hos'⟩

/-- The elements after `k` turns of `list_remove`'s loop, which moves them down from `index` on. -/
def shifted (a : Int → Elem elemSize) (index last k : Int) : Int → Elem elemSize :=
  fun j => if index ≤ j ∧ j < k ∧ j < last then a (j + 1) else a j

theorem removeTurn_shifted (h : Refines m list xs) {index i : Int} {m₁ : Mem} (h0 : 0 ≤ index) (hi0 : index ≤ i)
    (hi : i < list.currentSize) (hsame : Mem.SameOutside list.values (list.size.toNat * elemSize) m m₁)
    (helems : elems m₁ list.values elemSize =
      shifted (elems m list.values elemSize) index (list.currentSize - 1) i) :
    ∃ m₂, removeTurn list i m₁ = .ok m₂ ∧ Mem.SameOutside list.values (list.size.toNat * elemSize) m m₂ ∧
      elems m₂ list.values elemSize = shifted (elems m list.values elemSize) index (list.currentSize - 1) (i + 1) := by
  have hroom := h.room
  unfold removeTurn
  by_cases hlast : i = list.currentSize - 1
  · rw [if_pos hlast]
    refine ⟨m₁, rfl, hsame, ?_⟩
    rw [helems]
    funext j
    unfold shifted
    by_cases hij : index ≤ j ∧ j < i ∧ j < list.currentSize - 1
    · rw [if_pos hij, if_pos ⟨hij.1, by omega, hij.2.2⟩]
    · rw [if_neg hij, if_neg (fun hj => hij ⟨hj.1, by omega, hj.2.2⟩)]
  · rw [if_neg hlast, h.elemAddr_eq (i := i) (by omega) (by omega), h.elemAddr_eq (i := i + 1) (by omega) (by omega),
      h.sizeT_eq]
    have hr := h.region.of_same hsame
    obtain ⟨m₂, hcpy, he, hs⟩ := memcpy_slot hr.live (i := i) (by omega) (by omega)
      (hr.valid_elem (i := i + 1) (by omega) (by omega)) (slots_apart list.values elemSize (by omega))
    refine ⟨m₂, hcpy, hsame.trans hs, ?_⟩
    have hnext : m₁.bytes (list.values.add ((i + 1) * elemSize)) elemSize = elems m list.values elemSize (i + 1) := by
      have := congrFun helems (i + 1)
      unfold shifted at this
      rwa [if_neg (by omega)] at this
    rw [he, hnext, helems]
    funext j
    unfold shifted
    by_cases hj : j = i
    · subst hj
      rw [setAt_same, if_pos ⟨hi0, by omega, by omega⟩]
    · rw [setAt_of_ne hj]
      by_cases hij : index ≤ j ∧ j < i ∧ j < list.currentSize - 1
      · rw [if_pos hij, if_pos ⟨hij.1, by omega, hij.2.2⟩]
      · rw [if_neg hij, if_neg (fun hk => hij ⟨hk.1, by omega, hk.2.2⟩)]

/-- **`list_remove` deletes one position.** -/
theorem listRemove_refines (h : Refines m list xs) (index : Int) (h0 : 0 ≤ index) (h1 : index < list.currentSize) :
    ∃ m' list', listRemove m list index = .ok (m', list', 1) ∧ Refines m' list' (xs.eraseIdx index.toNat) ∧
      m'.os = m.os := by
  have hc := h.count
  have hroom := h.room
  have hlen : (xs.eraseIdx index.toNat).length = xs.length - 1 := List.length_eraseIdx_of_lt (by omega)
  obtain ⟨m', hloop, -, hsame, helems⟩ := forLoop_total (removeTurn list) list.currentSize
    (fun i m' => index ≤ i ∧ Mem.SameOutside list.values (list.size.toNat * elemSize) m m' ∧
      elems m' list.values elemSize = shifted (elems m list.values elemSize) index (list.currentSize - 1) i)
    (fun i m₁ hi ⟨hi0, hsame, helems⟩ => by
      obtain ⟨m₂, h2, hs, he⟩ := removeTurn_shifted h h0 hi0 hi hsame helems
      exact ⟨m₂, h2, by omega, hs, he⟩)
    (list.currentSize - index).toNat index m (by omega) ⟨Int.le_refl _, .refl _ _ _, by
      funext j
      exact (if_neg (by omega)).symm⟩
  unfold listRemove
  rw [if_pos ⟨h1, h0⟩, hloop]
  refine ⟨m', _, rfl, ⟨h.width, ?_, ?_, h.positive, h.base, ?_, h.fits, ?_⟩, hsame.os⟩
  · simp only [hlen]
    omega
  · simp only
    omega
  · simp only [hsame.size]
    exact h.live
  · have hold := h.holds
    unfold contents at hold ⊢
    rw [hlen, ← hold, length_seg, eraseIdx_seg _ (by omega), helems]
    apply seg_congr
    intro j hj0 hj
    unfold shifted
    rw [Int.toNat_of_nonneg h0]
    by_cases hij : index ≤ j
    · rw [if_pos ⟨hij, by omega, by omega⟩, if_pos hij]
    · rw [if_neg (fun hk => hij hk.1), if_neg hij]

/-- The search from slot `i` on finds what a search of the elements from there on finds. -/
theorem containFrom_eq (h : Refines m list xs) {value : Ptr} (hv : m.valid value elemSize = true)
    (cmpfn : CmpFn elemSize) : ∀ (n : Nat) (i : Int), 0 ≤ i → i + n ≤ list.currentSize →
      containFrom m list value cmpfn n i =
        .ok (match firstMatch cmpfn (m.bytes value elemSize) (seg (elems m list.values elemSize) i n) with
          | some k => i + k
          | none => -1)
  | 0, i, _, _ => rfl
  | n + 1, i, h0, hn => by
    have hroom := h.room
    have hslot := h.region.valid_elem (i := i) h0 (by omega)
    have hcmp : callCmp m cmpfn value (elemAddr list i) =
        .ok (cmpfn (m.bytes value elemSize) (elems m list.values elemSize i)) := by
      unfold callCmp
      rw [h.elemAddr_eq h0 (by omega), hv, hslot]
      rfl
    have ih := containFrom_eq h hv cmpfn n (i + 1) (by omega) (by omega)
    unfold containFrom
    rw [hcmp, ok_bind, ih, seg_succ]
    unfold firstMatch
    rw [List.findIdx?_cons]
    by_cases hz : cmpfn (m.bytes value elemSize) (elems m list.values elemSize i) = 0
    · rw [if_pos hz, if_pos (by rw [hz]; rfl)]
      simp
    · rw [if_neg hz, if_neg (by simpa using hz)]
      cases List.findIdx? (fun v => cmpfn (m.bytes value elemSize) v == 0)
          (seg (elems m list.values elemSize) (i + 1) n) with
      | some k =>
        simp only [Option.map_some]
        congr 1
        omega
      | none => rfl

/-- **`list_contain` returns the least matching index**, or `-1`. -/
theorem listContain_eq (h : Refines m list xs) {value : Ptr} (hv : m.valid value elemSize = true)
    (cmpfn : CmpFn elemSize) :
    listContain m list value cmpfn =
      .ok (match firstMatch cmpfn (m.bytes value elemSize) xs with
        | some k => (k : Int)
        | none => -1) := by
  have hc := h.count
  have hold := h.holds
  unfold contents at hold
  unfold listContain
  rw [containFrom_eq h hv cmpfn _ 0 (Int.le_refl _) (by omega), hc, Int.toNat_natCast, hold]
  cases firstMatch cmpfn (m.bytes value elemSize) xs with
  | some k => simp
  | none => rfl

theorem firstMatch_lt {α : Type} {cmpfn : α → α → Int} {x : α} {l : List α} {k : Nat}
    (h : firstMatch cmpfn x l = some k) : k < l.length := (List.findIdx?_eq_some_iff_findIdx_eq.1 h).1

/-- **`list_get` addresses the element of its index.** -/
theorem listGet_eq (h : Refines m list xs) {index : Int} (h0 : 0 ≤ index) (h1 : index < list.currentSize) :
    ∃ p, listGet list index = .ok p ∧ m.valid p elemSize = true ∧ xs[index.toNat]? = some (m.bytes p elemSize) := by
  have hc := h.count
  have hroom := h.room
  refine ⟨list.values.add (index * elemSize), ?_, h.region.valid_elem h0 (by omega), ?_⟩
  · unfold listGet
    rw [if_pos ⟨h1, h0⟩, h.elemAddr_eq h0 (by omega)]
    rfl
  · have hold := h.holds
    unfold contents at hold
    rw [← hold, getElem?_seg _ _ _ _ (by omega), Int.zero_add, Int.toNat_of_nonneg h0]
    rfl

/-! ## Runs -/

/-- **One call is one operation of the sequence**, with the same answer, or ends at the assertion that memory was
granted; what the caller does with memory of its own is none. -/
theorem step_follows (cmpfn : CmpFn elemSize) (c : Call) (h : Refines m list xs)
    (hadm : admits elemSize c (m, list) = true) :
    (step cmpfn c (m, list) = .error .assertion ∧ m.os m.next = .refuse) ∨
      ∃ m' list' e zs, step cmpfn c (m, list) = .ok ((m', list'), e) ∧ Refines m' list' zs ∧ m'.os = m.os ∧
        ∀ es ys, Follows cmpfn es zs ys → Follows cmpfn (e.toList ++ es) xs ys := by
  have hc := h.count
  have hproper := (Bool.and_eq_true_iff.1 hadm).1
  cases c with
  | add p =>
    rcases listAdd_refines h hadm with ⟨he, hos⟩ | ⟨m', list', he, h', hos⟩
    · left
      simp only [step]
      rw [he]
      exact ⟨rfl, hos⟩
    · right
      simp only [step]
      rw [he]
      exact ⟨m', list', _, _, rfl, h', hos, fun es ys hf => ⟨_, rfl, hf⟩⟩
  | remove index =>
    right
    simp only [proper, Bool.and_eq_true, decide_eq_true_eq] at hproper
    obtain ⟨m', list', he, h', hos⟩ := listRemove_refines h _ hproper.2 hproper.1
    simp only [step]
    rw [he]
    exact ⟨m', list', _, _, rfl, h', hos, fun es ys hf => ⟨_, if_pos (by omega), hf⟩⟩
  | removeVal p =>
    right
    have hfind := listContain_eq h hproper cmpfn
    simp only [step, listRemoveVal]
    rw [hfind]
    cases hk : firstMatch cmpfn (m.bytes p elemSize) xs with
    | some k =>
      have hlt := firstMatch_lt hk
      obtain ⟨m', list', he, h', hos⟩ := listRemove_refines h k (by omega) (by omega)
      simp only [ok_bind, if_neg (show ¬ (k : Int) < 0 by omega), he, pure_eq_ok]
      refine ⟨m', list', _, _, rfl, h', hos, fun es ys hf => ⟨_, ?_, hf⟩⟩
      simp only [perform]
      rw [hk, Int.toNat_natCast]
    | none =>
      simp only [ok_bind, if_pos (show (-1 : Int) < 0 by decide), pure_eq_ok]
      refine ⟨m, list, _, _, rfl, h, rfl, fun es ys hf => ⟨xs, ?_, hf⟩⟩
      simp only [perform]
      rw [hk]
  | contain p =>
    right
    have hfind := listContain_eq h hproper cmpfn
    simp only [step]
    rw [hfind]
    refine ⟨m, list, _, _, rfl, h, rfl, fun es ys hf => ⟨xs, ?_, hf⟩⟩
    simp only [perform]
    cases firstMatch cmpfn (m.bytes p elemSize) xs with
    | some k => rfl
    | none => rfl
  | get index =>
    right
    simp only [proper, Bool.and_eq_true, decide_eq_true_eq] at hproper
    obtain ⟨p, he, hv, hx⟩ := listGet_eq h hproper.2 hproper.1
    simp only [step]
    rw [he, ok_bind, if_pos hv]
    refine ⟨m, list, _, _, rfl, h, rfl, fun es ys hf => ⟨xs, ?_, hf⟩⟩
    simp only [perform]
    rw [hx]
    rfl
  | store p v =>
    right
    simp only [proper, Bool.and_eq_true, decide_eq_true_eq] at hproper
    simp only [step]
    rw [Mem.store_ok hproper.1]
    refine ⟨_, list, _, _, rfl, h.frame rfl (funext (fun o => ?_)), rfl, fun es ys hf => hf⟩
    exact Mem.fill_byte_of_outside m _ (fun hi => hproper.2 ((Mem.inside_iff _ _ _ _).1 hi).1.symm)
  | alloc n =>
    right
    simp only [step]
    have hlt := block_lt_next h.region.live
    have hframe : ∀ m', (m.malloc n).2 = m' → m'.size list.values.block = m.size list.values.block ∧
        m'.byte list.values.block = m.byte list.values.block ∧ m'.os = m.os := by
      rintro m' rfl
      unfold Mem.malloc
      cases m.os m.next with
      | refuse => exact ⟨rfl, rfl, rfl⟩
      | grant junk inPlace => exact ⟨if_neg (by omega), funext (fun o => if_neg (by omega)), rfl⟩
    obtain ⟨hs, hb, ho⟩ := hframe _ rfl
    exact ⟨_, list, _, _, rfl, h.frame hs hb, ho, fun es ys hf => hf⟩

theorem throughout_and (cmpfn : CmpFn elemSize) (ok ok' : Call → Mem × MyArrayList → Bool) :
    ∀ (calls : List Call) (s : Mem × MyArrayList),
      throughout cmpfn ok calls s = true → throughout cmpfn ok' calls s = true →
        throughout cmpfn (fun c s => ok c s && ok' c s) calls s = true
  | [], _, _, _ => rfl
  | c :: calls, s, h, h' => by
    unfold throughout at h h' ⊢
    rw [Bool.and_eq_true] at h h' ⊢
    refine ⟨Bool.and_eq_true_iff.2 ⟨h.1, h'.1⟩, ?_⟩
    cases hs : step cmpfn c s with
    | error e => rfl
    | ok r =>
      rw [hs] at h h'
      exact throughout_and cmpfn ok ok' calls r.1 h.2 h'.2

/-- **Every run is a run of the sequence**, or ends at the assertion that memory was granted. -/
theorem run_follows (cmpfn : CmpFn elemSize) : ∀ (calls : List Call) (m : Mem) (list : MyArrayList)
    (xs : List (Elem elemSize)), Refines m list xs → throughout cmpfn (admits elemSize) calls (m, list) = true →
      (run cmpfn calls (m, list) = .error .assertion ∧ ∃ k, m.os k = .refuse) ∨
        ∃ m' list' es ys, run cmpfn calls (m, list) = .ok ((m', list'), es) ∧ Refines m' list' ys ∧
          Follows cmpfn es xs ys
  | [], m, list, xs, h, _ => .inr ⟨m, list, [], xs, rfl, h, rfl⟩
  | c :: calls, m, list, xs, h, hadm => by
    unfold throughout at hadm
    rw [Bool.and_eq_true] at hadm
    obtain ⟨hc, hrest⟩ := hadm
    unfold run
    rcases step_follows cmpfn c h hc with ⟨he, hos⟩ | ⟨m₁, list₁, e, zs, he, h₁, hos, hf⟩
    · left
      rw [he]
      exact ⟨rfl, _, hos⟩
    · rw [he] at hrest ⊢
      simp only [ok_bind]
      rcases run_follows cmpfn calls m₁ list₁ zs h₁ hrest with ⟨hr, k, hk⟩ | ⟨m', list', es, ys, hr, h', hf'⟩
      · left
        rw [hr]
        exact ⟨rfl, k, hos ▸ hk⟩
      · right
        rw [hr]
        exact ⟨m', list', _, ys, rfl, h', hf _ _ hf'⟩

/-- The run is one of a plain sequence that starts empty: its events are, the slots in use hold what the sequence holds at
the end, and their number is between `0` and the capacity.  The only other way it ends is the assertion that memory was
granted. -/
def Sequential (cmpfn : CmpFn elemSize) (calls : List Call) (s : Mem × MyArrayList) : Prop :=
  (run cmpfn calls s = .error .assertion ∧ ∃ k, s.1.os k = .refuse) ∨
    ∃ m' list' es ys, run cmpfn calls s = .ok ((m', list'), es) ∧ Follows cmpfn es [] ys ∧
      contents m' list'.values list'.currentSize.toNat elemSize = ys ∧
      0 ≤ list'.currentSize ∧ list'.currentSize ≤ list'.size

/-- **`my_array_list` is a sequence** from `list_new` on, in every run whose calls keep what they owe and give no list that
is full a value of its own block to add. -/
theorem list_is_sequence (m : Mem) (size elemSize : Nat) (hs : 0 < size) (he : 0 < elemSize)
    (hf : (size : Int) * elemSize ≤ INT_MAX) (cmpfn : CmpFn elemSize) :
    (listNew m size elemSize = .error .assertion ∧ m.os m.next = .refuse) ∨
      ∃ s₀, listNew m size elemSize = .ok s₀ ∧
        ∀ calls, throughout cmpfn (proper elemSize) calls s₀ = true → throughout cmpfn aside calls s₀ = true →
          Sequential cmpfn calls s₀ := by
  rcases listNew_refines m hs he hf with hno | ⟨m₀, list₀, hnew, h₀, hos₀⟩
  · exact .inl hno
  · refine .inr ⟨(m₀, list₀), hnew, fun calls hproper haside => ?_⟩
    have hadm := throughout_and cmpfn (proper elemSize) aside calls _ hproper haside
    rcases run_follows cmpfn calls m₀ list₀ [] h₀ hadm with hno | ⟨m', list', es, ys, hr, h', hf'⟩
    · exact .inl hno
    · have hc := h'.count
      refine .inr ⟨m', list', es, ys, hr, hf', ?_, by omega, h'.room⟩
      rw [hc, Int.toNat_natCast, h'.holds]

/-- Three two-byte values of a caller, and a system that moves every block it resizes. -/
def callerMem : Mem := Mem.single 6 (fun o => UInt8.ofInt o) (fun _ => .grant (fun _ => 0) false)

/-- Two growths from a capacity of one, a search, a removal by value and one by index. -/
def callerRun : List Call :=
  [.add ⟨0, 0⟩, .add ⟨0, 2⟩, .add ⟨0, 4⟩, .contain ⟨0, 4⟩, .removeVal ⟨0, 2⟩, .get 1, .remove 0]

def cmpBytes : CmpFn 2 := fun x y => ((x 0).toNat : Int) - (y 0).toNat

theorem list_is_sequence_callerRun :
    (listNew callerMem (1 : Nat) (2 : Nat) = .error .assertion ∧ callerMem.os callerMem.next = .refuse) ∨
      ∃ s₀, listNew callerMem (1 : Nat) (2 : Nat) = .ok s₀ ∧ Sequential cmpBytes callerRun s₀ := by
  rcases list_is_sequence callerMem 1 2 (by decide) (by decide) (by decide) cmpBytes with hno | ⟨s₀, hnew, hall⟩
  · exact .inl hno
  · refine .inr ⟨s₀, hnew, hall callerRun ?_ ?_⟩
    · cases hnew
      decide
    · cases hnew
      decide

/-- A value is added, and then the value at the address that `list_get(list, 0)` gives. -/
def ownRun : List Call := [.add ⟨0, 0⟩, .get 0, .add ⟨1, 0⟩]

/-- **A list of one value, full, is given that value to add**, and reads it from a block that is gone. -/
theorem list_is_sequence_own : ∃ s₀, listNew callerMem (1 : Nat) (2 : Nat) = .ok s₀ ∧
    throughout cmpBytes (proper 2) ownRun s₀ = true ∧ throughout cmpBytes aside ownRun s₀ = false ∧
    run cmpBytes ownRun s₀ = .error .outOfBounds ∧ ¬ Sequential cmpBytes ownRun s₀ := by
  refine ⟨_, rfl, by decide, by decide, rfl, ?_⟩
  rintro (⟨hno, -⟩ | ⟨m', list', es, ys, hr, -⟩)
  · cases hno
  · cases hr

end MyArrayList
end Cc
