import CCplusplus.Lib.Mem
import CCplusplus.Lib.Seg
/-!
# Elems — arrays of equal-sized elements in memory

An array is a base pointer and an element size: element `i` is the block of `elem_size` bytes at `base + i * elem_size`.
`elems` reads memory as such an array, and the lemmas say what a write to one slot, an exchange of two, or a computation
that stays elsewhere does to it.
-/
namespace CLib

/-- The contents of one element. -/
abbrev Elem (elemSize : Nat) := Fin elemSize → UInt8

abbrev CmpFn (elemSize : Nat) := Elem elemSize → Elem elemSize → Int

/-- `cmpfn(p, q)`: the comparator reads the elements at two addresses. -/
def callCmp {elemSize : Nat} (m : Mem) (cmpfn : CmpFn elemSize) (p q : Ptr) : Exec Int :=
  if m.valid p elemSize && m.valid q elemSize then .ok (cmpfn (m.bytes p elemSize) (m.bytes q elemSize))
  else .error .outOfBounds

variable {elemSize : Nat}

/-- The array that memory holds at `base`. -/
def elems (m : Mem) (base : Ptr) (elemSize : Nat) : Int → Elem elemSize :=
  fun i => m.bytes (base.add (i * elemSize)) elemSize

/-- `size` elements at `base` lie in one live block, and `size * elem_size` is an `int`. -/
structure Region (m : Mem) (base : Ptr) (size elemSize : Nat) : Prop where
  live : m.valid base (size * elemSize) = true
  fits : (size * elemSize : Int) ≤ INT_MAX

/-- `size` elements at `base` lie in one live block, and either the address of each of them is computed in `int`, or an
overflow is among the faults of `E`. -/
structure Addressable (E : Fault → Prop) (m : Mem) (base : Ptr) (size elemSize : Nat) : Prop where
  live : m.valid base (size * elemSize) = true
  fits : E .overflow ∨ ∀ i : Int, 0 ≤ i → i < size → i * elemSize ≤ INT_MAX

theorem slot_bounds (size elemSize : Nat) {i : Int} (h0 : 0 ≤ i) (h1 : i < size) :
    0 ≤ i * elemSize ∧ i * elemSize + elemSize ≤ (size * elemSize : Nat) := by
  have h2 : (i + 1) * (elemSize : Int) ≤ (size : Int) * elemSize :=
    Int.mul_le_mul_of_nonneg_right (by omega) (by omega)
  rw [Int.add_mul, Int.one_mul] at h2
  rw [Int.natCast_mul]
  exact ⟨Int.mul_nonneg h0 (by omega), h2⟩

theorem slots_apart (base : Ptr) (elemSize : Nat) {i j : Int} (h : i ≠ j) :
    Mem.apart (base.add (i * elemSize)) elemSize (base.add (j * elemSize)) elemSize = true := by
  have hlt : ∀ {i j : Int}, i < j → i * elemSize + elemSize ≤ j * elemSize := fun {i j} h => by
    have h2 : (i + 1) * (elemSize : Int) ≤ j * elemSize := Int.mul_le_mul_of_nonneg_right (by omega) (by omega)
    rwa [Int.add_mul, Int.one_mul] at h2
  rw [Mem.apart_iff]
  simp only [Ptr.add_off]
  rcases Int.lt_or_gt_of_ne h with h | h
  · have := hlt h; omega
  · have := hlt h; omega

theorem valid_slot {m : Mem} {base : Ptr} {size : Nat} (hv : m.valid base (size * elemSize) = true) {i : Int}
    (h0 : 0 ≤ i) (h1 : i < size) : m.valid (base.add (i * elemSize)) elemSize = true := by
  have hb := slot_bounds size elemSize h0 h1
  exact Mem.valid_add hv hb.1 hb.2

namespace Addressable

variable {E : Fault → Prop} {m : Mem} {base : Ptr} {size : Nat}

theorem imul (hr : Addressable E m base size elemSize) {i : Int} (h0 : 0 ≤ i) (h1 : i < size) :
    Agree E Eq (CLib.imul i elemSize) (.ok (i * elemSize)) := by
  by_cases hfits : i * elemSize ≤ INT_MAX
  · rw [imul_ok (slot_bounds size elemSize h0 h1).1 hfits]
    exact .ok rfl
  · rw [imul_overflow (by omega)]
    exact .stop (hr.fits.resolve_right (fun h => hfits (h i h0 h1)))

theorem callCmp_ok (hr : Addressable E m base size elemSize) (cmpfn : CmpFn elemSize) {i j : Int} (hi0 : 0 ≤ i)
    (hi : i < size) (hj0 : 0 ≤ j) (hj : j < size) :
    callCmp m cmpfn (base.add (i * elemSize)) (base.add (j * elemSize)) =
      .ok (cmpfn (elems m base elemSize i) (elems m base elemSize j)) := by
  unfold callCmp
  rw [valid_slot hr.live hi0 hi, valid_slot hr.live hj0 hj]
  rfl

theorem of_same {m' : Mem} {p : Ptr} {n : Nat} (hr : Addressable E m base size elemSize) (h : Mem.SameOutside p n m m') :
    Addressable E m' base size elemSize := ⟨by rw [h.valid]; exact hr.live, hr.fits⟩

end Addressable

namespace Region

variable {m : Mem} {base : Ptr} {size : Nat}

theorem valid_elem (hr : Region m base size elemSize) {i : Int} (h0 : 0 ≤ i) (h1 : i < size) :
    m.valid (base.add (i * elemSize)) elemSize = true := valid_slot hr.live h0 h1

theorem addressable {E : Fault → Prop} (hr : Region m base size elemSize) : Addressable E m base size elemSize := by
  refine ⟨hr.live, .inr (fun i h0 h1 => ?_)⟩
  have hb := slot_bounds size elemSize h0 h1
  have hf := hr.fits
  rw [Int.natCast_mul] at hb
  omega

/-- A slot is inside the region. -/
theorem inside_of_slot (base : Ptr) (elemSize : Nat) {size : Nat} {i : Int} (h0 : 0 ≤ i) (h1 : i < size) (b : Nat)
    (o : Int) (h : Mem.inside (base.add (i * elemSize)) elemSize b o = true) :
    Mem.inside base (size * elemSize) b o = true := by
  have hb := slot_bounds size elemSize h0 h1
  rw [Mem.inside_iff] at *
  simp only [Ptr.add_off, Ptr.add_block] at h
  exact ⟨h.1, by omega, by omega⟩

theorem of_same {m' : Mem} {p : Ptr} {n : Nat} (hr : Region m base size elemSize) (h : Mem.SameOutside p n m m') :
    Region m' base size elemSize := ⟨by rw [h.valid]; exact hr.live, hr.fits⟩

end Region

theorem elems_fill (m : Mem) (base : Ptr) (i : Int) (g : Int → UInt8) :
    elems (m.fill (base.add (i * elemSize)) elemSize g) base elemSize =
      setAt (elems m base elemSize) i (fun k => g (k.val : Int)) := by
  funext j
  by_cases h : j = i
  · subst h
    rw [setAt_same]; exact Mem.bytes_fill_same m _ elemSize g
  · rw [setAt_of_ne h]; exact Mem.bytes_fill_of_apart m g (slots_apart base elemSize (Ne.symm h))

theorem elems_exchange (m : Mem) (base : Ptr) {p p2 : Int} (h : p ≠ p2) :
    elems (m.exchange (base.add (p * elemSize)) (base.add (p2 * elemSize)) elemSize) base elemSize =
      swapAt (elems m base elemSize) p p2 := by
  funext j
  by_cases hp : j = p
  · subst hp
    rw [swapAt_left]; exact Mem.bytes_exchange_left m _ _ _
  · by_cases hp2 : j = p2
    · subst hp2
      rw [swapAt_right]; exact Mem.bytes_exchange_right m (slots_apart base elemSize h)
    · rw [swapAt_of_ne hp hp2]
      exact Mem.bytes_exchange_of_apart m (slots_apart base elemSize (Ne.symm hp))
        (slots_apart base elemSize (Ne.symm hp2))

/-- A region that a computation stays out of keeps its elements. -/
theorem elems_of_same {m m' : Mem} {p base : Ptr} {n : Nat} (h : Mem.SameOutside p n m m')
    (hb : base.block < m.next) (hp : p.block ≠ base.block) : elems m' base elemSize = elems m base elemSize := by
  funext i k
  refine h.byte _ _ hb ?_
  rw [← Bool.not_eq_true, Mem.inside_iff]
  exact fun hi => hp hi.1.symm

/-- `memcpy` of an element into slot `i` of a region. -/
theorem memcpy_slot {m : Mem} {base : Ptr} {size : Nat} (hv : m.valid base (size * elemSize) = true) {i : Int}
    (h0 : 0 ≤ i) (hi : i < size) {src : Ptr} (hs : m.valid src elemSize = true)
    (ha : Mem.apart (base.add (i * elemSize)) elemSize src elemSize = true) :
    ∃ m', m.memcpy (base.add (i * elemSize)) src elemSize = .ok m' ∧
      elems m' base elemSize = setAt (elems m base elemSize) i (m.bytes src elemSize) ∧
      Mem.SameOutside base (size * elemSize) m m' :=
  ⟨_, Mem.memcpy_ok (valid_slot hv h0 hi) hs ha, elems_fill m base i _,
    .fill m _ (Region.inside_of_slot base elemSize h0 hi)⟩

theorem block_lt_next {m : Mem} {base : Ptr} {n : Nat} (hv : m.valid base n = true) : base.block < m.next := by
  obtain ⟨s, hs, -⟩ := (Mem.valid_iff _ _ _).1 hv
  exact Mem.lt_next_of_size hs

/-- The elements of an array, as a list. -/
def contents (m : Mem) (base : Ptr) (size elemSize : Nat) : List (Elem elemSize) := seg (elems m base elemSize) 0 size

end CLib
