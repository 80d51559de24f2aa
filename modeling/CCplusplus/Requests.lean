import CCplusplus.MyStackRefine
/-!
# Requests — the bytes that `my_array_list` and `mystack` ask for

`malloc` and `realloc` are given the wrapped `int` product of the capacity and the element size (`requested`).  A product
above `INT_MAX` asks either for fewer bytes than the slots need or for more than `PTRDIFF_MAX`, which no `malloc` grants
(`requested_wraps`).  Growth only ever meets the second case, so what `list_new` or `mystack_new` was granted decides
whether the slots of every later state lie in the block (`requests_cover_iff`).
-/
namespace Cc
namespace MyArrayList

open CLib

def PTRDIFF_MAX : Nat := 9223372036854775807

/-- What `malloc` or `realloc` is asked for, for a capacity. -/
def requested (capacity elemSize : Int) : Nat := asSizeT (asInt (capacity * elemSize))

theorem requested_eq {capacity elemSize : Int} (h0 : 0 ≤ capacity * elemSize) (h1 : capacity * elemSize ≤ INT_MAX) :
    (requested capacity elemSize : Int) = capacity * elemSize := by
  unfold requested
  rw [asInt_eq h0 h1, asSizeT_of_nonneg h0 h1, Int.toNat_of_nonneg h0]

/-- A product that is no `int` asks for an `int`'s worth of bytes, or for more than there can be. -/
theorem requested_wraps (capacity elemSize : Int) :
    (requested capacity elemSize : Int) ≤ INT_MAX ∨
      PTRDIFF_MAX < requested capacity elemSize ∧ asInt (capacity * elemSize) < 0 := by
  have hlo : -(4294967296 / 2 : Int) ≤ asInt (capacity * elemSize) :=
    Int.le_bmod (x := capacity * elemSize) (by decide : 0 < 4294967296)
  have hhi : asInt (capacity * elemSize) < (4294967296 + 1) / 2 :=
    Int.bmod_lt (x := capacity * elemSize) (by decide : 0 < 4294967296)
  unfold requested asSizeT INT_MAX PTRDIFF_MAX
  omega

/-- Wrapping the capacity first changes nothing. -/
theorem requested_asInt (capacity elemSize : Int) : requested (asInt capacity) elemSize = requested capacity elemSize := by
  unfold requested asInt
  rw [Int.bmod_mul_bmod]

/-- A doubling that leaves `int` asks for more than there can be. -/
theorem requested_double {capacity : Int} {elemSize : Nat} (h : capacity * elemSize ≤ INT_MAX)
    (hd : INT_MAX < capacity * 2 * elemSize) : PTRDIFF_MAX < requested (asInt (capacity * 2)) elemSize := by
  have e : capacity * 2 * (elemSize : Int) = 2 * (capacity * elemSize) := by
    rw [Int.mul_comm capacity 2, Int.mul_assoc]
  have hwrap : asInt (capacity * 2 * elemSize) = capacity * 2 * elemSize - 4294967296 := by
    unfold INT_MAX at h hd
    rw [e] at hd ⊢
    have hsub := Int.bmod_eq_of_le (n := 2 * (capacity * elemSize) - 4294967296) (m := 4294967296) (by omega) (by omega)
    unfold asInt
    rw [← hsub]
    simp only [Int.bmod_def]
    omega
  rw [requested_asInt]
  unfold requested
  rw [hwrap, e]
  unfold asSizeT PTRDIFF_MAX
  unfold INT_MAX at h hd
  rw [e] at hd
  omega

/-- `malloc` and `realloc` do not grant more than `PTRDIFF_MAX` bytes: what the manual promises of the next request. -/
def refusesHuge (m : Mem) (n : Nat) : Bool :=
  decide (n ≤ PTRDIFF_MAX) ||
    match m.os m.next with
    | .refuse => true
    | .grant _ _ => false

theorem refused_of_huge {m : Mem} {n : Nat} (h : refusesHuge m n = true) (hn : PTRDIFF_MAX < n) :
    m.os m.next = .refuse := by
  unfold refusesHuge at h
  rw [decide_eq_false (by omega), Bool.false_or] at h
  cases hos : m.os m.next with
  | refuse => rfl
  | grant junk inPlace =>
    rw [hos] at h
    cases h

/-! ## Runs of `list_add` -/

/-- The bytes granted cover the slots, and every slot is addressed inside them. -/
structure Covered (m : Mem) (list : MyArrayList) : Prop where
  bytes : ∃ n : Nat, m.size list.values.block = some n ∧ list.size * list.elemSize ≤ n
  slots : ∀ i, 0 ≤ i → i < list.size → m.valid (elemAddr list i) list.elemSize.toNat = true

def listAdds : List Ptr → Mem × MyArrayList → Exec (Mem × MyArrayList)
  | [], t => pure t
  | p :: ps, (m, list) => do
    let t ← listAdd m list p
    listAdds ps t

/-- A value to add is readable, and not in the list's own block unless it is among the elements in use and the list has
room; growth is granted at most `PTRDIFF_MAX` bytes. -/
def owes (elemSize : Nat) (p : Ptr) (m : Mem) (list : MyArrayList) : Bool :=
  m.valid p elemSize &&
  (decide (list.currentSize ≠ list.size) || refusesHuge m (requested (asInt (list.size * 2)) elemSize)) &&
  (decide (p.block ≠ list.values.block) ||
    decide (list.currentSize ≠ list.size) && decide (p.off + elemSize ≤ list.currentSize * elemSize))

def owesAll (elemSize : Nat) : List Ptr → Mem × MyArrayList → Bool
  | [], _ => true
  | p :: ps, (m, list) =>
    owes elemSize p m list &&
    match listAdd m list p with
    | .ok t => owesAll elemSize ps t
    | .error _ => true

/-- Where a run ends: covered, or at the assertion that memory was granted; never at an access out of bounds. -/
def Covers : Exec (Mem × MyArrayList) → Prop
  | .ok (m, list) => Covered m list
  | .error e => e = .assertion

section
variable {elemSize : Nat} {m : Mem} {list : MyArrayList} {xs : List (Elem elemSize)}

theorem Refines.covered (h : Refines m list xs) : Covered m list where
  bytes := by
    have hp := h.positive
    refine ⟨_, h.live, Int.le_of_eq ?_⟩
    rw [h.width, Int.natCast_mul, Int.toNat_of_nonneg (by omega)]
  slots := fun i h0 h1 => by
    have hp := h.positive
    rw [h.elemAddr_eq h0 h1, h.width, Int.toNat_natCast]
    exact h.region.valid_elem h0 (by omega)

theorem listGrow_refused (h : Refines m list xs) (hos : m.os m.next = .refuse) :
    listGrow m list = .error .assertion := by
  have hreq : ∀ n, m.realloc list.values n = .ok (none, { m with
      next := m.next + 1, fresh := fun b h => m.fresh b (by omega) }) := by
    intro n
    unfold Mem.realloc
    split
    · rename_i hnone
      rw [h.live] at hnone
      cases hnone
    · rw [if_pos h.base]
      split
      · rfl
      · rename_i hgrant
        rw [hos] at hgrant
        cases hgrant
      · rename_i hgrant
        rw [hos] at hgrant
        cases hgrant
  unfold listGrow
  dsimp only
  rw [hreq]
  rfl

/-- **`list_add` appends or ends at the assertion**, whatever the capacity. -/
theorem listAdd_owes (h : Refines m list xs) {p : Ptr} (ho : owes elemSize p m list = true) :
    listAdd m list p = .error .assertion ∨
      ∃ m' list', listAdd m list p = .ok (m', list') ∧ Refines m' list' (xs ++ [m.bytes p elemSize]) := by
  unfold owes at ho
  simp only [Bool.and_eq_true, Bool.or_eq_true, decide_eq_true_eq] at ho
  obtain ⟨⟨hv, hgrow⟩, halias⟩ := ho
  by_cases hadm : list.currentSize ≠ list.size ∨ list.size * 2 * elemSize ≤ INT_MAX
  · rcases listAdd_refines h (admits_add.2 ⟨hv, hadm, halias⟩) with ⟨he, -⟩ | ⟨m', list', he, h', -⟩
    · exact .inl he
    · exact .inr ⟨m', list', he, h'⟩
  · obtain ⟨hroom, hbig⟩ := not_or.1 hadm
    have hfull : list.currentSize = list.size := Decidable.not_not.1 hroom
    have hos := refused_of_huge (hgrow.resolve_left hroom) (requested_double h.fits (Int.not_le.1 hbig))
    left
    unfold listAdd
    rw [if_pos hfull, listGrow_refused h hos]
    rfl

theorem listAdds_covers : ∀ (values : List Ptr) (m : Mem) (list : MyArrayList) (xs : List (Elem elemSize)),
    Refines m list xs → owesAll elemSize values (m, list) = true → Covers (listAdds values (m, list))
  | [], m, list, xs, h, _ => h.covered
  | p :: ps, m, list, xs, h, ho => by
    unfold owesAll at ho
    rw [Bool.and_eq_true] at ho
    obtain ⟨hp, hrest⟩ := ho
    unfold listAdds
    rcases listAdd_owes h hp with he | ⟨m', list', he, h'⟩
    · rw [he]
      exact rfl
    · rw [he] at hrest ⊢
      exact listAdds_covers ps m' list' _ h' hrest

end

/-- What `list_new` was granted covers the slots of every run exactly when its product is an `int`. -/
theorem listNew_covers_iff {m m₀ : Mem} {size elemSize : Nat} {list₀ : MyArrayList}
    (hnew : listNew m size elemSize = .ok (m₀, list₀)) (hhuge : refusesHuge m (requested size elemSize) = true) :
    (∀ values, owesAll elemSize values (m₀, list₀) = true → Covers (listAdds values (m₀, list₀))) ↔
      (size : Int) * elemSize ≤ INT_MAX := by
  have hpos : 0 < size ∧ 0 < elemSize := by
    unfold listNew at hnew
    split at hnew
    · omega
    · cases hnew
  constructor
  · intro hall
    obtain ⟨⟨n, hlive, hle⟩, -⟩ := hall [] rfl
    -- the block is the one that `malloc` answered with
    unfold listNew at hnew
    rw [if_pos (by omega), show asSizeT (asInt ((size : Int) * elemSize)) = requested size elemSize from rfl] at hnew
    rcases Mem.malloc_cases m (requested size elemSize) with ⟨hos, hnull⟩ | ⟨m', hm, ha⟩
    · split at hnew
      · cases hnew
      · rename_i hsome
        rw [hsome] at hnull
        cases hnull
    · rw [hm] at hnew
      cases hnew
      obtain rfl : requested size elemSize = n := Option.some.inj (ha.new.symm.trans hlive)
      rcases requested_wraps size elemSize with hint | ⟨hbig, -⟩
      · exact Int.le_trans hle hint
      · have hos := refused_of_huge hhuge hbig
        unfold Mem.malloc at hm
        rw [hos] at hm
        cases hm
  · intro hf values ho
    rcases listNew_refines m hpos.1 hpos.2 hf with ⟨he, -⟩ | ⟨m', list, he, h, -⟩
    · rw [he] at hnew
      cases hnew
    · rw [he] at hnew
      cases hnew
      exact listAdds_covers values m₀ list₀ [] h ho

end MyArrayList

namespace MyStack

open CLib
open MyArrayList (Covered Covers listAdds owesAll refusesHuge requested)

def mystackPushes : List Ptr → Mem × MyStack → Exec (Mem × MyStack)
  | [], t => pure t
  | p :: ps, (m, s) => do
    let t ← mystackPush m s p
    mystackPushes ps t

theorem mystackPushes_eq : ∀ (ps : List Ptr) (m : Mem) (s : MyStack),
    mystackPushes ps (m, s) = (do
      let (m, list) ← listAdds ps (m, s.asList)
      pure (m, ofList list))
  | [], _, _ => rfl
  | p :: ps, m, s => by
    unfold mystackPushes listAdds
    rw [mystackPush_eq]
    cases MyArrayList.listAdd m s.asList p with
    | error e => rfl
    | ok t =>
      simp only [ok_bind, pure_eq_ok]
      exact mystackPushes_eq ps t.1 (ofList t.2)

/-- Where a run of the stack ends, as for the list. -/
def StackCovers : Exec (Mem × MyStack) → Prop
  | .ok (m, s) => Covered m s.asList
  | .error e => e = .assertion

theorem stackCovers_iff (ps : List Ptr) (m : Mem) (s : MyStack) :
    StackCovers (mystackPushes ps (m, s)) ↔ Covers (listAdds ps (m, s.asList)) := by
  rw [mystackPushes_eq]
  cases listAdds ps (m, s.asList) with
  | error e => exact Iff.rfl
  | ok t => exact Iff.rfl

theorem listNew_of_mystackNew {m m₀ : Mem} {elemSize : Int} {s₀ : MyStack}
    (hnew : mystackNew m elemSize = .ok (m₀, s₀)) : MyArrayList.listNew m 4 elemSize = .ok (m₀, s₀.asList) := by
  rw [mystackNew_eq] at hnew
  cases hl : MyArrayList.listNew m 4 elemSize with
  | error e =>
    rw [hl] at hnew
    cases hnew
  | ok t =>
    rw [hl] at hnew
    cases hnew
    rfl

/-- **What is granted covers the slots of every run exactly when the first product is an `int`**, for `list_new` and
`list_add`, and for `mystack_new` and `mystack_push`. -/
theorem requests_cover_iff (m : Mem) :
    (∀ (size elemSize : Nat) (m₀ : Mem) (list₀ : MyArrayList),
      MyArrayList.listNew m size elemSize = .ok (m₀, list₀) → refusesHuge m (requested size elemSize) = true →
        ((∀ values, owesAll elemSize values (m₀, list₀) = true → Covers (listAdds values (m₀, list₀))) ↔
          (size : Int) * elemSize ≤ INT_MAX)) ∧
    ∀ (elemSize : Nat) (m₀ : Mem) (s₀ : MyStack),
      mystackNew m elemSize = .ok (m₀, s₀) → refusesHuge m (requested 4 elemSize) = true →
        ((∀ values, owesAll elemSize values (m₀, s₀.asList) = true → StackCovers (mystackPushes values (m₀, s₀))) ↔
          (4 : Int) * elemSize ≤ INT_MAX) := by
  refine ⟨fun size elemSize m₀ list₀ hnew hhuge => MyArrayList.listNew_covers_iff hnew hhuge,
    fun elemSize m₀ s₀ hnew hhuge => ?_⟩
  have hlist := @MyArrayList.listNew_covers_iff m m₀ 4 elemSize s₀.asList (listNew_of_mystackNew hnew) hhuge
  rw [show ((4 : Nat) : Int) = 4 from rfl] at hlist
  rw [← hlist]
  exact forall_congr' (fun values => imp_congr_right (fun _ => stackCovers_iff values m₀ s₀))

/-- The list's and the stack's part at sizes whose products are `int`s. -/
theorem requests_cover_iff_callerMem :
    (∃ m₀ list₀, MyArrayList.listNew callerMem (1 : Nat) (2 : Nat) = .ok (m₀, list₀) ∧
      Covers (listAdds [⟨0, 0⟩, ⟨0, 2⟩] (m₀, list₀))) ∧
    ∃ m₀ s₀, mystackNew callerMem (2 : Nat) = .ok (m₀, s₀) ∧
      StackCovers (mystackPushes [⟨0, 0⟩, ⟨0, 2⟩] (m₀, s₀)) :=
  ⟨⟨_, _, rfl, ((requests_cover_iff callerMem).1 1 2 _ _ rfl (by decide)).2 (by decide) _ (by decide)⟩,
    ⟨_, _, rfl, ((requests_cover_iff callerMem).2 2 _ _ rfl (by decide)).2 (by decide) _ (by decide)⟩⟩

/-- **65537 elements of 65536 bytes are granted 65536 bytes**, and 4 elements of 2^30 bytes none. -/
theorem requests_fallShort :
    (∃ m₀ list₀, MyArrayList.listNew callerMem 65537 65536 = .ok (m₀, list₀) ∧
      m₀.size list₀.values.block = some 65536 ∧ ¬ Covered m₀ list₀) ∧
    ∃ m₀ s₀, mystackNew callerMem 1073741824 = .ok (m₀, s₀) ∧
      m₀.size s₀.elems.block = some 0 ∧ ¬ Covered m₀ s₀.asList := by
  refine ⟨⟨_, _, rfl, rfl, ?_⟩, ⟨_, _, rfl, rfl, ?_⟩⟩
  · rintro ⟨⟨n, hn, hle⟩, -⟩
    cases hn
    exact absurd hle (by decide)
  · rintro ⟨⟨n, hn, hle⟩, -⟩
    cases hn
    exact absurd hle (by decide)

end MyStack
end Cc
