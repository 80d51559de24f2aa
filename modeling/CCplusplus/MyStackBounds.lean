import CCplusplus.Requests
/-!
# MyStackBounds — pushes and pops in any order

A run stays in bounds exactly when no pop meets an empty stack and no push a slot past the bytes that `mystack_new` asked
for (`stack_stays_iff`).  While it does, the stack either refines a plain one or is `Short`: `mystack_new` asked for fewer
bytes than four slots need, and every slot in use still lies in them.
-/
namespace Cc
namespace MyStack

open CLib
open MyArrayList (requested requested_eq requested_wraps refusesHuge refused_of_huge)

variable {elemSize : Nat} {m : Mem} {s : MyStack}

/-- What a caller owes about memory when nothing is said of the capacity: as `admits`, and growth is granted at most
`PTRDIFF_MAX` bytes. -/
def owes (elemSize : Nat) : Call → Mem × MyStack → Bool
  | .push p, (m, s) => MyArrayList.owes elemSize p m s.asList
  | c, t => admits elemSize c t

/-- `0 <= current_len <= size` after every operation, and no operation accesses memory out of bounds; a run may end at
the assertion that memory was granted. -/
def Stays (elemSize : Nat) : List Call → Mem × MyStack → Prop
  | [], (_, s) => 0 ≤ s.currentLen ∧ s.currentLen ≤ s.size
  | c :: calls, (m, s) => (0 ≤ s.currentLen ∧ s.currentLen ≤ s.size) ∧
    match step elemSize c (m, s) with
    | .ok (t, _) => Stays elemSize calls t
    | .error e => e = .assertion

/-- A pop finds an element; a push finds its slot within the bytes asked for, or grows the stack. -/
def roomFor (elemSize : Nat) : Call → Mem × MyStack → Bool
  | .push _, (_, s) =>
    decide (s.currentLen = s.size) || decide ((s.currentLen + 1) * elemSize ≤ requested s.size elemSize)
  | .pop _, (_, s) => decide (0 < s.currentLen)
  | _, _ => true

/-- `mystack_new` asked for fewer bytes than its four slots need, and those in use lie in them. -/
structure Short (elemSize : Nat) (m : Mem) (s : MyStack) : Prop where
  width : s.elemSize = elemSize
  four : s.size = 4
  base : s.elems.off = 0
  live : m.size s.elems.block = some (requested 4 elemSize)
  few : (requested 4 elemSize : Int) < 4 * elemSize
  small : (requested 4 elemSize : Int) ≤ INT_MAX
  low : 0 ≤ s.currentLen
  used : s.currentLen * elemSize ≤ requested 4 elemSize

/-- A state in bounds. -/
def Good (elemSize : Nat) (m : Mem) (s : MyStack) : Prop :=
  (∃ st : List (Elem elemSize), Holds m s st) ∨ Short elemSize m s

namespace Short

theorem notFull (h : Short elemSize m s) : s.currentLen < s.size := by
  rw [h.four]
  by_contra hge
  have h4 : (4 : Int) * elemSize ≤ s.currentLen * elemSize := Int.mul_le_mul_of_nonneg_right (by omega) (by omega)
  have hu := h.used
  have hf := h.few
  omega

theorem moved (h : Short elemSize m s) {m' : Mem} (hs : m'.size s.elems.block = m.size s.elems.block) {n : Int}
    (h0 : 0 ≤ n) (h1 : n * elemSize ≤ requested 4 elemSize) : Short elemSize m' { s with currentLen := n } :=
  ⟨h.width, h.four, h.base, hs.trans h.live, h.few, h.small, h0, h1⟩

/-- A slot whose first byte lies in the block is addressed as it should be. -/
theorem slot_eq (h : Short elemSize m s) {i : Int} (h0 : 0 ≤ i) (h1 : i * elemSize ≤ requested 4 elemSize) :
    asInt (i * s.elemSize) = i * elemSize := by
  have hs := h.small
  rw [h.width, asInt_eq (Int.mul_nonneg h0 (by omega)) (by omega)]

theorem valid_slot_iff (h : Short elemSize m s) {i : Int} (h0 : 0 ≤ i) :
    m.valid (s.elems.add (i * elemSize)) elemSize = true ↔ (i + 1) * elemSize ≤ requested 4 elemSize := by
  have hn : 0 ≤ i * (elemSize : Int) := Int.mul_nonneg h0 (by omega)
  have hb := h.base
  rw [Mem.valid_iff, Int.add_mul, Int.one_mul]
  simp only [Ptr.add_block, Ptr.add_off, h.live]
  constructor
  · rintro ⟨n, hsome, -, hle⟩
    rw [← Option.some.inj hsome] at hle
    omega
  · exact fun hle => ⟨_, rfl, by omega, by omega⟩

theorem sizeT_eq (h : Short elemSize m s) (hi : (elemSize : Int) ≤ INT_MAX) : asSizeT s.elemSize = elemSize := by
  rw [h.width, asSizeT_of_nonneg (by omega) hi, Int.toNat_natCast]

theorem push_eq (h : Short elemSize m s) (hi : (elemSize : Int) ≤ INT_MAX) (p : Ptr) :
    mystackPush m s p = (do
      let m ← m.memcpy (s.elems.add (s.currentLen * elemSize)) p elemSize
      pure (m, { s with currentLen := s.currentLen + 1 })) := by
  unfold mystackPush
  rw [if_neg (Int.ne_of_lt h.notFull)]
  simp only [ok_bind, pure_eq_ok]
  rw [h.slot_eq h.low h.used, h.sizeT_eq hi]

theorem pop_eq (h : Short elemSize m s) (hi : (elemSize : Int) ≤ INT_MAX) (hpos : 0 < s.currentLen) (p : Ptr) :
    mystackPop m s p = (do
      let m ← m.memcpy p (s.elems.add ((s.currentLen - 1) * elemSize)) elemSize
      pure (m, { s with currentLen := s.currentLen - 1 })) := by
  have hle : (s.currentLen - 1) * (elemSize : Int) ≤ s.currentLen * elemSize :=
    Int.mul_le_mul_of_nonneg_right (by omega) (by omega)
  unfold mystackPop
  dsimp only
  rw [h.slot_eq (i := s.currentLen - 1) (by omega) (Int.le_trans hle h.used), h.sizeT_eq hi]

theorem roomFor_push (h : Short elemSize m s) (p : Ptr) : roomFor elemSize (.push p) (m, s) =
    decide ((s.currentLen + 1) * elemSize ≤ requested 4 elemSize) := by
  show (decide (s.currentLen = s.size) || _) = _
  rw [decide_eq_false (Int.ne_of_lt h.notFull), Bool.false_or, h.four]

end Short

/-- **A pop of an empty stack reads before the block.** -/
theorem mystackPop_empty {p : Ptr} (hw : s.elemSize = elemSize) (he : 0 < elemSize) (hi : (elemSize : Int) ≤ INT_MAX)
    (hb : s.elems.off = 0) (h0 : s.currentLen = 0) : mystackPop m s p = .error .outOfBounds := by
  have hoff : asInt ((s.currentLen - 1) * s.elemSize) = -elemSize := by
    rw [h0, hw]
    unfold INT_MAX at hi
    have e : (0 - 1 : Int) * elemSize = -elemSize := by omega
    rw [e]
    exact Int.bmod_eq_of_le (by omega) (by omega)
  have hsrc : m.valid (s.elems.add (-elemSize)) (asSizeT s.elemSize) = false := by
    rw [← Bool.not_eq_true, Mem.valid_iff]
    rintro ⟨n, -, hle, -⟩
    simp only [Ptr.add_off] at hle
    omega
  unfold mystackPop
  dsimp only
  rw [hoff]
  unfold Mem.memcpy
  rw [hsrc, Bool.and_false]
  rfl

/-! ## What one call does -/

/-- What a call comes to: it stays in bounds, or memory is refused, or it accesses memory out of bounds; the last is so
exactly where there was no room. -/
def StepsTo (elemSize : Nat) (c : Call) (m : Mem) (s : MyStack) : Prop :=
  (roomFor elemSize c (m, s) = true ∧ (step elemSize c (m, s) = .error .assertion ∨
    ∃ m' s' e, step elemSize c (m, s) = .ok ((m', s'), e) ∧ Good elemSize m' s')) ∨
  (roomFor elemSize c (m, s) = false ∧ step elemSize c (m, s) = .error .outOfBounds)

theorem Holds.stepsTo {st : List (Elem elemSize)} (h : Holds m s st) {c : Call}
    (ho : owes elemSize c (m, s) = true) : StepsTo elemSize c m s := by
  have hp : 0 < s.size ∧ 0 < elemSize := h.positive
  have hf : s.size * elemSize ≤ INT_MAX := h.fits
  have hint := MyArrayList.le_of_mul_le (x := elemSize) (n := s.size.toNat) (by omega) (by omega)
    (by rw [Int.toNat_of_nonneg (by omega), Int.mul_comm]; exact hf)
  cases c with
  | push p =>
    have hroom : roomFor elemSize (.push p) (m, s) = true := by
      have hle : s.currentLen ≤ s.size := h.room
      have hreq := requested_eq (Int.mul_nonneg (Int.le_of_lt hp.1) (Int.natCast_nonneg elemSize)) hf
      simp only [roomFor, Bool.or_eq_true, decide_eq_true_eq]
      rw [hreq]
      by_cases hfull : s.currentLen = s.size
      · exact .inl hfull
      · exact .inr (Int.mul_le_mul_of_nonneg_right (by omega) (by omega))
    refine .inl ⟨hroom, ?_⟩
    simp only [step]
    rw [mystackPush_eq]
    rcases MyArrayList.listAdd_owes h ho with he | ⟨m', list', he, h'⟩
    · rw [he]
      exact .inl rfl
    · rw [he]
      refine .inr ⟨m', _, _, rfl, .inl ⟨m.bytes p elemSize :: st, ?_⟩⟩
      unfold Holds
      rw [List.reverse_cons]
      exact h'
  | pop p =>
    have hc : s.currentLen = st.length := by
      have := h.count
      rwa [List.length_reverse] at this
    simp only [StepsTo, roomFor, step]
    cases st with
    | nil =>
      rw [mystackPop_empty h.width hp.2 hint h.base hc]
      refine .inr ⟨?_, rfl⟩
      rw [hc]
      rfl
    | cons x st =>
      obtain ⟨m', s', he, -, h', -⟩ := mystackPop_holds h ho
      rw [he]
      refine .inl ⟨?_, .inr ⟨m', s', _, rfl, .inl ⟨st, h'⟩⟩⟩
      rw [List.length_cons] at hc
      exact decide_eq_true (by omega)
  | store p v =>
    obtain ⟨m', he, h', -⟩ := h.store ho
    refine .inl ⟨rfl, .inr ⟨m', s, none, ?_, .inl ⟨st, h'⟩⟩⟩
    simp only [step]
    rw [he]
    rfl
  | alloc n => exact .inl ⟨rfl, .inr ⟨_, s, none, rfl, .inl ⟨st, (h.alloc n).1⟩⟩⟩

theorem Short.stepsTo (h : Short elemSize m s) (he : 0 < elemSize) (hi : (elemSize : Int) ≤ INT_MAX) {c : Call}
    (ho : owes elemSize c (m, s) = true) : StepsTo elemSize c m s := by
  have h0 := h.low
  have hb := h.base
  have hused := h.used
  cases c with
  | push p =>
    simp only [owes, MyArrayList.owes, Bool.and_eq_true, Bool.or_eq_true, decide_eq_true_eq] at ho
    obtain ⟨⟨hv, -⟩, halias⟩ := ho
    change p.block ≠ s.elems.block ∨ _ ∧ p.off + elemSize ≤ s.currentLen * elemSize at halias
    simp only [StepsTo, step]
    rw [h.push_eq hi, h.roomFor_push]
    by_cases hroom : (s.currentLen + 1) * elemSize ≤ requested 4 elemSize
    · have hapart : Mem.apart (s.elems.add (s.currentLen * elemSize)) elemSize p elemSize = true := by
        rw [Mem.apart_iff]
        simp only [Ptr.add_off, Ptr.add_block]
        rcases halias with hne | ⟨-, hoff⟩
        · exact .inl (Ne.symm hne)
        · right; right
          omega
      rw [Mem.memcpy_ok ((h.valid_slot_iff h0).2 hroom) hv hapart]
      exact .inl ⟨decide_eq_true hroom,
        .inr ⟨_, _, _, rfl, .inr (h.moved (congrFun (Mem.fill_size m _ _ _) _) (by omega) hroom)⟩⟩
    · have hslot : m.valid (s.elems.add (s.currentLen * elemSize)) elemSize = false :=
        Bool.eq_false_iff.2 (fun hval => hroom ((h.valid_slot_iff h0).1 hval))
      unfold Mem.memcpy
      rw [hslot, Bool.false_and]
      exact .inr ⟨decide_eq_false hroom, rfl⟩
  | pop p =>
    simp only [owes, admits, Bool.and_eq_true, Bool.or_eq_true, decide_eq_true_eq] at ho
    obtain ⟨hv, haway⟩ := ho
    simp only [StepsTo, roomFor, step]
    by_cases hpos : 0 < s.currentLen
    · have hle : (s.currentLen - 1) * elemSize + elemSize = s.currentLen * elemSize := by
        rw [Int.sub_mul, Int.one_mul]
        omega
      have hslot := (h.valid_slot_iff (i := s.currentLen - 1) (by omega)).2 (by rw [Int.sub_add_cancel]; exact hused)
      have hapart : Mem.apart p elemSize (s.elems.add ((s.currentLen - 1) * elemSize)) elemSize = true := by
        rw [Mem.apart_iff]
        simp only [Ptr.add_off, Ptr.add_block]
        rcases haway with hne | hoff
        · exact .inl hne
        · right; right
          omega
      rw [h.pop_eq hi hpos, Mem.memcpy_ok hv hslot hapart]
      exact .inl ⟨decide_eq_true hpos,
        .inr ⟨_, _, _, rfl, .inr (h.moved (congrFun (Mem.fill_size m _ _ _) _) (by omega) (by omega))⟩⟩
    · rw [mystackPop_empty h.width he hi hb (by omega)]
      exact .inr ⟨decide_eq_false hpos, rfl⟩
  | store p v =>
    simp only [owes, admits, Bool.and_eq_true, decide_eq_true_eq] at ho
    simp only [StepsTo, step]
    rw [Mem.store_ok ho.1]
    exact .inl ⟨rfl, .inr ⟨_, s, none, rfl, .inr (h.moved (congrFun (Mem.fill_size m _ _ _) _) h0 hused)⟩⟩
  | alloc n =>
    have hlt := Mem.lt_next_of_size h.live
    refine .inl ⟨rfl, .inr ⟨_, s, none, rfl, .inr (h.moved ?_ h0 hused)⟩⟩
    unfold Mem.malloc
    cases m.os m.next with
    | refuse => rfl
    | grant junk inPlace => exact if_neg (by omega)

/-! ## Runs -/

theorem Good.inRange (h : Good elemSize m s) : 0 ≤ s.currentLen ∧ s.currentLen ≤ s.size := by
  rcases h with ⟨st, h⟩ | h
  · have hc := h.count
    exact ⟨(by omega : 0 ≤ s.asList.currentSize), h.room⟩
  · exact ⟨h.low, Int.le_of_lt h.notFull⟩

theorem Good.run_stays (he : 0 < elemSize) (hi : (elemSize : Int) ≤ INT_MAX) : ∀ (calls : List Call) (m : Mem)
    (s : MyStack), Good elemSize m s → throughout elemSize (owes elemSize) calls (m, s) = true →
      (Stays elemSize calls (m, s) ↔ throughout elemSize (roomFor elemSize) calls (m, s) = true)
  | [], _, _, h, _ => ⟨fun _ => rfl, fun _ => h.inRange⟩
  | c :: calls, m, s, h, ho => by
    unfold throughout at ho
    rw [Bool.and_eq_true] at ho
    obtain ⟨hc, hrest⟩ := ho
    have hstep : StepsTo elemSize c m s := by
      rcases h with ⟨st, h⟩ | h
      · exact h.stepsTo hc
      · exact h.stepsTo he hi hc
    unfold Stays throughout
    rcases hstep with ⟨hroom, hno | ⟨m', s', e, hs, h'⟩⟩ | ⟨hroom, hno⟩
    · rw [hno, hroom]
      exact ⟨fun _ => rfl, fun _ => ⟨h.inRange, rfl⟩⟩
    · rw [hs] at hrest ⊢
      rw [hroom, Bool.true_and]
      exact ⟨fun hst => (Good.run_stays he hi calls m' s' h' hrest).1 hst.2,
        fun hr => ⟨h.inRange, (Good.run_stays he hi calls m' s' h' hrest).2 hr⟩⟩
    · rw [hno, hroom, Bool.false_and]
      exact ⟨fun hst => (by cases hst.2), fun hr => (by cases hr)⟩

/-- **A stack stays in bounds exactly when no pop meets it empty** and no push a slot past the bytes that `mystack_new`
asked for. -/
theorem stack_stays_iff {m m₀ : Mem} {s₀ : MyStack} {elemSize : Nat} (hi : (elemSize : Int) ≤ INT_MAX)
    (hnew : mystackNew m elemSize = .ok (m₀, s₀)) (hhuge : refusesHuge m (requested 4 elemSize) = true)
    (calls : List Call) (ho : throughout elemSize (owes elemSize) calls (m₀, s₀) = true) :
    Stays elemSize calls (m₀, s₀) ↔ throughout elemSize (roomFor elemSize) calls (m₀, s₀) = true := by
  have he : 0 < elemSize := by
    unfold mystackNew at hnew
    split at hnew
    · omega
    · cases hnew
  refine Good.run_stays he hi calls m₀ s₀ ?_ ho
  by_cases hf : (4 : Int) * elemSize ≤ INT_MAX
  · left
    rcases mystackNew_holds m he hf with ⟨hno, -⟩ | ⟨m', s, hok, h, -⟩
    · rw [hno] at hnew
      cases hnew
    · rw [hok] at hnew
      cases hnew
      exact ⟨[], h⟩
  · right
    unfold mystackNew at hnew
    rw [if_pos (by omega), show asSizeT (asInt (4 * (elemSize : Int))) = requested 4 elemSize from rfl] at hnew
    rcases Mem.malloc_cases m (requested 4 elemSize) with ⟨hos, hnull⟩ | ⟨m', hm, ha⟩
    · split at hnew
      · cases hnew
      · rename_i hsome
        rw [hsome] at hnull
        cases hnull
    · rw [hm] at hnew
      cases hnew
      rcases requested_wraps 4 elemSize with hint | ⟨hbig, -⟩
      · exact ⟨rfl, rfl, rfl, ha.new, by omega, hint, Int.le_refl _, by simp only [Int.zero_mul]; omega⟩
      · have hos := refused_of_huge hhuge hbig
        unfold Mem.malloc at hm
        rw [hos] at hm
        cases hm

/-- Growth, pops down to the empty stack, and a push. -/
theorem stack_stays_callerRun : ∃ m₀ s₀, mystackNew callerMem (2 : Nat) = .ok (m₀, s₀) ∧
    Stays 2 callerRun (m₀, s₀) :=
  ⟨_, _, rfl, (stack_stays_iff (m := callerMem) (by decide) rfl (by decide) callerRun (by decide)).2 (by decide)⟩

/-- **A pop of a new stack** reads before its block. -/
theorem stack_stays_popNew : ∃ m₀ s₀, mystackNew callerMem (2 : Nat) = .ok (m₀, s₀) ∧
    throughout 2 (owes 2) [.pop ⟨0, 0⟩] (m₀, s₀) = true ∧ ¬ Stays 2 [.pop ⟨0, 0⟩] (m₀, s₀) := by
  refine ⟨_, _, rfl, by decide, ?_⟩
  rintro ⟨-, hno⟩
  cases hno

end MyStack
end Cc
