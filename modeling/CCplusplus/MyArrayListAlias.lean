import CCplusplus.MyArrayListRefine
/-!
# MyArrayListAlias — adding an element of the list to the list

`list_get` returns an address in the list's block, and `list_add` copies from it after `list_grow`.  A block that
`realloc` has moved is not live, so the copy faults; the list has to have room (`listAdd_own_iff`).
-/
namespace Cc
namespace MyArrayList

open CLib

variable {elemSize : Nat} {m : Mem} {list : MyArrayList} {xs : List (Elem elemSize)}

/-- The system answers otherwise from here on. -/
def answering (m : Mem) (os : Nat → Grant) : Mem := { m with os := os }

@[simp] theorem answering_os (m : Mem) (os : Nat → Grant) : (answering m os).os = os := rfl
@[simp] theorem answering_next (m : Mem) (os : Nat → Grant) : (answering m os).next = m.next := rfl

theorem Refines.answering (h : Refines m list xs) (os : Nat → Grant) : Refines (answering m os) list xs :=
  h.frame rfl rfl

/-! ## Reachable states -/

/-- What a caller owes apart from its values to add, which may lie anywhere. -/
def admitsAny (elemSize : Nat) : Call → Mem × MyArrayList → Bool
  | .add _, (_, list) => decide (list.currentSize ≠ list.size) || decide (list.size * 2 * elemSize ≤ INT_MAX)
  | c, s => admits elemSize c s

/-- The states of a caller that came back from every call so far. -/
inductive Reached (cmpfn : CmpFn elemSize) : Mem → MyArrayList → Prop where
  | made {m m' : Mem} {list : MyArrayList} (size : Nat) (hs : 0 < size) (he : 0 < elemSize)
      (hf : (size : Int) * elemSize ≤ INT_MAX) (hnew : listNew m size elemSize = .ok (m', list)) :
      Reached cmpfn m' list
  | called {m m' : Mem} {list list' : MyArrayList} {e : Option (Event elemSize)} (c : Call) (h : Reached cmpfn m list)
      (hadm : admitsAny elemSize c (m, list) = true) (hstep : step cmpfn c (m, list) = .ok ((m', list'), e)) :
      Reached cmpfn m' list'

theorem Refines.appended (h : Refines m list xs) (hlt : list.currentSize < list.size) {p : Ptr} {m' : Mem}
    (hcpy : m.memcpy (elemAddr list list.currentSize) p (asSizeT list.elemSize) = .ok m') :
    ∃ x, Refines m' { list with currentSize := list.currentSize + 1 } (xs ++ [x]) := by
  have hc := h.count
  have hinv := Mem.memcpy_inv hcpy
  rw [h.elemAddr_eq (by omega) hlt, h.sizeT_eq] at hinv
  obtain ⟨m₁, hcpy₁, h₁, -⟩ := h.append hlt hinv.1 hinv.2
  cases hcpy.symm.trans hcpy₁
  exact ⟨_, h₁⟩

/-- **`list_add` that returns has appended a value**, whatever address it was given. -/
theorem listAdd_ok (h : Refines m list xs) {p : Ptr} (hadm : admitsAny elemSize (.add p) (m, list) = true) {m' : Mem}
    {list' : MyArrayList} (hadd : listAdd m list p = .ok (m', list')) : ∃ x, Refines m' list' (xs ++ [x]) := by
  have hroom := h.room
  have hp := h.positive.1
  have hc := h.count
  simp only [admitsAny, Bool.or_eq_true, decide_eq_true_eq] at hadm
  -- the list that is copied into: as it is, or grown
  obtain ⟨m₁, list₁, h₁, hlt, hrun⟩ : ∃ m₁ list₁, Refines m₁ list₁ xs ∧ list₁.currentSize < list₁.size ∧
      (do
        let m ← m₁.memcpy (elemAddr list₁ list₁.currentSize) p (asSizeT list₁.elemSize)
        pure (m, { list₁ with currentSize := list₁.currentSize + 1 })) =
          (.ok (m', list') : Exec (Mem × MyArrayList)) := by
    unfold listAdd at hadd
    by_cases hfull : list.currentSize = list.size
    · rw [if_pos hfull] at hadd
      rcases listGrow_refines h (hadm.resolve_left (fun hn => hn hfull)) with ⟨he, -⟩ | ⟨m₁, list₁, he, h₁, hsize, -⟩
      · rw [he] at hadd
        cases hadd
      · rw [he] at hadd
        have hc₁ := h₁.count
        exact ⟨m₁, list₁, h₁, by omega, hadd⟩
    · rw [if_neg hfull] at hadd
      exact ⟨m, list, h, by omega, hadd⟩
  cases hcpy : m₁.memcpy (elemAddr list₁ list₁.currentSize) p (asSizeT list₁.elemSize) with
  | error e =>
    rw [hcpy] at hrun
    cases hrun
  | ok m₂ =>
    rw [hcpy] at hrun
    cases hrun
    exact h₁.appended hlt hcpy

/-- **A reachable list is a sequence.** -/
theorem Reached.refines {cmpfn : CmpFn elemSize} (h : Reached cmpfn m list) :
    ∃ xs : List (Elem elemSize), Refines m list xs := by
  induction h with
  | made size hs he hf hnew =>
    rename_i m₀ _ _
    rcases listNew_refines m₀ hs he hf with ⟨hno, -⟩ | ⟨m₁, list₁, hok, h₁, -⟩
    · cases hnew.symm.trans hno
    · cases hnew.symm.trans hok
      exact ⟨[], h₁⟩
  | called c h hadm hstep ih =>
    obtain ⟨xs, hxs⟩ := ih
    have hother : admits elemSize c _ = true → ∃ ys : List (Elem elemSize), Refines _ _ ys := fun hadm => by
      rcases step_follows cmpfn c hxs hadm with ⟨hno, -⟩ | ⟨m₁, list₁, e, ys, hok, h₁, -⟩
      · cases hstep.symm.trans hno
      · cases hstep.symm.trans hok
        exact ⟨ys, h₁⟩
    cases c with
    | add p =>
      rename_i m₀ _ list₀ _ _
      simp only [step] at hstep
      cases hadd : listAdd m₀ list₀ p with
      | error e =>
        rw [hadd] at hstep
        cases hstep
      | ok s =>
        rw [hadd] at hstep
        cases hstep
        obtain ⟨x, hx⟩ := listAdd_ok hxs hadm hadd
        exact ⟨_, hx⟩
    | remove index => exact hother hadm
    | removeVal p => exact hother hadm
    | contain p => exact hother hadm
    | get index => exact hother hadm
    | store p v => exact hother hadm
    | alloc n => exact hother hadm

/-! ## An element of its own -/

/-- `list_add(list, list_get(list, i))` appends the value that element `i` had, however the system answers; the only
other end is the assertion that memory was granted. -/
def AddsOwn (elemSize : Nat) (m : Mem) (list : MyArrayList) (i : Int) : Prop :=
  ∀ os, ∃ p, listGet list i = .ok p ∧
    ((listAdd (answering m os) list p = .error .assertion ∧ os m.next = .refuse) ∨
      ∃ m' list', listAdd (answering m os) list p = .ok (m', list') ∧
        contents m' list'.values list'.currentSize.toNat elemSize =
          contents m list.values list.currentSize.toNat elemSize ++ [m.bytes p elemSize])

def moves : Nat → Grant := fun _ => .grant (fun _ => 0) false

/-- **Growth of a full list moves its block**, and an address in the old one is not live. -/
theorem listAdd_moved {s : Nat} (hlive : m.size list.values.block = some s) (hoff : list.values.off = 0)
    (hfull : list.currentSize = list.size) {p : Ptr} (hp : p.block = list.values.block) :
    listAdd (answering m moves) list p = .error .outOfBounds := by
  obtain ⟨q, m', hmoved, hdead⟩ := Mem.realloc_moved (m := answering m moves) hlive hoff rfl
    (asSizeT (asInt (asInt (list.size * 2) * list.elemSize)))
  have hinvalid : m'.valid p (asSizeT list.elemSize) = false := by
    rw [← Bool.not_eq_true, Mem.valid_iff, hp, hdead]
    rintro ⟨s, hs, -⟩
    cases hs
  unfold listAdd listGrow
  simp only [if_pos hfull, hmoved, ok_bind, pure_eq_ok]
  rw [Mem.memcpy_fault hinvalid]
  rfl

/-- **Adding an element of the list to the list is right exactly if the list has room.** -/
theorem listAdd_own_iff {cmpfn : CmpFn elemSize} (h : Reached cmpfn m list) {i : Int} (h0 : 0 ≤ i)
    (h1 : i < list.currentSize) : AddsOwn elemSize m list i ↔ list.currentSize ≠ list.size := by
  obtain ⟨xs, hxs⟩ := h.refines
  have hc := hxs.count
  have hroom := hxs.room
  obtain ⟨p, hget, hv, -⟩ := listGet_eq hxs h0 h1
  have hp : p = list.values.add (i * elemSize) := by
    unfold listGet at hget
    rw [if_pos ⟨h1, h0⟩, hxs.elemAddr_eq h0 (by omega)] at hget
    exact (Except.ok.inj hget).symm
  constructor
  · intro hadds hfull
    have hmoved := listAdd_moved hxs.live hxs.base hfull (p := p) (by rw [hp, Ptr.add_block])
    obtain ⟨q, hq, ⟨hno, -⟩ | ⟨m', list', hok, -⟩⟩ := hadds moves
    · cases hget.symm.trans hq
      cases hno.symm.trans hmoved
    · cases hget.symm.trans hq
      cases hok.symm.trans hmoved
  · intro hne os
    have hadm : admits elemSize (.add p) (answering m os, list) = true := by
      have hb := slot_bounds xs.length elemSize h0 (by omega)
      rw [Int.natCast_mul, ← hc] at hb
      refine admits_add.2 ⟨hv, .inl hne, .inr ⟨hne, ?_⟩⟩
      rw [hp, Ptr.add_off, hxs.base]
      omega
    refine ⟨p, hget, (listAdd_refines (hxs.answering os) hadm).imp_right ?_⟩
    rintro ⟨m', list', hadd, h', -⟩
    have hc' := h'.count
    refine ⟨m', list', hadd, ?_⟩
    rw [hc', hc, Int.toNat_natCast, Int.toNat_natCast, h'.holds, hxs.holds]
    rfl

theorem listAdd_own_roomy : ∃ m list, Reached cmpBytes m list ∧ (AddsOwn 2 m list 0 ↔ list.currentSize ≠ list.size) := by
  have hreached : Reached cmpBytes _ _ := .called (.add ⟨0, 0⟩) (.made (m := callerMem) 2 (by decide) (by decide)
    (by decide) rfl) (by decide) rfl
  exact ⟨_, _, hreached, listAdd_own_iff hreached (Int.le_refl 0) (by decide)⟩

/-- **A list of one value, full, adds its own element from a block that is gone.** -/
theorem listAdd_own_moved : ∃ m list p, Reached cmpBytes m list ∧ listGet list 0 = .ok p ∧
    listAdd m list p = .error .outOfBounds ∧ ¬ AddsOwn 2 m list 0 := by
  have hreached : Reached cmpBytes _ _ := .called (.add ⟨0, 0⟩) (.made (m := callerMem) 1 (by decide) (by decide)
    (by decide) rfl) (by decide) rfl
  refine ⟨_, _, _, hreached, rfl, rfl, fun hadds => ?_⟩
  obtain ⟨p, hp, ⟨hno, -⟩ | ⟨m', list', hok, -⟩⟩ := hadds moves
  · cases hp
    cases hno
  · cases hp
    cases hok

end MyArrayList
end Cc
