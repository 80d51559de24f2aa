import CCplusplus.MyArrayListRefine
/-!
# MyStack — `mystack.h` on bytes

A stack keeps its elements as `my_array_list` does, in one block of `size` slots of which the first `current_len` are in
use, and `mystack_grow` and `mystack_push` do what `list_grow` and `list_add` do (`mystackGrow_eq`, `mystackPush_eq`).
`mystack_pop` copies the last slot in use out, and does not ask whether there is one.
-/
namespace Cc

open CLib

/-- `mystack` -/
structure MyStack where
  elems : Ptr
  elemSize : Int
  currentLen : Int
  size : Int
deriving DecidableEq, Repr

namespace MyStack

def mystackNew (m : Mem) (elemSize : Int) : Exec (Mem × MyStack) :=
  if elemSize > 0 then
    match m.malloc (asSizeT (asInt (4 * elemSize))) with
    | (none, _) => .error .assertion
    | (some elems, m) => .ok (m, { elems, elemSize, currentLen := 0, size := 4 })
  else .error .assertion

def mystackDispose (m : Mem) (s : MyStack) : Exec Mem := m.free s.elems

def mystackGrow (m : Mem) (s : MyStack) : Exec (Mem × MyStack) := do
  let size := asInt (s.size * 2)
  match ← m.realloc s.elems (asSizeT (asInt (size * s.elemSize))) with
  | (none, _) => .error .assertion
  | (some elems, m) => pure (m, { s with size, elems })

def mystackPush (m : Mem) (s : MyStack) (elemAddr : Ptr) : Exec (Mem × MyStack) := do
  let (m, s) ← if s.currentLen = s.size then mystackGrow m s else pure (m, s)
  let target := s.elems.add (asInt (s.currentLen * s.elemSize))
  let m ← m.memcpy target elemAddr (asSizeT s.elemSize)
  pure (m, { s with currentLen := s.currentLen + 1 })

def mystackPop (m : Mem) (s : MyStack) (elemAddr : Ptr) : Exec (Mem × MyStack) := do
  let source := s.elems.add (asInt ((s.currentLen - 1) * s.elemSize))
  let m ← m.memcpy elemAddr source (asSizeT s.elemSize)
  pure (m, { s with currentLen := s.currentLen - 1 })

/-! ## A stack is laid out as a list -/

def asList (s : MyStack) : MyArrayList := ⟨s.elems, s.elemSize, s.size, s.currentLen⟩

def ofList (list : MyArrayList) : MyStack := ⟨list.values, list.elemSize, list.currentSize, list.size⟩

@[simp] theorem asList_ofList (list : MyArrayList) : (ofList list).asList = list := rfl

theorem mystackNew_eq (m : Mem) (elemSize : Int) :
    mystackNew m elemSize = (do
      let (m, list) ← MyArrayList.listNew m 4 elemSize
      pure (m, ofList list)) := by
  unfold mystackNew MyArrayList.listNew
  by_cases he : elemSize > 0
  · rw [if_pos he, if_pos ⟨by decide, he⟩]
    rcases m.malloc (asSizeT (asInt (4 * elemSize))) with ⟨_ | p, m'⟩
    · rfl
    · rfl
  · rw [if_neg he, if_neg (fun h => he h.2)]
    rfl

theorem mystackGrow_eq (m : Mem) (s : MyStack) :
    mystackGrow m s = (do
      let (m, list) ← MyArrayList.listGrow m s.asList
      pure (m, ofList list)) := by
  unfold mystackGrow MyArrayList.listGrow asList
  dsimp only
  rcases m.realloc s.elems (asSizeT (asInt (asInt (s.size * 2) * s.elemSize))) with e | ⟨_ | p, m'⟩
  · rfl
  · rfl
  · rfl

/-- **`mystack_push` is `list_add`** on the same slots. -/
theorem mystackPush_eq (m : Mem) (s : MyStack) (elemAddr : Ptr) :
    mystackPush m s elemAddr = (do
      let (m, list) ← MyArrayList.listAdd m s.asList elemAddr
      pure (m, ofList list)) := by
  have hstore : ∀ (m : Mem) (list : MyArrayList),
      (do
        let m ← m.memcpy ((ofList list).elems.add (asInt ((ofList list).currentLen * (ofList list).elemSize))) elemAddr
          (asSizeT (ofList list).elemSize)
        pure (m, { ofList list with currentLen := (ofList list).currentLen + 1 }) : Exec (Mem × MyStack)) =
      (do
        let m ← m.memcpy (MyArrayList.elemAddr list list.currentSize) elemAddr (asSizeT list.elemSize)
        pure (m, ofList { list with currentSize := list.currentSize + 1 })) := fun _ _ => rfl
  unfold mystackPush MyArrayList.listAdd
  by_cases hfull : s.currentLen = s.size
  · rw [if_pos hfull, if_pos (show s.asList.currentSize = s.asList.size from hfull), mystackGrow_eq]
    cases MyArrayList.listGrow m s.asList with
    | error e => rfl
    | ok r =>
      simp only [ok_bind, pure_eq_ok]
      refine (hstore r.1 r.2).trans ?_
      cases r.1.memcpy (MyArrayList.elemAddr r.2 r.2.currentSize) elemAddr (asSizeT r.2.elemSize) with
      | error e => rfl
      | ok m' => rfl
  · rw [if_neg hfull, if_neg (show ¬ s.asList.currentSize = s.asList.size from hfull)]
    simp only [ok_bind, pure_eq_ok]
    refine (hstore m s.asList).trans ?_
    cases m.memcpy (MyArrayList.elemAddr s.asList s.asList.currentSize) elemAddr (asSizeT s.asList.elemSize) with
    | error e => rfl
    | ok m' => rfl

/-! ## Runs -/

/-- What a caller does: calls of the stack functions, each with the address of its value, and its own use of memory. -/
inductive Call where
  | push (elemAddr : Ptr)
  | pop (elemAddr : Ptr)
  | store (p : Ptr) (v : UInt8)
  | alloc (n : Nat)

/-- A value pushed, or a value delivered by a pop. -/
inductive Event (α : Type) where
  | push (x : α)
  | pop (x : α)

def step (elemSize : Nat) : Call → Mem × MyStack → Exec ((Mem × MyStack) × Option (Event (Elem elemSize)))
  | .push p, (m, s) => do
    let t ← mystackPush m s p
    pure (t, some (.push (m.bytes p elemSize)))
  | .pop p, (m, s) => do
    let t ← mystackPop m s p
    pure (t, some (.pop (t.1.bytes p elemSize)))
  | .store p v, (m, s) => do
    let m ← m.store p v
    pure ((m, s), none)
  | .alloc n, (m, s) => pure (((m.malloc n).2, s), none)

/-- A caller's run, with the events in order. -/
def run (elemSize : Nat) : List Call → Mem × MyStack → Exec ((Mem × MyStack) × List (Event (Elem elemSize)))
  | [], t => pure (t, [])
  | c :: calls, t => do
    let (t, e) ← step elemSize c t
    let (t, es) ← run elemSize calls t
    pure (t, e.toList ++ es)

/-- Pushes minus pops. -/
def height : List Call → Int
  | [] => 0
  | .push _ :: calls => height calls + 1
  | .pop _ :: calls => height calls - 1
  | _ :: calls => height calls

/-- What a caller owes about memory: a value to push is readable and lies as a value to add to a list does, the target of
a pop is writable and off the slots in use, and the caller writes to memory of its own. -/
def admits (elemSize : Nat) : Call → Mem × MyStack → Bool
  | .push p, (m, s) => MyArrayList.admits elemSize (.add p) (m, s.asList)
  | .pop p, (m, s) =>
    m.valid p elemSize && (decide (p.block ≠ s.elems.block) || decide (s.currentLen * elemSize ≤ p.off))
  | .store p _, (m, s) => m.valid p 1 && decide (p.block ≠ s.elems.block)
  | .alloc _, _ => true

/-- A condition on a call and the state before it, at every step of a run. -/
def throughout (elemSize : Nat) (ok : Call → Mem × MyStack → Bool) : List Call → Mem × MyStack → Bool
  | [], _ => true
  | c :: calls, t =>
    ok c t &&
    match step elemSize c t with
    | .ok (t, _) => throughout elemSize ok calls t
    | .error _ => true

end MyStack
end Cc
