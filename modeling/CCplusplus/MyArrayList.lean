import CCplusplus.Lib.Elems
/-!
# MyArrayList — `my_array_list.c` on bytes

The list keeps its elements in one block, `size` slots of `elem_size` bytes of which the first `current_size` are in use.
The functions take the memory and the `my_array_list` and return both.  The `int` products wrap around, and the one that
counts bytes is converted to `size_t`; a failed `assert` is a fault.
-/
namespace Cc

open CLib

/-- `my_array_list` -/
structure MyArrayList where
  values : Ptr
  elemSize : Int
  size : Int
  currentSize : Int
deriving DecidableEq, Repr

namespace MyArrayList

def listNew (m : Mem) (size elemSize : Int) : Exec (Mem × MyArrayList) :=
  if size > 0 ∧ elemSize > 0 then
    match m.malloc (asSizeT (asInt (size * elemSize))) with
    | (none, _) => .error .assertion
    | (some values, m) => .ok (m, { values, elemSize, size, currentSize := 0 })
  else .error .assertion

def listGrow (m : Mem) (list : MyArrayList) : Exec (Mem × MyArrayList) := do
  let size := asInt (list.size * 2)
  match ← m.realloc list.values (asSizeT (asInt (size * list.elemSize))) with
  | (none, _) => .error .assertion
  | (some values, m) => pure (m, { list with size, values })

def listDispose (m : Mem) (list : MyArrayList) : Exec Mem := m.free list.values

/-- `(char *)list->values + index * list->elem_size` -/
def elemAddr (list : MyArrayList) (index : Int) : Ptr := list.values.add (asInt (index * list.elemSize))

def listAdd (m : Mem) (list : MyArrayList) (valueAddr : Ptr) : Exec (Mem × MyArrayList) := do
  let (m, list) ← if list.currentSize = list.size then listGrow m list else pure (m, list)
  let m ← m.memcpy (elemAddr list list.currentSize) valueAddr (asSizeT list.elemSize)
  pure (m, { list with currentSize := list.currentSize + 1 })

/-- One turn of `list_remove`'s loop; the turn that breaks is the last one. -/
def removeTurn (list : MyArrayList) (i : Int) (m : Mem) : Exec Mem :=
  if i = list.currentSize - 1 then pure m
  else m.memcpy (elemAddr list i) (elemAddr list (i + 1)) (asSizeT list.elemSize)

def listRemove (m : Mem) (list : MyArrayList) (index : Int) : Exec (Mem × MyArrayList × Int) :=
  if index < list.currentSize ∧ index ≥ 0 then do
    let m ← forLoop (removeTurn list) (list.currentSize - index).toNat index m
    pure (m, { list with currentSize := list.currentSize - 1 }, 1)
  else .error .assertion

/-- `list_contain`'s loop from `i` on, with `n` turns left. -/
def containFrom {elemSize : Nat} (m : Mem) (list : MyArrayList) (value : Ptr) (cmpfn : CmpFn elemSize) :
    Nat → Int → Exec Int
  | 0, _ => pure (-1)
  | n + 1, i => do
    if (← callCmp m cmpfn value (elemAddr list i)) = 0 then pure i
    else containFrom m list value cmpfn n (i + 1)

def listContain {elemSize : Nat} (m : Mem) (list : MyArrayList) (value : Ptr) (cmpfn : CmpFn elemSize) : Exec Int :=
  containFrom m list value cmpfn list.currentSize.toNat 0

def listRemoveVal {elemSize : Nat} (m : Mem) (list : MyArrayList) (value : Ptr) (cmpfn : CmpFn elemSize) :
    Exec (Mem × MyArrayList × Int) := do
  let index ← listContain m list value cmpfn
  if index < 0 then pure (m, list, -1) else listRemove m list index

def listGet (list : MyArrayList) (index : Int) : Exec Ptr :=
  if index < list.currentSize ∧ index ≥ 0 then pure (elemAddr list index) else .error .assertion

/-! ## Runs -/

/-- What a caller does: calls of the list functions, each with the address of its value, and its own use of memory. -/
inductive Call where
  | add (valueAddr : Ptr)
  | remove (index : Int)
  | removeVal (value : Ptr)
  | contain (value : Ptr)
  | get (index : Int)
  | store (p : Ptr) (v : UInt8)
  | alloc (n : Nat)

/-- The operations of a sequence. -/
inductive Op (α : Type) where
  | add (x : α)
  | remove (index : Nat)
  | removeVal (x : α)
  | contain (x : α)
  | get (index : Nat)

inductive Answer (α : Type) where
  | done
  | code (r : Int)
  | value (x : α)

/-- A list function called, as the operation on the values at the addresses it was given, with its answer. -/
abbrev Event (elemSize : Nat) := Op (Elem elemSize) × Answer (Elem elemSize)

def step {elemSize : Nat} (cmpfn : CmpFn elemSize) :
    Call → Mem × MyArrayList → Exec ((Mem × MyArrayList) × Option (Event elemSize))
  | .add p, (m, list) => do
    let s ← listAdd m list p
    pure (s, some (.add (m.bytes p elemSize), .done))
  | .remove index, (m, list) => do
    let (m', list', r) ← listRemove m list index
    pure ((m', list'), some (.remove index.toNat, .code r))
  | .removeVal p, (m, list) => do
    let (m', list', r) ← listRemoveVal m list p cmpfn
    pure ((m', list'), some (.removeVal (m.bytes p elemSize), .code r))
  | .contain p, (m, list) => do
    let r ← listContain m list p cmpfn
    pure ((m, list), some (.contain (m.bytes p elemSize), .code r))
  | .get index, (m, list) => do
    let p ← listGet list index
    if m.valid p elemSize then pure ((m, list), some (.get index.toNat, .value (m.bytes p elemSize)))
    else .error .outOfBounds
  | .store p v, (m, list) => do
    let m ← m.store p v
    pure ((m, list), none)
  | .alloc n, (m, list) => pure (((m.malloc n).2, list), none)

/-- A caller's run, with the events in order. -/
def run {elemSize : Nat} (cmpfn : CmpFn elemSize) :
    List Call → Mem × MyArrayList → Exec ((Mem × MyArrayList) × List (Event elemSize))
  | [], s => pure (s, [])
  | c :: calls, s => do
    let (s, e) ← step cmpfn c s
    let (s, es) ← run cmpfn calls s
    pure (s, e.toList ++ es)

/-- What a caller owes: the index asserts hold, a value's address is readable, a capacity that grows stays within `int`
bytes, and the caller writes to memory of its own.  A value to add that is in the list's own block is among the elements
in use. -/
def proper (elemSize : Nat) : Call → Mem × MyArrayList → Bool
  | .add p, (m, list) =>
    m.valid p elemSize &&
    (decide (list.currentSize ≠ list.size) || decide (list.size * 2 * elemSize ≤ INT_MAX)) &&
    (decide (p.block ≠ list.values.block) || decide (p.off + elemSize ≤ list.currentSize * elemSize))
  | .remove index, (_, list) => decide (index < list.currentSize) && decide (index ≥ 0)
  | .get index, (_, list) => decide (index < list.currentSize) && decide (index ≥ 0)
  | .removeVal p, (m, _) => m.valid p elemSize
  | .contain p, (m, _) => m.valid p elemSize
  | .store p _, (m, list) => m.valid p 1 && decide (p.block ≠ list.values.block)
  | .alloc _, _ => true

/-- A list that is full is given no value of its own block to add. -/
def aside : Call → Mem × MyArrayList → Bool
  | .add p, (_, list) => decide (list.currentSize ≠ list.size) || decide (p.block ≠ list.values.block)
  | _, _ => true

def admits (elemSize : Nat) (c : Call) (s : Mem × MyArrayList) : Bool := proper elemSize c s && aside c s

/-- A condition at every step of a caller's run. -/
def throughout {elemSize : Nat} (cmpfn : CmpFn elemSize) (ok : Call → Mem × MyArrayList → Bool) :
    List Call → Mem × MyArrayList → Bool
  | [], _ => true
  | c :: calls, s =>
    ok c s &&
    match step cmpfn c s with
    | .ok (s, _) => throughout cmpfn ok calls s
    | .error _ => true

/-! ## The sequence -/

/-- The least index whose element compares equal to `x`. -/
def firstMatch {α : Type} (cmpfn : α → α → Int) (x : α) (xs : List α) : Option Nat :=
  xs.findIdx? (fun v => cmpfn x v == 0)

/-- An operation on a plain sequence. -/
def perform {α : Type} (cmpfn : α → α → Int) : Op α → List α → Option (List α × Answer α)
  | .add x, xs => some (xs ++ [x], .done)
  | .remove index, xs => if index < xs.length then some (xs.eraseIdx index, .code 1) else none
  | .removeVal x, xs =>
    match firstMatch cmpfn x xs with
    | some index => some (xs.eraseIdx index, .code 1)
    | none => some (xs, .code (-1))
  | .contain x, xs =>
    match firstMatch cmpfn x xs with
    | some index => some (xs, .code index)
    | none => some (xs, .code (-1))
  | .get index, xs => xs[index]?.map (fun x => (xs, .value x))

/-- The events are those of a plain sequence that goes from `xs` to `ys`. -/
def Follows {α : Type} (cmpfn : α → α → Int) : List (Op α × Answer α) → List α → List α → Prop
  | [], xs, ys => xs = ys
  | (op, answer) :: es, xs, ys => ∃ zs, perform cmpfn op xs = some (zs, answer) ∧ Follows cmpfn es zs ys

end MyArrayList
end Cc
