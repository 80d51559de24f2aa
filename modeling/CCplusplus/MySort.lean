import CCplusplus.Lib.Elems
/-!
# MySort — `my_sort.c` on bytes

The sorts move elements of `elem_size` bytes inside one allocation and call the comparator on the addresses of two of
them.  Every function takes the memory and returns the memory it leaves.  `cmpfn` is a function of the bytes of the two
elements.  The `int` products that address an element are `imul`, so that an overflow is a fault; the other `int`
expressions are indices between `-1` and `size`.
-/
namespace Cc
namespace MySort

open CLib

def getElem (base : Ptr) (index : Int) (elemSize : Nat) : Exec Ptr := do
  pure (base.add (← imul index elemSize))

/-- One turn of `swap`'s loop: `tmp = *pp; *pp = *pp2; *pp2 = tmp; pp++; pp2++`. -/
def swapByte : Mem × Ptr × Ptr → Exec (Mem × Ptr × Ptr)
  | (m, pp, pp2) => do
    let tmp ← m.load pp
    let m ← m.store pp (← m.load pp2)
    let m ← m.store pp2 tmp
    pure (m, pp.add 1, pp2.add 1)

def swap (m : Mem) (base : Ptr) (p p2 : Int) (elemSize : Nat) : Exec Mem := do
  let pp ← getElem base p elemSize
  let pp2 ← getElem base p2 elemSize
  let s ← forLoop (fun _ => swapByte) elemSize 0 (m, pp, pp2)
  pure s.1

/-! ## Quick sort -/

/-- `while (hight > low && cmpfn(get_elem(base, hight, elem_size), pivot) >= 0) hight--` -/
def scanHight {elemSize : Nat} (fuel : Nat) (m : Mem) (base pivot : Ptr) (cmpfn : CmpFn elemSize) (low : Int) :
    Int → Exec Int :=
  whileLoop
    (fun hight =>
      if hight > low then do
        let c ← callCmp m cmpfn (← getElem base hight elemSize) pivot
        pure (decide (c ≥ 0))
      else pure false)
    (fun hight => pure (hight - 1)) fuel

/-- `while (low < hight && cmpfn(get_elem(base, low, elem_size), pivot) <= 0) low++` -/
def scanLow {elemSize : Nat} (fuel : Nat) (m : Mem) (base pivot : Ptr) (cmpfn : CmpFn elemSize) (hight : Int) :
    Int → Exec Int :=
  whileLoop
    (fun low =>
      if low < hight then do
        let c ← callCmp m cmpfn (← getElem base low elemSize) pivot
        pure (decide (c ≤ 0))
      else pure false)
    (fun low => pure (low + 1)) fuel

/-- One turn of `my_partition`'s outer loop, on the memory, `low` and `hight`. -/
def partitionTurn {elemSize : Nat} (fuel : Nat) (base pivot : Ptr) (cmpfn : CmpFn elemSize) :
    Mem × Int × Int → Exec (Mem × Int × Int)
  | (m, low, hight) => do
    let hight ← scanHight fuel m base pivot cmpfn low hight
    let low ← scanLow fuel m base pivot cmpfn hight low
    if hight > low then
      let m ← swap m base hight low elemSize
      pure (m, low, hight)
    else pure (m, low, hight)

def myPartition {elemSize : Nat} (fuel : Nat) (m : Mem) (base : Ptr) (begin end_ : Int) (cmpfn : CmpFn elemSize) :
    Exec (Mem × Int) := do
  -- the pivot is an address: what is compared against is whatever slot `begin` holds
  let pivot := base.add (← imul begin elemSize)
  let (m, low, _) ← whileLoop (fun (_, low, hight) => pure (decide (low < hight)))
    (partitionTurn fuel base pivot cmpfn) fuel (m, begin, end_)
  if low > begin then
    let m ← swap m base low begin elemSize
    pure (m, low)
  else pure (m, low)

def doQsort {elemSize : Nat} : Nat → Mem → Ptr → Int → Int → CmpFn elemSize → Exec Mem
  | 0, _, _, _, _, _ => .error .outOfFuel
  | fuel + 1, m, base, begin, end_, cmpfn =>
    if end_ ≤ begin then pure m
    else do
      let (m, pivotIndex) ← myPartition fuel m base begin end_ cmpfn
      let m ← doQsort fuel m base begin (pivotIndex - 1) cmpfn
      doQsort fuel m base (pivotIndex + 1) end_ cmpfn

def myQsort {elemSize : Nat} (fuel : Nat) (m : Mem) (base : Ptr) (size : Int) (cmpfn : CmpFn elemSize) : Exec Mem :=
  doQsort fuel m base 0 (size - 1) cmpfn

/-! ## Merge sort -/

/-- One turn of `do_merge`'s first loop, on the memory, `left_index` and `right_index`. -/
def mergeTurn {elemSize : Nat} (base tmp : Ptr) (middle to_ : Int) (cmpfn : CmpFn elemSize) (i : Int) :
    Mem × Int × Int → Exec (Mem × Int × Int)
  | (m, leftIndex, rightIndex) => do
    let elem ← getElem tmp i elemSize
    if leftIndex > middle then
      let right ← getElem base rightIndex elemSize
      let m ← m.memcpy elem right elemSize
      pure (m, leftIndex, rightIndex + 1)
    else if rightIndex > to_ then
      let left ← getElem base leftIndex elemSize
      let m ← m.memcpy elem left elemSize
      pure (m, leftIndex + 1, rightIndex)
    else
      let left ← getElem base leftIndex elemSize
      let right ← getElem base rightIndex elemSize
      if (← callCmp m cmpfn left right) > 0 then
        let m ← m.memcpy elem right elemSize
        pure (m, leftIndex, rightIndex + 1)
      else
        let m ← m.memcpy elem left elemSize
        pure (m, leftIndex + 1, rightIndex)

/-- One turn of `do_merge`'s second loop, which copies `tmp` back. -/
def copyBackTurn (base tmp : Ptr) (from_ : Int) (elemSize : Nat) (i : Int) (m : Mem) : Exec Mem := do
  let tmpElem ← getElem tmp i elemSize
  let baseElem ← getElem base (from_ + i) elemSize
  m.memcpy baseElem tmpElem elemSize

def doMerge {elemSize : Nat} (m : Mem) (base : Ptr) (from_ to_ : Int) (cmpfn : CmpFn elemSize) : Exec Mem :=
  if from_ ≥ to_ then pure m
  else do
    let middle := from_ + (to_ - from_) / 2
    let n ← imul (to_ - from_ + 1) elemSize
    match m.malloc n.toNat with
    | (none, _) => .error .assertion
    | (some tmp, m) => do
      let (m, _, _) ← forLoop (mergeTurn base tmp middle to_ cmpfn) (to_ - from_ + 1).toNat 0 (m, from_, middle + 1)
      let m ← forLoop (copyBackTurn base tmp from_ elemSize) (to_ - from_ + 1).toNat 0 m
      m.free tmp

def doMyMergeSort {elemSize : Nat} : Nat → Mem → Ptr → Int → Int → CmpFn elemSize → Exec Mem
  | 0, _, _, _, _, _ => .error .outOfFuel
  | fuel + 1, m, base, from_, to_, cmpfn =>
    if from_ ≥ to_ then pure m
    else if to_ - from_ = 1 then do
      let c ← callCmp m cmpfn (← getElem base from_ elemSize) (← getElem base to_ elemSize)
      if c > 0 then swap m base from_ to_ elemSize else pure m
    else do
      let middle := from_ + (to_ - from_) / 2
      let m ← doMyMergeSort fuel m base from_ middle cmpfn
      let m ← doMyMergeSort fuel m base (middle + 1) to_ cmpfn
      doMerge m base from_ to_ cmpfn

def myMergeSort {elemSize : Nat} (fuel : Nat) (m : Mem) (base : Ptr) (size : Int) (cmpfn : CmpFn elemSize) :
    Exec Mem :=
  doMyMergeSort fuel m base 0 (size - 1) cmpfn

end MySort
end Cc
