import CCplusplus.Lib.Machine
import Mathlib.Logic.Function.Basic
/-!
# Ch14Async — `apue/ch14/ch14_async.c` and the kernel's asynchronous I/O

Eight buffers go round between unused, a read pending and a write pending, while `main` scans them.  An action is the
next part of `main` (a turn of the `switch`, the test after it, the return from `aio_suspend`) or the completion of a
pending operation, in any order; it carries what fails and how much was transferred.  The files are open and `fstat` has
succeeded where the model starts.
-/
namespace Cc
namespace Ch14Async

open CLib

def BSZ : Nat := 4096
def NBUF : Nat := 8

/-- In the C locale. -/
def isalpha (c : UInt8) : Bool :=
  decide (0x41 ≤ c) && decide (c ≤ 0x5A) || decide (0x61 ≤ c) && decide (c ≤ 0x7A)

/-- `translate`; the letter `n`, `0x6E`, is not above itself. -/
def translate (c : UInt8) : UInt8 :=
  if isalpha c then
    if c > 0x6E then c - 13
    else if c ≥ 0x61 then c + 13
    else if c ≥ 0x4E then c - 13
    else c + 13
  else c

/-- `enum rwop` -/
inductive Rwop where
  | unused
  | readPending
  | writePending
deriving DecidableEq, Repr

inductive Fd where
  | ifd
  | ofd
deriving DecidableEq, Repr

/-- The last operation on a control block: pending, or what `aio_error` and `aio_return` say of it. -/
inductive Io where
  | idle
  | reading
  | writing
  | done (err ret : Int)
deriving DecidableEq, Repr

/-- `struct buf` with the kernel's operation on its control block. -/
structure Buf where
  op : Rwop
  last : Bool
  aioFildes : Fd
  aioOffset : Nat
  aioNbytes : Nat
  data : Nat → UInt8
  io : Io

/-- How the program ends. -/
inductive Ending where
  | exit (status : Int)
  | errSys (msg : String)
  | errExit (err : Int) (msg : String)
  | errQuit (msg : String) (n : Int)
deriving DecidableEq, Repr

inductive Pc where
  /-- the `switch` on buffer `i` -/
  | scan (i : Nat)
  /-- the test of `numop` after it -/
  | test (i : Nat)
  /-- in `aio_suspend` -/
  | suspend (i : Nat)
  | fsync
  | ended (e : Ending)
deriving DecidableEq, Repr

/-- A write that the kernel has carried out. -/
structure Written where
  offset : Nat
  count : Nat
  data : Nat → UInt8

structure State where
  pc : Pc
  bufs : Nat → Buf
  /-- `some i` for `&bufs[i].aiocb` -/
  aiolist : Nat → Option Nat
  numop : Int
  n : Int
  off : Nat
  written : List Written
  /-- the offsets of the blocks whose reads `main` has reaped, the last one first -/
  reaped : List Nat

/-- The input file. -/
structure Input where
  size : Nat
  byte : Nat → UInt8

/-- The start of the scan; `n` is not initialised. -/
def init (n : Int) : State where
  pc := .scan 0
  bufs := fun _ => ⟨.unused, false, .ifd, 0, 0, fun _ => 0, .idle⟩
  aiolist := fun _ => none
  numop := 0
  n := n
  off := 0
  written := []
  reaped := []

/-- Which of the system calls succeed. -/
structure Calls where
  aioRead : Bool
  aioError : Bool
  aioReturn : Bool
  aioWrite : Bool
  aioSuspend : Bool
  aioFsync : Bool
deriving DecidableEq, Repr

def Calls.all : Calls := ⟨true, true, true, true, true, true⟩

inductive Act where
  | main (calls : Calls)
  /-- the operation pending on buffer `i` ends, with an error or with `count` bytes transferred -/
  | complete (i : Nat) (err : Int) (count : Nat)

/-- `i++`, and the scan again from the start after the last buffer. -/
def next (i : Nat) : Pc := if i + 1 < NBUF then .scan (i + 1) else .scan 0

def ending (s : State) (e : Ending) : State := { s with pc := .ended e }

/-- `case UNUSED` -/
def scanUnused (inp : Input) (s : State) (i : Nat) (calls : Calls) : State :=
  if s.off < inp.size then
    let b := s.bufs i
    let off := s.off + BSZ
    let b := { b with
      op := .readPending
      aioFildes := .ifd
      aioOffset := s.off
      last := if off ≥ inp.size then true else b.last
      aioNbytes := BSZ }
    if calls.aioRead then
      { s with
        bufs := Function.update s.bufs i { b with io := .reading }
        off := off
        aiolist := Function.update s.aiolist i (some i)
        numop := s.numop + 1
        pc := .test i }
    else ending { s with bufs := Function.update s.bufs i b, off := off } (.errSys "aio_read failed")
  else { s with pc := .test i }

/-- `case READ_PENDING` -/
def scanRead (s : State) (i : Nat) (calls : Calls) : State :=
  let b := s.bufs i
  if calls.aioError then
    match b.io with
    | .done err ret =>
      if err ≠ 0 then ending s (.errExit err "read failed")
      else if calls.aioReturn = false ∨ ret < 0 then ending s (.errSys "aio_return failed")
      else
        let n := ret
        let s := { s with n := n, reaped := b.aioOffset :: s.reaped }
        if n ≠ BSZ ∧ b.last = false then ending s (.errQuit "short read" n)
        else
          let b := { b with
            data := fun j => if (j : Int) < n then translate (b.data j) else b.data j
            op := .writePending
            aioFildes := .ofd
            aioNbytes := n.toNat }
          if calls.aioWrite then
            { s with bufs := Function.update s.bufs i { b with io := .writing }, pc := .test i }
          else ending { s with bufs := Function.update s.bufs i b } (.errSys "aio_write failed")
    | _ => { s with pc := next i }
  else ending s (.errSys "aio_error failed")

/-- `case WRITE_PENDING`; the count compared is that of the read reaped last. -/
def scanWrite (s : State) (i : Nat) (calls : Calls) : State :=
  let b := s.bufs i
  if calls.aioError then
    match b.io with
    | .done err _ =>
      if err ≠ 0 then ending s (.errExit err "write failed")
      else if s.n ≠ b.aioNbytes then ending s (.errQuit "short write" s.n)
      else
        { s with
          aiolist := Function.update s.aiolist i none
          bufs := Function.update s.bufs i { b with op := .unused }
          numop := s.numop - 1
          pc := .test i }
    | _ => { s with pc := next i }
  else ending s (.errSys "aio_error failed")

/-- Some operation on the list has ended. -/
def someDone (s : State) : Bool :=
  (List.range NBUF).any (fun j =>
    match s.aiolist j, (s.bufs j).io with
    | some _, .done _ _ => true
    | _, _ => false)

def mainStep (inp : Input) (s : State) (calls : Calls) : Option State :=
  match s.pc with
  | .scan i =>
    match (s.bufs i).op with
    | .unused => some (scanUnused inp s i calls)
    | .readPending => some (scanRead s i calls)
    | .writePending => some (scanWrite s i calls)
  | .test i =>
    if s.numop = 0 then
      -- the `break` leaves the inner loop, and the outer one starts the scan again
      if s.off ≥ inp.size then some { s with pc := .scan 0 } else some { s with pc := next i }
    else some { s with pc := .suspend i }
  | .suspend i =>
    if calls.aioSuspend then
      if someDone s then some { s with pc := next i } else none
    else some (ending s (.errSys "aio_suspend failed"))
  | .fsync =>
    if calls.aioFsync then some (ending s (.exit 0)) else some (ending s (.errSys "aio_fsync failed"))
  | .ended _ => none

/-- The bytes of the input from an offset on that a block can hold. -/
def blockLen (inp : Input) (offset : Nat) : Nat := min BSZ (inp.size - offset)

def completeStep (inp : Input) (s : State) (i : Nat) (err : Int) (count : Nat) : Option State :=
  let b := s.bufs i
  match b.io with
  | .reading =>
    if err ≠ 0 then some { s with bufs := Function.update s.bufs i { b with io := .done err (-1) } }
    else if count ≤ min b.aioNbytes (inp.size - b.aioOffset) then
      some { s with
        bufs := Function.update s.bufs i { b with
          io := .done 0 count
          data := fun k => if k < count then inp.byte (b.aioOffset + k) else b.data k } }
    else none
  | .writing =>
    if err ≠ 0 then some { s with bufs := Function.update s.bufs i { b with io := .done err (-1) } }
    else if count ≤ b.aioNbytes then
      some { s with
        bufs := Function.update s.bufs i { b with io := .done 0 count }
        written := s.written ++ [⟨b.aioOffset, count, b.data⟩] }
    else none
  | _ => none

def step (inp : Input) (s : State) : Act → Option State
  | .main calls => mainStep inp s calls
  | .complete i err count => if i < NBUF then completeStep inp s i err count else none

/-- Every call succeeds, and every operation ends without an error and in full. -/
def inFull (inp : Input) (s : State) : Act → Bool
  | .main calls => calls == .all
  | .complete i err count =>
    err == 0 &&
    match (s.bufs i).io with
    | .reading => count == min (s.bufs i).aioNbytes (inp.size - (s.bufs i).aioOffset)
    | _ => count == (s.bufs i).aioNbytes

end Ch14Async
end Cc
