import CCplusplus.Lib.Exec
import CCplusplus.Lib.Lines
import CCplusplus.Lib.Machine
/-!
# Ch15PipeAdd — `apue/ch15/ch15_pipe_add.c` and its co-process `ch15_add.c`

The two loops run against each other over the pipes `fd1` and `fd2`, from where both have started.  An action is the next
statement of one of the two; it says whether the system call in it fails.  A write goes into its pipe whole, and a read
takes what is there, up to `MAXLINE` bytes; it waits for an empty pipe whose writer has not ended.
-/
namespace Cc
namespace Ch15PipeAdd

open CLib

def MAXLINE : Nat := 4096

/-- The text of a buffer up to its NUL. -/
def cString (line : List UInt8) : List UInt8 := line.takeWhile (· != 0)

/-! ## `ch15_add` -/

/-- In the C locale. -/
def isspace (c : UInt8) : Bool := c == 32 || decide (9 ≤ c) && decide (c ≤ 13)

def isdigit (c : UInt8) : Bool := decide (48 ≤ c) && decide (c ≤ 57)

/-- `%d` of `sscanf`: the number and the rest of the string. -/
def scanInt (s : List UInt8) : Option (Int × List UInt8) :=
  let s := s.dropWhile isspace
  let (negative, s) :=
    match s with
    | 45 :: t => (true, t)
    | 43 :: t => (false, t)
    | _ => (false, s)
  let digits := s.takeWhile isdigit
  if digits = [] then none
  else
    let n : Nat := digits.foldl (fun n c => 10 * n + (c.toNat - 48)) 0
    some (if negative then -(n : Int) else n, s.dropWhile isdigit)

/-- `%d` of `sprintf` -/
def decimal (x : Int) : List UInt8 :=
  let digits := (Nat.toDigits 10 x.natAbs).map (fun c => UInt8.ofNat c.toNat)
  if x < 0 then 45 :: digits else digits

/-- `"invalid args\n"` -/
def invalidArgs : List UInt8 := [105, 110, 118, 97, 108, 105, 100, 32, 97, 114, 103, 115, 10]

/-- What `ch15_add` writes for what it read.  C leaves undefined what `%d` stores of a number that is no `int`, and the
sum of two `int`s that is none. -/
def add (line : List UInt8) : Exec (List UInt8) :=
  match scanInt (cString line) with
  | none => .ok invalidArgs
  | some (int1, rest) =>
    if isInt int1 then
      match scanInt rest with
      | none => .ok invalidArgs
      | some (int2, _) =>
        if isInt int2 && isInt (int1 + int2) then .ok (decimal (int1 + int2) ++ [10]) else .error .overflow
    else .error .overflow

/-! ## The two processes -/

/-- How a process ends. -/
inductive Ending where
  /-- at the end of its input -/
  | eof
  /-- `"child closed pipe"` -/
  | childClosed
  | errSys (msg : String)
  | sigpipe
  | fault (f : Fault)
deriving DecidableEq, Repr

inductive ParentPc where
  | fgets
  | write (line : List UInt8)
  | read
  | fputs (line : List UInt8)
  | ended (e : Ending)
deriving DecidableEq, Repr

inductive ChildPc where
  | read
  | write (line : List UInt8)
  | ended (e : Ending)
deriving DecidableEq, Repr

structure State where
  stdin : List UInt8
  parent : ParentPc
  child : ChildPc
  fd1 : List UInt8
  fd2 : List UInt8
  /-- the texts given to `fputs` -/
  printed : List (List UInt8)
deriving DecidableEq, Repr

inductive Action where
  | parent (fails : Bool)
  | child (fails : Bool)
deriving DecidableEq, Repr

def ParentPc.hasEnded : ParentPc → Bool
  | .ended _ => true
  | _ => false

def ChildPc.hasEnded : ChildPc → Bool
  | .ended _ => true
  | _ => false

def State.parentEnds (s : State) (e : Ending) : Option State := some { s with parent := .ended e }

def State.childEnds (s : State) (e : Ending) : Option State := some { s with child := .ended e }

def parentStep (s : State) (fails : Bool) : Option State :=
  match s.parent with
  | .fgets =>
    if fails then s.parentEnds (.errSys "fgets error no stdin")
    else if s.stdin = [] then s.parentEnds .eof
    else
      let (line, rest) := fgets 10 (MAXLINE - 1) s.stdin
      some { s with stdin := rest, parent := .write line }
  | .write line =>
    if fails then s.parentEnds (.errSys "write error to pipe")
    -- a write of no bytes raises no signal
    else if cString line ≠ [] ∧ s.child.hasEnded then s.parentEnds .sigpipe
    else some { s with fd1 := s.fd1 ++ cString line, parent := .read }
  | .read =>
    if fails then s.parentEnds (.errSys "read error from pipe")
    else if s.fd2 = [] then if s.child.hasEnded then s.parentEnds .childClosed else none
    -- `line[n] = 0`
    else if (s.fd2.take MAXLINE).length = MAXLINE then s.parentEnds (.fault .outOfBounds)
    else some { s with fd2 := s.fd2.drop MAXLINE, parent := .fputs (s.fd2.take MAXLINE) }
  | .fputs line =>
    if fails then s.parentEnds (.errSys "fputs error")
    else some { s with printed := s.printed ++ [cString line], parent := .fgets }
  | .ended _ => none

def childStep (s : State) (fails : Bool) : Option State :=
  match s.child with
  | .read =>
    if fails then s.childEnds .eof
    else if s.fd1 = [] then if s.parent.hasEnded then s.childEnds .eof else none
    else if (s.fd1.take MAXLINE).length = MAXLINE then s.childEnds (.fault .outOfBounds)
    else
      match add (s.fd1.take MAXLINE) with
      | .ok line => some { s with fd1 := s.fd1.drop MAXLINE, child := .write line }
      | .error f => s.childEnds (.fault f)
  | .write line =>
    if fails then s.childEnds (.errSys "write error")
    else if s.parent.hasEnded then s.childEnds .sigpipe
    else some { s with fd2 := s.fd2 ++ line, child := .read }
  | .ended _ => none

def step (s : State) : Action → Option State
  | .parent fails => parentStep s fails
  | .child fails => childStep s fails

def start (stdin : List UInt8) : State := ⟨stdin, .fgets, .read, [], [], []⟩

/-! ## What the program is for -/

/-- The sum of the first two integers of a line, or that they are missing. -/
def answer (line : List UInt8) : List UInt8 :=
  match scanInt (cString line) with
  | none => invalidArgs
  | some (x, rest) =>
    match scanInt rest with
    | none => invalidArgs
    | some (y, _) => decimal (x + y) ++ [10]

/-- The integers that are read of a line, and their sum, are `int`s. -/
def fits (line : List UInt8) : Bool :=
  match scanInt (cString line) with
  | none => true
  | some (x, rest) =>
    isInt x &&
      match scanInt rest with
      | none => true
      | some (y, _) => isInt y && isInt (x + y)

/-- Both processes wait for the other. -/
def Deadlocked (s : State) : Prop := s.parent = .read ∧ s.fd2 = [] ∧ s.child = .read ∧ s.fd1 = []

/-- The texts printed are the answers to the first lines, and to all lines at the end of the input. -/
structure InStep (lines : List (List UInt8)) (s : State) : Prop where
  texts : ∃ rest, lines.map answer = s.printed ++ rest
  whole : s.parent = .ended .eof → s.printed = lines.map answer
  free : ¬ Deadlocked s
  defined : (∀ f, s.parent ≠ .ended (.fault f)) ∧ ∀ f, s.child ≠ .ended (.fault f)

example : add [49, 32, 50, 10] = .ok [51, 10] := by decide
example : add [49, 50, 10] = .ok invalidArgs := by decide

end Ch15PipeAdd
end Cc
