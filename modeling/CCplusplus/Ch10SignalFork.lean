import CCplusplus.Lib.Machine
import CCplusplus.Lib.Signals
/-!
# Ch10SignalFork — `apue/ch10/ch10_signal_fork.c`, parent and child

An action is the next statement of the parent, while no handler of it runs, or of its innermost handler, the next
statement of the child, or the delivery of a signal that is pending for the parent and not blocked.  Nobody else sends
signals, and the child gets none.  Both signals are at their default action where the program starts, under an inherited
mask.
-/
namespace Cc
namespace Ch10SignalFork

open CLib

inductive Sig where
  | sigusr1
  | sigusr2
deriving DecidableEq, Repr

/-- The next statement of `sig_usr`. -/
inductive HandlerPc where
  /-- `sigflag = 1` -/
  | body
  | ret
deriving DecidableEq, Repr

/-- How the parent ends. -/
inductive Ending where
  | exit (status : Int)
  | errSys (msg : String)
  | killed (sig : Sig)
deriving DecidableEq, Repr

inductive ParentPc where
  | fork
  /-- `TELL_WAIT`, its three calls -/
  | signalUsr1
  | signalUsr2
  | block
  | running
  /-- `WAIT_CHILD`: `sigflag == 0` -/
  | test
  | suspend
  /-- in `sigsuspend` -/
  | asleep
  /-- `sigflag = 0` -/
  | clear
  | restore
  | done
  | exit
  | ended (e : Ending)
deriving DecidableEq, Repr

inductive ChildPc where
  | unborn
  | running
  | sleep
  | done
  /-- `TELL_PARENT` -/
  | tell
  | exit
  | ended
deriving DecidableEq, Repr

/-- The two processes; the signals, what is caught, the masks and the flag are the parent's. -/
structure State where
  parent : ParentPc
  child : ChildPc
  signals : Signals Sig HandlerPc
  /-- the signals that `sig_usr` is installed for -/
  caught : Sig → Bool
  oldmask : Sig → Bool
  sigflag : Int
  printed : List String

def init (mask : Sig → Bool) : State where
  parent := .fork
  child := .unborn
  signals := ⟨mask, fun _ => false, []⟩
  caught := fun _ => false
  oldmask := fun _ => false
  sigflag := 0
  printed := []

def zeromask : Sig → Bool := fun _ => false
def newmask : Sig → Bool := fun sig => decide (sig = .sigusr1) || decide (sig = .sigusr2)

inductive Act where
  /-- a statement of the parent, and whether the call in it succeeds -/
  | parent (success : Bool)
  | handler
  | child
  | deliver (sig : Sig)
deriving DecidableEq, Repr

def parentStep (s : State) (success : Bool) : Option State :=
  match s.parent with
  | .fork =>
    if success then some { s with child := .running, parent := .signalUsr1 }
    else some { s with parent := .ended (.errSys "fork error") }
  | .signalUsr1 =>
    if success then some { s with caught := fun x => decide (x = .sigusr1) || s.caught x, parent := .signalUsr2 }
    else some { s with parent := .ended (.errSys "signal(SIGUSR1) error") }
  | .signalUsr2 =>
    if success then some { s with caught := fun x => decide (x = .sigusr2) || s.caught x, parent := .block }
    else some { s with parent := .ended (.errSys "signal(SIGUSR2) error") }
  | .block =>
    if success then
      some { s with
        oldmask := s.signals.mask
        signals := { s.signals with mask := fun x => newmask x || s.signals.mask x }
        parent := .running }
    else some { s with parent := .ended (.errSys "SIG_BLOCK error") }
  | .running => some { s with printed := s.printed ++ ["parent running\n"], parent := .test }
  | .test => some { s with parent := if s.sigflag = 0 then .suspend else .clear }
  | .suspend => some { s with parent := .asleep }
  | .asleep => none
  | .clear => some { s with sigflag := 0, parent := .restore }
  | .restore =>
    if success then some { s with signals := { s.signals with mask := s.oldmask }, parent := .done }
    else some { s with parent := .ended (.errSys "SIG_SETMASK error") }
  | .done => some { s with printed := s.printed ++ ["parent done\n"], parent := .exit }
  | .exit => some { s with parent := .ended (.exit 0) }
  | .ended _ => none

/-- `sig_usr` -/
def handlerStep (s : State) : Option State :=
  match s.signals.frames with
  | [] => none
  | f :: _ =>
    match f.pc with
    | .body => some { s with sigflag := 1, signals := s.signals.goOn .ret }
    | .ret => some { s with signals := s.signals.leave }

def alive : ParentPc → Bool
  | .ended _ => false
  | _ => true

/-- A parent that has ended gets no signal. -/
def childStep (s : State) : Option State :=
  match s.child with
  | .unborn => none
  | .running => some { s with printed := s.printed ++ ["child running\n"], child := .sleep }
  | .sleep => some { s with child := .done }
  | .done => some { s with printed := s.printed ++ ["child done\n"], child := .tell }
  | .tell =>
    some { s with signals := if alive s.parent then s.signals.arrive .sigusr2 else s.signals, child := .exit }
  | .exit => some { s with child := .ended }
  | .ended => none

/-- The mask in force: that of `sigsuspend` while it sleeps. -/
def inForce (s : State) : Sig → Bool := if s.parent = .asleep then zeromask else s.signals.inForce

/-- The handler starts, and `sigsuspend` returns when it does; what is not caught ends the parent. -/
def deliverStep (s : State) (sig : Sig) : Option State :=
  if s.signals.pending sig && !inForce s sig then
    if s.caught sig then
      some { s with
        signals := s.signals.deliver sig (inForce s) .body
        parent := if s.parent = .asleep then .test else s.parent }
    else some { s with parent := .ended (.killed sig) }
  else none

def step (s : State) : Act → Option State
  | .parent success => if s.signals.frames.isEmpty then parentStep s success else none
  | .handler => if alive s.parent then handlerStep s else none
  | .child => childStep s
  | .deliver sig => if alive s.parent then deliverStep s sig else none

end Ch10SignalFork
end Cc
