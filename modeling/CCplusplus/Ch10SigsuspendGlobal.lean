import CCplusplus.Lib.Machine
import CCplusplus.Lib.Signals
/-!
# Ch10SigsuspendGlobal — `apue/ch10/ch10_sigsuspend_global.c`

An action is the next statement of `main`, which runs while no handler does, or of the innermost handler, the delivery of
a pending signal that is not blocked, or the sending of a signal, at any time.  Both signals are at their default action
where the program starts, under an inherited mask.
-/
namespace Cc
namespace Ch10SigsuspendGlobal

open CLib

inductive Sig where
  | sigint
  | sigquit
deriving DecidableEq, Repr

/-- The next statement of `sig_int`. -/
inductive HandlerPc where
  | body
  | ret
deriving DecidableEq, Repr

/-- How the program ends. -/
inductive Ending where
  | exit (status : Int)
  | errSys (msg : String)
  | killed (sig : Sig)
deriving DecidableEq, Repr

inductive Pc where
  | signalInt
  | signalQuit
  /-- `sigprocmask(SIG_BLOCK, &newmask, &oldmask)` -/
  | block
  /-- `quitflag == 0` -/
  | test
  | print
  | suspend
  /-- in `sigsuspend` -/
  | asleep
  /-- `quitflag = 0` -/
  | clear
  /-- `sigprocmask(SIG_SETMASK, &oldmask, NULL)` -/
  | restore
  | exit
  | ended (e : Ending)
deriving DecidableEq, Repr

structure State where
  pc : Pc
  signals : Signals Sig HandlerPc
  /-- the signals that `sig_int` is installed for -/
  caught : Sig → Bool
  oldmask : Sig → Bool
  quitflag : Int
  printed : List String

def init (mask : Sig → Bool) : State where
  pc := .signalInt
  signals := ⟨mask, fun _ => false, []⟩
  caught := fun _ => false
  oldmask := fun _ => false
  quitflag := 0
  printed := []

def zeromask : Sig → Bool := fun _ => false
def newmask : Sig → Bool := fun sig => decide (sig = .sigint)

inductive Act where
  /-- a statement of `main`, and whether the call in it succeeds -/
  | main (success : Bool)
  | handler
  | deliver (sig : Sig)
  | arrive (sig : Sig)
deriving DecidableEq, Repr

def mainStep (s : State) (success : Bool) : Option State :=
  match s.pc with
  | .signalInt =>
    if success then some { s with caught := fun x => decide (x = .sigint) || s.caught x, pc := .signalQuit }
    else some { s with pc := .ended (.errSys "signal(SIGINT) error") }
  | .signalQuit =>
    if success then some { s with caught := fun x => decide (x = .sigquit) || s.caught x, pc := .block }
    else some { s with pc := .ended (.errSys "signal(SIGQUIT) error") }
  | .block =>
    if success then
      some { s with
        oldmask := s.signals.mask
        signals := { s.signals with mask := fun x => newmask x || s.signals.mask x }
        pc := .test }
    else some { s with pc := .ended (.errSys "SIG_BLOCK error") }
  | .test => some { s with pc := if s.quitflag = 0 then .print else .clear }
  | .print => some { s with printed := s.printed ++ ["sigsuspend begini\n"], pc := .suspend }
  | .suspend => some { s with pc := .asleep }
  | .asleep => none
  | .clear => some { s with quitflag := 0, pc := .restore }
  | .restore =>
    if success then some { s with signals := { s.signals with mask := s.oldmask }, pc := .exit }
    else some { s with pc := .ended (.errSys "SIG_SETMASK error") }
  | .exit => some { s with pc := .ended (.exit 0) }
  | .ended _ => none

/-- `sig_int` -/
def handlerStep (s : State) : Option State :=
  match s.signals.frames with
  | [] => none
  | f :: _ =>
    match f.pc, f.sig with
    | .body, .sigint => some { s with printed := s.printed ++ ["\ninterrupt\n"], signals := s.signals.goOn .ret }
    | .body, .sigquit => some { s with quitflag := 1, signals := s.signals.goOn .ret }
    | .ret, _ => some { s with signals := s.signals.leave }

/-- The mask in force: that of `sigsuspend` while it sleeps. -/
def inForce (s : State) : Sig → Bool := if s.pc = .asleep then zeromask else s.signals.inForce

/-- The handler starts, and `sigsuspend` returns when it does; what is not caught ends the process. -/
def deliverStep (s : State) (sig : Sig) : Option State :=
  if s.signals.pending sig && !inForce s sig then
    if s.caught sig then
      some { s with
        signals := s.signals.deliver sig (inForce s) .body
        pc := if s.pc = .asleep then .test else s.pc }
    else some { s with pc := .ended (.killed sig) }
  else none

def alive : Pc → Bool
  | .ended _ => false
  | _ => true

def step (s : State) (a : Act) : Option State :=
  if alive s.pc then
    match a with
    | .main success => if s.signals.frames.isEmpty then mainStep s success else none
    | .handler => handlerStep s
    | .deliver sig => deliverStep s sig
    | .arrive sig => some { s with signals := s.signals.arrive sig }
  else none

end Ch10SigsuspendGlobal
end Cc
