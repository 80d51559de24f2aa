import CCplusplus.Lib.Machine
/-!
# Ch12PthreadSignal — the flag that `ch12_pthread_signal` waits for

`main` blocks SIGINT and SIGQUIT, starts `thr_fn`, and waits on `waitloc` until `quitflag` is set; `thr_fn` takes the
signals with `sigwait`.  An action is the next statement of one of the two, a signal that is sent to the process or that
reaches it, or a return of `pthread_cond_wait` that nobody caused.
-/
namespace Cc
namespace Ch12PthreadSignal

open CLib

def SIGINT : Nat := 2
def SIGQUIT : Nat := 3

inductive MainPc where
  | sigemptyset
  | addInt
  | addQuit
  | block
  | create
  | lock
  /-- the mutex is held, and `quitflag` is to be tested -/
  | test
  | wait
  /-- in `pthread_cond_wait`, without the mutex -/
  | asleep
  /-- in `pthread_cond_wait`, woken, to take the mutex again -/
  | woken
  | unlock
  | clear
  | restore
  | exit
deriving DecidableEq, Repr

inductive ThrPc where
  /-- not created -/
  | absent
  | sigwait
  | switch (signo : Nat)
  | lock
  | set
  | unlock
  | signal
  | returned
deriving DecidableEq, Repr

inductive Thread where
  | main
  | thr
deriving DecidableEq, Repr

/-- How the process ends. -/
inductive End where
  | exit (status : Int)
  | errExit (err : Int) (msg : String)
  | errSys (msg : String)
  | killed (signo : Nat)
deriving DecidableEq, Repr

structure State where
  main : MainPc
  thr : ThrPc
  quitflag : Int
  mask : List Nat
  oldmask : List Nat
  /-- the mutex `lock`, by whom it is held -/
  lock : Option Thread
  /-- what the threads block -/
  blocked : List Nat
  thrBlocked : List Nat
  pending : List Nat
  /-- what `sigwait` has given to `thr_fn` -/
  received : List Nat
  out : List String
  ended : Option End
deriving DecidableEq, Repr

inductive Act where
  /-- a signal is sent to the process -/
  | raise (signo : Nat)
  /-- a signal whose default action is to terminate reaches a thread that does not block it -/
  | deliver (signo : Nat)
  /-- `pthread_cond_wait` returns without a cause -/
  | spurious
  | main (ret : Int)
  | thr (err : Int) (signo : Nat)
deriving DecidableEq, Repr

/-- The next statement of `main`, with what its call returns. -/
def mainStep (s : State) (ret : Int) : Option State :=
  match s.main with
  | .sigemptyset => some { s with main := .addInt, mask := [] }
  | .addInt => some { s with main := .addQuit, mask := SIGINT :: s.mask }
  | .addQuit => some { s with main := .block, mask := SIGQUIT :: s.mask }
  | .block =>
    if ret ≠ 0 then some { s with ended := some (.errExit ret "SIG_BLOCK error") }
    else some { s with main := .create, oldmask := s.blocked, blocked := s.mask ++ s.blocked }
  | .create =>
    if ret ≠ 0 then some { s with ended := some (.errExit ret "can't create thread") }
    else some { s with main := .lock, thr := .sigwait, thrBlocked := s.blocked }
  | .lock | .woken => if s.lock.isSome then none else some { s with main := .test, lock := some .main }
  | .test => some { s with main := if s.quitflag = 0 then .wait else .unlock }
  | .wait => some { s with main := .asleep, lock := none }
  | .asleep => none
  | .unlock => some { s with main := .clear, lock := none }
  | .clear => some { s with main := .restore, quitflag := 0 }
  | .restore =>
    if ret < 0 then some { s with ended := some (.errSys "SIG_SETMASK error") }
    else some { s with main := .exit, blocked := s.oldmask }
  | .exit => some { s with ended := some (.exit 0) }

/-- The next statement of `thr_fn`, with the error and the signal that `sigwait` gives. -/
def thrStep (s : State) (err : Int) (signo : Nat) : Option State :=
  match s.thr with
  | .absent | .returned => none
  | .sigwait =>
    if err ≠ 0 then some { s with ended := some (.errExit err "sigwait failed") }
    else if signo ∈ s.mask ∧ signo ∈ s.pending then
      some { s with
        thr := .switch signo
        pending := s.pending.filter (· ≠ signo)
        received := s.received ++ [signo] }
    else none
  | .switch signo =>
    if signo = SIGINT then some { s with thr := .sigwait, out := s.out ++ ["\ninterrupt\n"] }
    else if signo = SIGQUIT then some { s with thr := .lock }
    else some { s with
      out := s.out ++ ["unexpected signal " ++ toString signo ++ "\n"]
      ended := some (.exit 1) }
  | .lock => if s.lock.isSome then none else some { s with thr := .set, lock := some .thr }
  | .set => some { s with thr := .unlock, quitflag := 1 }
  | .unlock => some { s with thr := .signal, lock := none }
  | .signal => some { s with thr := .returned, main := if s.main = .asleep then .woken else s.main }

/-- Some thread that has not returned does not block the signal. -/
def State.open (s : State) (signo : Nat) : Bool :=
  !s.blocked.contains signo || (decide (s.thr ≠ .absent) && decide (s.thr ≠ .returned) && !s.thrBlocked.contains signo)

def step (s : State) (a : Act) : Option State :=
  if s.ended.isSome then none
  else
    match a with
    | .raise signo => some { s with pending := if signo ∈ s.pending then s.pending else signo :: s.pending }
    | .deliver signo =>
      if signo ∈ s.pending ∧ s.open signo then some { s with ended := some (.killed signo) } else none
    | .spurious => if s.main = .asleep then some { s with main := .woken } else none
    | .main ret => mainStep s ret
    | .thr err signo => thrStep s err signo

/-- The program is started with some signals blocked, and some of them pending. -/
def init (blocked pending : List Nat) : State :=
  ⟨.sigemptyset, .absent, 0, [], [], none, blocked, [], pending, [], [], none⟩

end Ch12PthreadSignal
end Cc
