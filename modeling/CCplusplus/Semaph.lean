import CCplusplus.Lib.Machine
import CCplusplus.Lib.SysV
/-!
# Semaph — the semaphores of `apue/lib/semaph.c` among processes

A semaphore is a set of three: its value, the counter of the processes that have it open, and the lock of `sem_create`
and `sem_close`.  An action is a call of one of the seven functions, the next system call of a process that is in one, or
the end of a process, at any point; what the process did with `SEM_UNDO` is then undone.  A set that is removed and made
again has another identifier.  A process that waits in `semop` goes on when its operations can be done, or when the set
is removed.
-/
namespace Cc
namespace Semaph

open CLib

def IPC_PRIVATE : Int := 0
def BIGCOUNT : Nat := 10000

def opLock : List (Sembuf (Fin 3)) := [⟨2, 0, false⟩, ⟨2, 1, true⟩]
def opEndcreate : List (Sembuf (Fin 3)) := [⟨1, -1, true⟩, ⟨2, -1, true⟩]
def opOpen : List (Sembuf (Fin 3)) := [⟨1, -1, true⟩]
def opClose : List (Sembuf (Fin 3)) := [⟨2, 0, false⟩, ⟨2, 1, true⟩, ⟨1, 1, true⟩]
def opUnlock : List (Sembuf (Fin 3)) := [⟨2, -1, true⟩]
def opOp (value : Int) : List (Sembuf (Fin 3)) := [⟨0, value, true⟩]

inductive Ending where
  | exited
  | errSys (msg : String)
  | errDump (msg : String)
deriving DecidableEq, Repr

inductive Pc where
  /-- in no call; the last one returned `ret` -/
  | idle (ret : Int)
  | createGet (key initval : Int)
  | createLock (key initval : Int) (id : Nat)
  /-- in `semop(id, &op_lock[0], 2)` -/
  | createAsleep (key initval : Int) (id : Nat)
  | createGetval (initval : Int) (id : Nat)
  | createSet0 (initval : Int) (id : Nat)
  | createSet1 (id : Nat)
  | createEnd (id : Nat)
  | openGet (key : Int)
  | openOp (id : Nat)
  | rm (id : Nat)
  | closeOp (id : Nat)
  | closeGetval (id : Nat)
  | closeRm (id : Nat)
  | closeUnlock (id : Nat)
  /-- in `semop(id, &op_op[0], 1)` -/
  | op (id : Nat) (value : Int)
  | ended (e : Ending)
deriving DecidableEq, Repr

inductive Call where
  | create (key initval : Int)
  | open (key : Int)
  | rm (id : Nat)
  | close (id : Nat)
  | op (id : Nat) (value : Int)
deriving DecidableEq, Repr

def Call.wait (id : Nat) : Call := .op id (-1)
def Call.signal (id : Nat) : Call := .op id 1

structure State (P : Type) where
  pc : P → Pc
  /-- the set that a key names -/
  keys : Int → Option Nat
  set : Nat → Option (SemSet P (Fin 3))
  /-- no set has had this identifier or a later one -/
  next : Nat
  /-- how often a process has created or opened a semaphore and not closed it -/
  refs : P → Nat → Nat
  /-- what a process has taken from a semaphore and not given back -/
  taken : P → Nat → Int
  /-- the value that a semaphore was set to -/
  initial : Nat → Nat

inductive Act (P : Type) where
  | call (p : P) (c : Call)
  /-- a system call, and whether it is made without a failure of its own -/
  | go (p : P) (success : Bool)
  | exit (p : P)

variable {P : Type}

def init : State P where
  pc := fun _ => .idle 0
  keys := fun _ => none
  set := fun _ => none
  next := 0
  refs := fun _ _ => 0
  taken := fun _ _ => 0
  initial := fun _ => 0

variable [DecidableEq P]

namespace State

def goto (s : State P) (p : P) (pc : Pc) : State P := { s with pc := Function.update s.pc p pc }

def put (s : State P) (id : Nat) (S : SemSet P (Fin 3)) : State P := { s with set := Function.update s.set id (some S) }

def addRef (s : State P) (p : P) (id n : Nat) : State P :=
  { s with refs := Function.update s.refs p (Function.update (s.refs p) id n) }

@[simp] theorem goto_pc (s : State P) (p : P) (pc : Pc) : (s.goto p pc).pc = Function.update s.pc p pc := rfl
@[simp] theorem goto_set (s : State P) (p : P) (pc : Pc) : (s.goto p pc).set = s.set := rfl
@[simp] theorem goto_refs (s : State P) (p : P) (pc : Pc) : (s.goto p pc).refs = s.refs := rfl

/-- A process ends. -/
def ends (s : State P) (p : P) (e : Ending) : State P :=
  { s.goto p (.ended e) with
    set := fun id => (s.set id).map (fun S => S.undo p)
    refs := Function.update s.refs p (fun _ => 0)
    taken := Function.update s.taken p (fun _ => 0) }

@[simp] theorem ends_pc (s : State P) (p : P) (e : Ending) : (s.ends p e).pc = Function.update s.pc p (.ended e) := rfl
@[simp] theorem ends_set (s : State P) (p : P) (e : Ending) (id : Nat) :
    (s.ends p e).set id = (s.set id).map (fun S => S.undo p) := rfl
@[simp] theorem ends_refs (s : State P) (p : P) (e : Ending) :
    (s.ends p e).refs = Function.update s.refs p (fun _ => 0) := rfl

@[simp] theorem ends_taken (s : State P) (p : P) (e : Ending) :
    (s.ends p e).taken = Function.update s.taken p (fun _ => 0) := rfl

/-- `semget(key, 3, 0666 | IPC_CREAT)` where there is no set. -/
def create (s : State P) (key : Int) : State P :=
  { s with
    keys := Function.update s.keys key (some s.next)
    set := Function.update s.set s.next (some .zero)
    next := s.next + 1 }

/-- `semctl(id, 0, IPC_RMID, 0)` -/
def remove (s : State P) (id : Nat) : State P :=
  { s with
    keys := fun key => if s.keys key = some id then none else s.keys key
    set := Function.update s.set id none }

omit [DecidableEq P] in
@[simp] theorem create_set (s : State P) (key : Int) :
    (s.create key).set = Function.update s.set s.next (some .zero) := rfl
omit [DecidableEq P] in
@[simp] theorem remove_set (s : State P) (id : Nat) : (s.remove id).set = Function.update s.set id none := rfl

/-- `semop`, where the errors are not told apart. -/
def semop (s : State P) (p : P) (id : Nat) (ops : List (Sembuf (Fin 3))) (msg : String) (after : State P → State P) :
    Option (State P) :=
  match s.set id with
  | none => some (s.ends p (.errSys msg))
  | some S =>
    match S.semop p ops with
    | .error .waits => none
    | .error .range => some (s.ends p (.errSys msg))
    | .ok S' => some (after (s.put id S'))

/-- A call of `semctl` on a set that must be there. -/
def semctl (s : State P) (p : P) (id : Nat) (msg : String) (after : SemSet P (Fin 3) → State P) : Option (State P) :=
  match s.set id with
  | none => some (s.ends p (.errSys msg))
  | some S => some (after S)

/-- What `semop` comes to. -/
theorem semop_cases {s s' : State P} {p : P} {id : Nat} {ops : List (Sembuf (Fin 3))} {msg : String}
    {after : State P → State P} (h : s.semop p id ops msg after = some s') :
    s' = s.ends p (.errSys msg) ∧ (s.set id = none ∨ ∃ S, s.set id = some S ∧ S.semop p ops = .error .range) ∨
    ∃ S S', s.set id = some S ∧ S.semop p ops = .ok S' ∧ s' = after (s.put id S') := by
  unfold semop at h
  split at h
  · rename_i hnone
    exact .inl ⟨(Option.some.inj h).symm, .inl hnone⟩
  · rename_i S hS
    split at h
    · cases h
    · rename_i hrange
      exact .inl ⟨(Option.some.inj h).symm, .inr ⟨S, hS, hrange⟩⟩
    · rename_i S' hS'
      exact .inr ⟨S, S', hS, hS', (Option.some.inj h).symm⟩

theorem semctl_cases {s s' : State P} {p : P} {id : Nat} {msg : String} {after : SemSet P (Fin 3) → State P}
    (h : s.semctl p id msg after = some s') :
    s' = s.ends p (.errSys msg) ∧ s.set id = none ∨ ∃ S, s.set id = some S ∧ s' = after S := by
  unfold semctl at h
  split at h
  · rename_i hnone
    exact .inl ⟨(Option.some.inj h).symm, hnone⟩
  · rename_i S hS
    exact .inr ⟨S, hS, (Option.some.inj h).symm⟩

end State

def callStep (s : State P) (p : P) (c : Call) : Option (State P) :=
  match s.pc p with
  | .idle _ =>
    match c with
    | .create key initval =>
      some (s.goto p (if key = IPC_PRIVATE ∨ key = -1 then .idle (-1) else .createGet key initval))
    | .open key => some (s.goto p (if key = IPC_PRIVATE ∨ key = -1 then .idle (-1) else .openGet key))
    | .rm id => some (s.goto p (.rm id))
    | .close id => some (s.goto p (.closeOp id))
    | .op id value =>
      -- `sem_op` of `struct sembuf` is a `short`
      let op := value.bmod 65536
      if op = 0 then some (s.ends p (.errSys "can't have value == 0")) else some (s.goto p (.op id op))
  | _ => none

/-- The next system call, where it has no failure of its own. -/
def goStep (s : State P) (p : P) : Option (State P) :=
  match s.pc p with
  | .idle _ => none
  | .createGet key initval =>
    match s.keys key with
    | some id => some (s.goto p (.createLock key initval id))
    | none => some ((s.create key).goto p (.createLock key initval s.next))
  | .createLock key initval id =>
    match s.set id with
    -- `EINVAL`
    | none => some (s.goto p (.createGet key initval))
    | some S =>
      match S.semop p opLock with
      | .error .waits => some (s.goto p (.createAsleep key initval id))
      | .error .range => some (s.ends p (.errSys "can't lock"))
      | .ok S' => some ((s.put id S').goto p (.createGetval initval id))
  -- a set that is removed is `EIDRM` to those that wait
  | .createAsleep _ initval id => s.semop p id opLock "can't lock" (fun s => s.goto p (.createGetval initval id))
  | .createGetval initval id =>
    s.semctl p id "can't GETVAL" (fun S => s.goto p (if S.val 1 = 0 then .createSet0 initval id else .createEnd id))
  | .createSet0 initval id =>
    -- `ERANGE`
    if initval < 0 ∨ SemSet.SEMVMX < initval then some (s.ends p (.errSys "can SETVAL[0]"))
    else s.semctl p id "can SETVAL[0]" (fun S =>
      { (s.put id (S.setval 0 initval.toNat)).goto p (.createSet1 id) with
        initial := Function.update s.initial id initval.toNat })
  | .createSet1 id => s.semctl p id "can SETVAL[1]" (fun S => (s.put id (S.setval 1 BIGCOUNT)).goto p (.createEnd id))
  | .createEnd id => s.semop p id opEndcreate "can't end create" (fun s' => (s'.addRef p id (s.refs p id + 1)).goto p (.idle id))
  | .openGet key =>
    match s.keys key with
    | some id => some (s.goto p (.openOp id))
    | none => some (s.goto p (.idle (-1)))
  | .openOp id => s.semop p id opOpen "can't open" (fun s' => (s'.addRef p id (s.refs p id + 1)).goto p (.idle id))
  | .rm id => s.semctl p id "can't IPC_RMID" (fun _ => (s.remove id).goto p (.idle 0))
  | .closeOp id => s.semop p id opClose "can't semop" (fun s' => (s'.addRef p id (s.refs p id - 1)).goto p (.closeGetval id))
  | .closeGetval id =>
    s.semctl p id "can't GETVAL" (fun S =>
      if S.val 1 > BIGCOUNT then s.ends p (.errDump "sem[1] > BIGCOUNT")
      else s.goto p (if S.val 1 = BIGCOUNT then .closeRm id else .closeUnlock id))
  | .closeRm id => s.semctl p id "can't IPC_RMID" (fun _ => (s.remove id).goto p (.idle 0))
  | .closeUnlock id => s.semop p id opUnlock "can't unlock" (fun s' => s'.goto p (.idle 0))
  | .op id value =>
    s.semop p id (opOp value) "sem_op error" (fun s' =>
      { s'.goto p (.idle 0) with
        taken := Function.update s.taken p (Function.update (s.taken p) id (s.taken p id - value)) })
  | .ended _ => none

/-- What a process says of a system call that fails; `semget` only makes the function return -1. -/
def failure : Pc → Option String
  | .createLock .. | .createAsleep .. => some "can't lock"
  | .createGetval .. => some "can't GETVAL"
  | .createSet0 .. => some "can SETVAL[0]"
  | .createSet1 .. => some "can SETVAL[1]"
  | .createEnd .. => some "can't end create"
  | .openOp .. => some "can't open"
  | .rm .. => some "can't IPC_RMID"
  | .closeOp .. => some "can't semop"
  | .closeGetval .. => some "can't GETVAL"
  | .closeRm .. => some "can't IPC_RMID"
  | .closeUnlock .. => some "can't unlock"
  | .op .. => some "sem_op error"
  | _ => none

def failStep (s : State P) (p : P) : Option (State P) :=
  match s.pc p with
  | .createGet .. => some (s.goto p (.idle (-1)))
  | .openGet .. => some (s.goto p (.idle (-1)))
  | pc => (failure pc).map (fun msg => s.ends p (.errSys msg))

def exitStep (s : State P) (p : P) : Option (State P) :=
  match s.pc p with
  | .ended _ => none
  | _ => some (s.ends p .exited)

def step (s : State P) : Act P → Option (State P)
  | .call p c => callStep s p c
  | .go p true => goStep s p
  | .go p false => failStep s p
  | .exit p => exitStep s p

/-! ## What a step does -/

/-- Where a call begins. -/
inductive Entry : Call → Pc → Prop where
  | refused (c : Call) : Entry c (.idle (-1))
  | create (key initval : Int) : Entry (.create key initval) (.createGet key initval)
  | open (key : Int) : Entry (.open key) (.openGet key)
  | rm (id : Nat) : Entry (.rm id) (.rm id)
  | close (id : Nat) : Entry (.close id) (.closeOp id)
  | op (id : Nat) (value : Int) : value.bmod 65536 ≠ 0 → Entry (.op id value) (.op id (value.bmod 65536))

/-- A system call that only reads. -/
inductive Walk (s : State P) (p : P) : Pc → Pc → Prop where
  | found {key initval : Int} {id : Nat} : s.keys key = some id →
      Walk s p (.createGet key initval) (.createLock key initval id)
  | again {key initval : Int} {id : Nat} : s.set id = none →
      Walk s p (.createLock key initval id) (.createGet key initval)
  | sleeps {key initval : Int} {id : Nat} {S : SemSet P (Fin 3)} : s.set id = some S →
      S.semop p opLock = .error .waits → Walk s p (.createLock key initval id) (.createAsleep key initval id)
  | unset {initval : Int} {id : Nat} {S : SemSet P (Fin 3)} : s.set id = some S → S.val 1 = 0 →
      Walk s p (.createGetval initval id) (.createSet0 initval id)
  | isSet {initval : Int} {id : Nat} {S : SemSet P (Fin 3)} : s.set id = some S → S.val 1 ≠ 0 →
      Walk s p (.createGetval initval id) (.createEnd id)
  | opens {key : Int} {id : Nat} : s.keys key = some id → Walk s p (.openGet key) (.openOp id)
  | absent {key : Int} : s.keys key = none → Walk s p (.openGet key) (.idle (-1))
  | last {id : Nat} {S : SemSet P (Fin 3)} : s.set id = some S → S.val 1 = BIGCOUNT →
      Walk s p (.closeGetval id) (.closeRm id)
  | others {id : Nat} {S : SemSet P (Fin 3)} : s.set id = some S → S.val 1 < BIGCOUNT →
      Walk s p (.closeGetval id) (.closeUnlock id)

/-- The calls of `semop`: from where, on which set, what comes next, what the process has open then and what it takes. -/
inductive Semop (n : Nat) : Pc → Nat → List (Sembuf (Fin 3)) → Pc → Nat → Int → Prop where
  | lock {key initval : Int} {id : Nat} : Semop n (.createLock key initval id) id opLock (.createGetval initval id) n 0
  | wakes {key initval : Int} {id : Nat} :
      Semop n (.createAsleep key initval id) id opLock (.createGetval initval id) n 0
  | endcreate {id : Nat} : Semop n (.createEnd id) id opEndcreate (.idle id) (n + 1) 0
  | open {id : Nat} : Semop n (.openOp id) id opOpen (.idle id) (n + 1) 0
  | close {id : Nat} : Semop n (.closeOp id) id opClose (.closeGetval id) (n - 1) 0
  | unlock {id : Nat} : Semop n (.closeUnlock id) id opUnlock (.idle 0) n 0
  | op {id : Nat} {value : Int} : Semop n (.op id value) id (opOp value) (.idle 0) n value

/-- The state after a `semop`. -/
structure Operated (s : State P) (p : P) (id : Nat) (S' : SemSet P (Fin 3)) (pc' : Pc) (n : Nat) (value : Int)
    (s' : State P) : Prop where
  pc : s'.pc = Function.update s.pc p pc'
  keys : s'.keys = s.keys
  set : s'.set = Function.update s.set id (some S')
  next : s'.next = s.next
  refs : s'.refs = Function.update s.refs p (Function.update (s.refs p) id n)
  taken : s'.taken = Function.update s.taken p (Function.update (s.taken p) id (s.taken p id - value))
  initial : s'.initial = s.initial

theorem Operated.goto (s : State P) (p : P) (id : Nat) (S' : SemSet P (Fin 3)) (pc' : Pc) :
    Operated s p id S' pc' (s.refs p id) 0 ((s.put id S').goto p pc') :=
  ⟨rfl, rfl, rfl, rfl, by simp [State.put], by simp [State.goto, State.put], rfl⟩

theorem Operated.addRef (s : State P) (p : P) (id : Nat) (S' : SemSet P (Fin 3)) (pc' : Pc) (n : Nat) :
    Operated s p id S' pc' n 0 (((s.put id S').addRef p id n).goto p pc') :=
  ⟨rfl, rfl, rfl, rfl, rfl, by simp [State.goto, State.put, State.addRef], rfl⟩

/-- The set without which the next system call of a process is an error. -/
def Pc.needs : Pc → Option Nat
  | .createAsleep _ _ id => some id
  | .createGetval _ id => some id
  | .createSet0 _ id => some id
  | .createSet1 id => some id
  | .createEnd id => some id
  | .openOp id => some id
  | .rm id => some id
  | .closeOp id => some id
  | .closeGetval id => some id
  | .closeRm id => some id
  | .closeUnlock id => some id
  | .op id _ => some id
  | _ => none

/-- A system call that fails for a reason that is in the state. -/
inductive Fails (s : State P) (p : P) : Prop where
  | gone {id : Nat} : (s.pc p).needs = some id → s.set id = none → Fails s p
  | range {id n : Nat} {ops : List (Sembuf (Fin 3))} {pc' : Pc} {value : Int} {S : SemSet P (Fin 3)} :
      Semop (s.refs p id) (s.pc p) id ops pc' n value → s.set id = some S → S.semop p ops = .error .range → Fails s p
  | initval {initval : Int} {id : Nat} : s.pc p = .createSet0 initval id →
      initval < 0 ∨ SemSet.SEMVMX < initval → Fails s p

/-- The system calls of a process. -/
inductive Went (s : State P) (p : P) : State P → Prop where
  | fails (msg : String) : Fails s p → Went s p (s.ends p (.errSys msg))
  | dumps {id : Nat} {S : SemSet P (Fin 3)} : s.pc p = .closeGetval id → s.set id = some S → BIGCOUNT < S.val 1 →
      Went s p (s.ends p (.errDump "sem[1] > BIGCOUNT"))
  | walks (pc' : Pc) : Walk s p (s.pc p) pc' → Went s p (s.goto p pc')
  | makes {key initval : Int} : s.pc p = .createGet key initval → s.keys key = none →
      Went s p ((s.create key).goto p (.createLock key initval s.next))
  | removes {id : Nat} {S : SemSet P (Fin 3)} : s.pc p = .rm id ∨ s.pc p = .closeRm id → s.set id = some S →
      Went s p ((s.remove id).goto p (.idle 0))
  | sets0 {initval : Int} {id : Nat} {S : SemSet P (Fin 3)} : s.pc p = .createSet0 initval id → 0 ≤ initval →
      initval ≤ SemSet.SEMVMX → s.set id = some S → Went s p { (s.put id (S.setval 0 initval.toNat)).goto p (.createSet1 id) with
        initial := Function.update s.initial id initval.toNat }
  | sets1 {id : Nat} {S : SemSet P (Fin 3)} : s.pc p = .createSet1 id → s.set id = some S →
      Went s p ((s.put id (S.setval 1 BIGCOUNT)).goto p (.createEnd id))
  | operates {id n : Nat} {ops : List (Sembuf (Fin 3))} {pc' : Pc} {value : Int} {S S' : SemSet P (Fin 3)} {s' : State P} :
      Semop (s.refs p id) (s.pc p) id ops pc' n value → s.set id = some S → S.semop p ops = .ok S' →
      Operated s p id S' pc' n value s' → Went s p s'

theorem callStep_cases {s s' : State P} {p : P} {c : Call} (h : callStep s p c = some s') :
    (∃ ret, s.pc p = .idle ret) ∧
    ((∃ id value, c = .op id value ∧ value.bmod 65536 = 0 ∧ s' = s.ends p (.errSys "can't have value == 0")) ∨
      ∃ pc', s' = s.goto p pc' ∧ Entry c pc') := by
  unfold callStep at h
  split at h
  · rename_i ret hpc
    refine ⟨⟨ret, hpc⟩, ?_⟩
    cases c with
    | create key initval =>
      refine .inr ⟨_, (Option.some.inj h).symm, ?_⟩
      split
      · exact .refused _
      · exact .create key initval
    | «open» key =>
      refine .inr ⟨_, (Option.some.inj h).symm, ?_⟩
      split
      · exact .refused _
      · exact .open key
    | rm id => exact .inr ⟨_, (Option.some.inj h).symm, .rm id⟩
    | close id => exact .inr ⟨_, (Option.some.inj h).symm, .close id⟩
    | op id value =>
      dsimp only at h
      split at h
      · rename_i hzero
        exact .inl ⟨id, value, rfl, hzero, (Option.some.inj h).symm⟩
      · rename_i hne
        exact .inr ⟨_, (Option.some.inj h).symm, .op id value hne⟩
  · cases h

theorem Went.of_semop {s s' : State P} {p : P} {id n : Nat} {ops : List (Sembuf (Fin 3))} {pc' : Pc} {value : Int}
    {msg : String} {after : State P → State P} (hop : Semop (s.refs p id) (s.pc p) id ops pc' n value)
    (hneeds : (s.pc p).needs = some id) (h : s.semop p id ops msg after = some s')
    (hafter : ∀ S', Operated s p id S' pc' n value (after (s.put id S'))) : Went s p s' := by
  rcases State.semop_cases h with ⟨rfl, hnone | ⟨S, hS, hrange⟩⟩ | ⟨S, S', hS, hS', rfl⟩
  · exact .fails msg (.gone hneeds hnone)
  · exact .fails msg (.range hop hS hrange)
  · exact .operates hop hS hS' (hafter S')

theorem goStep_cases {s s' : State P} {p : P} (h : goStep s p = some s') : Went s p s' := by
  unfold goStep at h
  split at h
  case h_1 => cases h
  case h_2 key initval hpc =>
    split at h
    · rename_i id hkey
      obtain rfl := Option.some.inj h
      exact .walks _ (hpc ▸ .found hkey)
    · rename_i hkey
      obtain rfl := Option.some.inj h
      exact .makes hpc hkey
  case h_3 key initval id hpc =>
    split at h
    · rename_i hnone
      obtain rfl := Option.some.inj h
      exact .walks _ (hpc ▸ .again hnone)
    · rename_i S hS
      split at h
      · rename_i hwaits
        obtain rfl := Option.some.inj h
        exact .walks _ (hpc ▸ .sleeps hS hwaits)
      · rename_i hrange
        obtain rfl := Option.some.inj h
        have hop : Semop (s.refs p id) (s.pc p) id opLock (.createGetval initval id) (s.refs p id) 0 := hpc ▸ .lock
        exact .fails _ (.range hop hS hrange)
      · rename_i S' hS'
        obtain rfl := Option.some.inj h
        exact .operates (hpc ▸ .lock) hS hS' (.goto s p id S' _)
  case h_4 key initval id hpc => exact .of_semop (hpc ▸ .wakes) (hpc ▸ rfl) h (fun S' => .goto s p id S' _)
  case h_5 initval id hpc =>
    rcases State.semctl_cases h with ⟨rfl, hnone⟩ | ⟨S, hS, rfl⟩
    · exact .fails _ (.gone (hpc ▸ rfl) hnone)
    · split
      · rename_i hzero
        exact .walks _ (hpc ▸ .unset hS hzero)
      · rename_i hne
        exact .walks _ (hpc ▸ .isSet hS hne)
  case h_6 initval id hpc =>
    split at h
    · rename_i hout
      obtain rfl := Option.some.inj h
      exact .fails _ (.initval hpc hout)
    · rename_i hrange
      rcases State.semctl_cases h with ⟨rfl, hnone⟩ | ⟨S, hS, rfl⟩
      · exact .fails _ (.gone (hpc ▸ rfl) hnone)
      · exact .sets0 hpc (by omega) (by omega) hS
  case h_7 id hpc =>
    rcases State.semctl_cases h with ⟨rfl, hnone⟩ | ⟨S, hS, rfl⟩
    · exact .fails _ (.gone (hpc ▸ rfl) hnone)
    · exact .sets1 hpc hS
  case h_8 id hpc => exact .of_semop (hpc ▸ .endcreate) (hpc ▸ rfl) h (fun S' => .addRef s p id S' _ _)
  case h_9 key hpc =>
    split at h
    · rename_i id hkey
      obtain rfl := Option.some.inj h
      exact .walks _ (hpc ▸ .opens hkey)
    · rename_i hkey
      obtain rfl := Option.some.inj h
      exact .walks _ (hpc ▸ .absent hkey)
  case h_10 id hpc => exact .of_semop (hpc ▸ .open) (hpc ▸ rfl) h (fun S' => .addRef s p id S' _ _)
  case h_11 id hpc =>
    rcases State.semctl_cases h with ⟨rfl, hnone⟩ | ⟨S, hS, rfl⟩
    · exact .fails _ (.gone (hpc ▸ rfl) hnone)
    · exact .removes (.inl hpc) hS
  case h_12 id hpc => exact .of_semop (hpc ▸ .close) (hpc ▸ rfl) h (fun S' => .addRef s p id S' _ _)
  case h_13 id hpc =>
    rcases State.semctl_cases h with ⟨rfl, hnone⟩ | ⟨S, hS, rfl⟩
    · exact .fails _ (.gone (hpc ▸ rfl) hnone)
    · split
      · rename_i hmore
        exact .dumps hpc hS hmore
      · rename_i hle
        split
        · rename_i heq
          exact .walks _ (hpc ▸ .last hS heq)
        · rename_i hne
          exact .walks _ (hpc ▸ .others hS (by omega))
  case h_14 id hpc =>
    rcases State.semctl_cases h with ⟨rfl, hnone⟩ | ⟨S, hS, rfl⟩
    · exact .fails _ (.gone (hpc ▸ rfl) hnone)
    · exact .removes (.inr hpc) hS
  case h_15 id hpc => exact .of_semop (hpc ▸ .unlock) (hpc ▸ rfl) h (fun S' => .goto s p id S' _)
  case h_16 id value hpc =>
    have hop : Semop (s.refs p id) (s.pc p) id (opOp value) (.idle 0) (s.refs p id) value := hpc ▸ .op
    exact .of_semop hop (hpc ▸ rfl) h (fun S' => ⟨rfl, rfl, rfl, rfl, by simp [State.put, State.goto], rfl, rfl⟩)
  case h_17 => cases h

theorem failStep_cases {s s' : State P} {p : P} (h : failStep s p = some s') :
    (∃ msg, s' = s.ends p (.errSys msg)) ∨
    s' = s.goto p (.idle (-1)) ∧ ((∃ key initval, s.pc p = .createGet key initval) ∨ ∃ key, s.pc p = .openGet key) := by
  unfold failStep at h
  split at h
  · rename_i key initval hpc
    exact .inr ⟨(Option.some.inj h).symm, .inl ⟨key, initval, hpc⟩⟩
  · rename_i key hpc
    exact .inr ⟨(Option.some.inj h).symm, .inr ⟨key, hpc⟩⟩
  · obtain ⟨msg, -, rfl⟩ := Option.map_eq_some_iff.1 h
    exact .inl ⟨msg, rfl⟩

theorem exitStep_cases {s s' : State P} {p : P} (h : exitStep s p = some s') : s' = s.ends p .exited := by
  unfold exitStep at h
  split at h
  · cases h
  · exact (Option.some.inj h).symm

end Semaph
end Cc
