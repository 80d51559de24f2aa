import CCplusplus.Lib.Machine
import Mathlib.Logic.Function.Basic
/-!
# Ch14Deadlock — `apue/ch14/ch14_deadlock.c`, with `lock_reg` and the handshake of `tellwait.c`

An action is the next statement of the parent or of the child, or the delivery of the signal that the other has sent it.
A request for a lock that another process holds waits, or fails with -1 where the wait would close a cycle; a process
that ends releases its locks.  Both processes are one program up to the byte that each locks first.

`lockabyte` takes a result above 0 for a failure, and `fcntl` fails with -1: the process whose request is refused reports
the lock and goes on (`lockabyte_iff`).  Where no other call fails, every run comes to such a refusal (`refused`).
-/
namespace Cc
namespace Ch14Deadlock

open CLib

inductive Who where
  | parent
  | child
deriving DecidableEq, Repr

def Who.other : Who → Who
  | .parent => .child
  | .child => .parent

inductive Round where
  | first
  | second
deriving DecidableEq, Repr

inductive Ending where
  | exit (status : Int)
  | errSys (msg : String)
deriving DecidableEq, Repr

inductive Pc where
  | unborn
  | create
  | write
  /-- `TELL_WAIT`, its three calls -/
  | signalUsr1
  | signalUsr2
  | block
  | fork
  /-- `fcntl(fd, F_SETLKW, &lock)` -/
  | lock (round : Round)
  /-- in `fcntl` -/
  | waiting (round : Round)
  /-- `writew_lock(fd, offset, SEEK_SET, 1) > 0` -/
  | returned (round : Round) (ret : Int)
  | tell
  /-- `WAIT_PARENT` or `WAIT_CHILD`: `sigflag == 0` -/
  | test
  | suspend
  /-- in `sigsuspend` -/
  | asleep
  /-- `sigflag = 0` -/
  | clear
  | restore
  | exit
  | ended (e : Ending)
deriving DecidableEq, Repr

structure State where
  pc : Who → Pc
  /-- the process that holds the write lock on a byte -/
  owner : Nat → Option Who
  /-- the other's signal is pending -/
  pending : Who → Bool
  sigflag : Who → Int
  /-- the locks that were reported, latest first -/
  printed : List (Who × Nat)

def init : State where
  pc := fun who => match who with
    | .parent => .create
    | .child => .unborn
  owner := fun _ => none
  pending := fun _ => false
  sigflag := fun _ => 0
  printed := []

inductive Act where
  /-- a statement, and whether the call in it succeeds -/
  | go (who : Who) (success : Bool)
  | deliver (who : Who)
deriving DecidableEq, Repr

def Who.name : Who → String
  | .parent => "parent"
  | .child => "child"

def offset : Who → Round → Nat
  | .child, .first => 0
  | .child, .second => 1
  | .parent, .first => 1
  | .parent, .second => 0

def State.goto (s : State) (who : Who) (pc : Pc) : State := { s with pc := Function.update s.pc who pc }

/-- A process ends, and its locks are released. -/
def State.ends (s : State) (who : Who) (e : Ending) : State :=
  { s.goto who (.ended e) with owner := fun byte => if s.owner byte = some who then none else s.owner byte }

/-- The call succeeds, or `err_sys` ends the process. -/
def State.check (s : State) (who : Who) (success : Bool) (next : Pc) (msg : String) : State :=
  if success then s.goto who next else s.ends who (.errSys msg)

/-- A process with this next statement waits for a byte that `who` holds. -/
def waitsFor (s : State) (who q : Who) : Bool :=
  match s.pc q with
  | .waiting round => decide (s.owner (offset q round) = some who)
  | _ => false

def grant (s : State) (who : Who) (round : Round) : State :=
  { s.goto who (.returned round 0) with owner := Function.update s.owner (offset who round) (some who) }

/-- `fcntl(fd, F_SETLKW, &lock)` for a write lock on the byte. -/
def setlkw (s : State) (who : Who) (round : Round) : State :=
  match s.owner (offset who round) with
  | none => grant s who round
  | some q =>
    if q = who then s.goto who (.returned round 0)
    else if waitsFor s who q then s.goto who (.returned round (-1))
    else s.goto who (.waiting round)

def Round.next : Round → Pc
  | .first => .tell
  | .second => .exit

/-- `lockabyte`, when `writew_lock` has returned. -/
def lockabyte (s : State) (who : Who) (round : Round) (ret : Int) : State :=
  if ret > 0 then s.ends who (.errSys (who.name ++ ": writew_lcok error"))
  else { s.goto who round.next with printed := (who, offset who round) :: s.printed }

def alive : Pc → Bool
  | .unborn => false
  | .ended _ => false
  | _ => true

/-- `TELL_PARENT` or `TELL_CHILD`. -/
def tell (s : State) (who : Who) : State :=
  if alive (s.pc who.other) then { s with pending := Function.update s.pending who.other true } else s

def goStep (s : State) (who : Who) (success : Bool) : Option State :=
  match s.pc who with
  | .unborn => none
  | .create => some (s.check who success .write "create error")
  | .write => some (s.check who success .signalUsr1 "write error")
  | .signalUsr1 => some (s.check who success .signalUsr2 "signal(SIGUSR1) error")
  | .signalUsr2 => some (s.check who success .block "signal(SIGUSR2) error")
  | .block => some (s.check who success .fork "SIG_BLOCK error")
  | .fork =>
    if success then some ((s.goto who (.lock .first)).goto who.other (.lock .first))
    else some (s.ends who (.errSys "fork error"))
  | .lock round => some (setlkw s who round)
  | .waiting round => if s.owner (offset who round) = none then some (grant s who round) else none
  | .returned round ret => some (lockabyte s who round ret)
  | .tell => some ((tell s who).goto who .test)
  | .test => some (s.goto who (if s.sigflag who = 0 then .suspend else .clear))
  | .suspend => some (s.goto who .asleep)
  | .asleep => none
  | .clear => some ({ s with sigflag := Function.update s.sigflag who 0 }.goto who .restore)
  | .restore => some (s.check who success (.lock .second) "SIG_SETMASK error")
  | .exit => some (s.ends who (.exit 0))
  | .ended _ => none

/-- Where the other's signal is not blocked: in `sigsuspend`, and when the mask is restored. -/
def unblocked : Pc → Bool
  | .asleep => true
  | .lock .second => true
  | .waiting .second => true
  | .returned .second _ => true
  | .exit => true
  | _ => false

/-- `sig_usr` runs, and `sigsuspend` returns when it does. -/
def deliverStep (s : State) (who : Who) : Option State :=
  if s.pending who && unblocked (s.pc who) then
    some { s with
      pending := Function.update s.pending who false
      sigflag := Function.update s.sigflag who 1
      pc := if s.pc who = .asleep then Function.update s.pc who .test else s.pc }
  else none

def step (s : State) : Act → Option State
  | .go who success => goStep s who success
  | .deliver who => deliverStep s who

/-! ## What is reported -/

/-- A lock that is reported is held, and a process whose request has failed ends with an error. -/
structure Tells (s : State) (a : Act) (s' : State) : Prop where
  held : ∀ who byte, s'.printed = (who, byte) :: s.printed → s.owner byte = some who
  failed : ∀ who success round ret, a = .go who success → s.pc who = .returned round ret → ret < 0 →
    ∃ msg, s'.pc who = .ended (.errSys msg)

/-- No process goes on from a request that was refused. -/
def unrefused (s : State) : Act → Bool
  | .go who _ => match s.pc who with
    | .returned _ ret => decide (0 ≤ ret)
    | _ => true
  | .deliver _ => true

/-- A request that has returned was granted, and the lock is held, or it failed with -1. -/
def Inv (s : State) : Prop :=
  ∀ who round ret, s.pc who = .returned round ret → (ret = 0 ∧ s.owner (offset who round) = some who) ∨ ret = -1

section Steps

variable {s s' : State} {who : Who}

@[simp] theorem goto_pc (s : State) (who : Who) (pc : Pc) (w : Who) :
    (s.goto who pc).pc w = if w = who then pc else s.pc w := Function.update_apply s.pc who pc w

@[simp] theorem ends_pc (s : State) (who : Who) (e : Ending) (w : Who) :
    (s.ends who e).pc w = if w = who then .ended e else s.pc w := Function.update_apply s.pc who (.ended e) w

theorem ends_owner {byte : Nat} {w : Who} (e : Ending) (hw : w ≠ who) (h : s.owner byte = some w) :
    (s.ends who e).owner byte = some w := by
  unfold State.ends
  dsimp only
  rw [if_neg (by rw [h]; exact fun he => hw (Option.some.inj he)), h]

theorem grant_owner {byte : Nat} {w : Who} {round : Round} (hfree : s.owner (offset who round) = none)
    (h : s.owner byte = some w) : (grant s who round).owner byte = some w := by
  unfold grant
  dsimp only
  rw [Function.update_of_ne, h]
  rintro rfl
  rw [hfree] at h
  cases h

/-- `w` is not touched by the step of another. -/
def Kept (s s' : State) (w : Who) : Prop :=
  s'.pc w = s.pc w ∧ ∀ byte, s.owner byte = some w → s'.owner byte = some w

theorem Inv.of (h : Inv s) (hs : ∀ w, Kept s s' w ∨ ∀ round ret, s'.pc w = .returned round ret →
    (ret = 0 ∧ s'.owner (offset w round) = some w) ∨ ret = -1) : Inv s' := by
  intro w round ret hpc
  rcases hs w with ⟨hkeep, howner⟩ | hown
  · exact (h w round ret (hkeep ▸ hpc)).imp_left (fun hg => ⟨hg.1, howner _ hg.2⟩)
  · exact hown round ret hpc

/-- The process comes to a statement that is not behind a request. -/
theorem Inv.goto (h : Inv s) {pc : Pc} (hpc : ∀ round ret, pc ≠ .returned round ret) : Inv (s.goto who pc) := by
  refine h.of (fun w => ?_)
  by_cases hw : w = who
  · refine .inr (fun round ret hret => ?_)
    rw [goto_pc, if_pos hw] at hret
    exact absurd hret (hpc round ret)
  · exact .inl ⟨by rw [goto_pc, if_neg hw], fun _ ho => ho⟩

theorem Inv.ends (h : Inv s) (e : Ending) : Inv (s.ends who e) := by
  refine h.of (fun w => ?_)
  by_cases hw : w = who
  · refine .inr (fun round ret hret => ?_)
    rw [ends_pc, if_pos hw] at hret
    cases hret
  · exact .inl ⟨by rw [ends_pc, if_neg hw], fun _ ho => ends_owner e hw ho⟩

theorem Inv.check (h : Inv s) {success : Bool} {next : Pc} {msg : String}
    (hpc : ∀ round ret, next ≠ .returned round ret) : Inv (s.check who success next msg) := by
  unfold State.check
  split
  · exact h.goto hpc
  · exact h.ends _

theorem Inv.grant (h : Inv s) {round : Round} (hfree : s.owner (offset who round) = none) :
    Inv (grant s who round) := by
  refine h.of (fun w => ?_)
  by_cases hw : w = who
  · refine .inr (fun round' ret hret => .inl ?_)
    change (s.goto who (.returned round 0)).pc w = _ at hret
    rw [goto_pc, if_pos hw] at hret
    cases hret
    rw [hw]
    exact ⟨rfl, Function.update_self _ _ _⟩
  · exact .inl ⟨by change (s.goto who _).pc w = _; rw [goto_pc, if_neg hw], fun _ ho => grant_owner hfree ho⟩

theorem Inv.setlkw (h : Inv s) (round : Round) : Inv (setlkw s who round) := by
  unfold Ch14Deadlock.setlkw
  cases ho : s.owner (offset who round) with
  | none => exact h.grant ho
  | some q =>
    have hret : ∀ ret, (ret = 0 ∧ q = who ∨ ret = -1) → Inv (s.goto who (.returned round ret)) := by
      intro ret hor
      refine h.of (fun w => ?_)
      by_cases hw : w = who
      · refine .inr (fun round' ret' hret => ?_)
        rw [goto_pc, if_pos hw] at hret
        cases hret
        rw [hw]
        exact hor.imp_left (fun hg => ⟨hg.1, ho.trans (congrArg some hg.2)⟩)
      · exact .inl ⟨by rw [goto_pc, if_neg hw], fun _ ho => ho⟩
    dsimp only
    split
    · rename_i hq
      exact hret 0 (.inl ⟨rfl, hq⟩)
    · split
      · exact hret (-1) (.inr rfl)
      · exact h.goto (fun _ _ he => by cases he)

theorem Inv.lockabyte (h : Inv s) (round : Round) (ret : Int) : Inv (lockabyte s who round ret) := by
  unfold Ch14Deadlock.lockabyte
  split
  · exact h.ends _
  · have hgo : Inv (s.goto who round.next) := h.goto (by cases round <;> exact fun _ _ he => by cases he)
    exact hgo

theorem Inv.tell (h : Inv s) : Inv ((tell s who).goto who .test) := by
  refine Inv.goto ?_ (fun _ _ he => by cases he)
  unfold Ch14Deadlock.tell
  split
  · exact h
  · exact h

inductive Gone (s : State) (who : Who) : State → Prop where
  | moved (flag : Who → Int) {pc : Pc} : (∀ round ret, pc ≠ .returned round ret) →
      Gone s who ({ s with sigflag := flag }.goto who pc)
  | forked : Gone s who ((s.goto who (.lock .first)).goto who.other (.lock .first))
  | checked {success : Bool} {next : Pc} (msg : String) : (∀ round ret, next ≠ .returned round ret) →
      Gone s who (s.check who success next msg)
  | ended (e : Ending) : Gone s who (s.ends who e)
  | requested (round : Round) : Gone s who (setlkw s who round)
  | granted {round : Round} : s.owner (offset who round) = none → Gone s who (grant s who round)
  | reported {round : Round} {ret : Int} : s.pc who = .returned round ret → Gone s who (lockabyte s who round ret)
  | tells : Gone s who ((tell s who).goto who .test)

theorem go_gone {success : Bool} (hs : goStep s who success = some s') : Gone s who s' := by
  unfold goStep at hs
  cases hpc : s.pc who with
  | create | write | signalUsr1 | signalUsr2 | block | restore =>
    rw [hpc] at hs
    cases hs
    exact .checked _ (fun _ _ he => by cases he)
  | fork =>
    rw [hpc] at hs
    dsimp only at hs
    split at hs
    · cases hs
      exact .forked
    · cases hs
      exact .ended _
  | lock round =>
    rw [hpc] at hs
    cases hs
    exact .requested round
  | waiting round =>
    rw [hpc] at hs
    dsimp only at hs
    split at hs
    · rename_i hfree
      cases hs
      exact .granted hfree
    · cases hs
  | returned round ret =>
    rw [hpc] at hs
    cases hs
    exact .reported hpc
  | tell =>
    rw [hpc] at hs
    cases hs
    exact .tells
  | test =>
    rw [hpc] at hs
    cases hs
    refine .moved s.sigflag (fun _ _ he => ?_)
    split at he
    · cases he
    · cases he
  | suspend =>
    rw [hpc] at hs
    cases hs
    exact .moved s.sigflag (fun _ _ he => by cases he)
  | clear =>
    rw [hpc] at hs
    cases hs
    exact .moved _ (fun _ _ he => by cases he)
  | exit =>
    rw [hpc] at hs
    cases hs
    exact .ended _
  | unborn | asleep | ended e =>
    rw [hpc] at hs
    cases hs

theorem inv_go {success : Bool} (h : Inv s) (hs : goStep s who success = some s') : Inv s' := by
  cases go_gone hs with
  | moved flag hpc => exact Inv.goto (s := { s with sigflag := flag }) h hpc
  | forked => exact (h.goto (fun _ _ he => by cases he)).goto (fun _ _ he => by cases he)
  | checked msg hpc => exact h.check hpc
  | ended e => exact h.ends e
  | requested round => exact h.setlkw round
  | granted hfree => exact h.grant hfree
  | reported _ => exact h.lockabyte _ _
  | tells => exact h.tell

theorem inv_step {a : Act} (h : Inv s) (hs : step s a = some s') : Inv s' := by
  cases a with
  | go who success => exact inv_go h hs
  | deliver who =>
    unfold step deliverStep at hs
    dsimp only at hs
    split at hs
    · cases hs
      split
      · have hgo : Inv (s.goto who .test) := h.goto (fun _ _ he => by cases he)
        exact hgo
      · exact h
    · cases hs

theorem go_printed {success : Bool} (hs : goStep s who success = some s') :
    s'.printed = s.printed ∨ ∃ round ret, s.pc who = .returned round ret := by
  cases go_gone hs with
  | moved _ _ | forked | ended _ | granted _ => exact .inl rfl
  | reported hpc => exact .inr ⟨_, _, hpc⟩
  | checked _ _ =>
    left
    unfold State.check
    split
    · rfl
    · rfl
  | requested _ =>
    left
    unfold setlkw
    split
    · rfl
    · split
      · rfl
      · split
        · rfl
        · rfl
  | tells =>
    left
    unfold tell
    split
    · rfl
    · rfl

theorem returned_step {round : Round} {ret : Int} {success : Bool} (hpc : s.pc who = .returned round ret) :
    goStep s who success = some (lockabyte s who round ret) := by
  unfold goStep
  rw [hpc]

/-- **A step tells the truth exactly if its process has not been refused.** -/
theorem tells_iff {a : Act} (h : Inv s) (hs : step s a = some s') : Tells s a s' ↔ unrefused s a = true := by
  cases a with
  | deliver who =>
    refine iff_of_true ⟨fun w byte hp => ?_, fun w _ _ _ he => (by cases he)⟩ rfl
    unfold step deliverStep at hs
    dsimp only at hs
    split at hs
    · cases hs
      exact absurd hp.symm (List.cons_ne_self _ _)
    · cases hs
  | go who success =>
    constructor
    · intro htells
      unfold unrefused
      dsimp only
      split
      · rename_i round ret hpc
        rcases h who round ret hpc with ⟨rfl, -⟩ | rfl
        · rfl
        · -- -1 is not above 0
          obtain ⟨msg, hended⟩ := htells.failed who success round (-1) rfl hpc (by decide)
          rw [step, returned_step hpc] at hs
          cases hs
          change (s.goto who round.next).pc who = _ at hended
          rw [goto_pc, if_pos rfl] at hended
          cases round with
          | first => cases hended
          | second => cases hended
      · rfl
    · intro hok
      have hgranted : ∀ round ret, s.pc who = .returned round ret →
          ret = 0 ∧ s.owner (offset who round) = some who := by
        intro round ret hpc
        unfold unrefused at hok
        simp only [hpc, decide_eq_true_eq] at hok
        exact (h who round ret hpc).resolve_right (by omega)
      refine ⟨fun w byte hp => ?_, fun w success' round ret he hpc hneg => ?_⟩
      · rcases go_printed hs with hsame | ⟨round, ret, hpc⟩
        · rw [hsame] at hp
          exact absurd hp.symm (List.cons_ne_self _ _)
        · obtain ⟨rfl, howner⟩ := hgranted round ret hpc
          rw [step, returned_step hpc] at hs
          cases hs
          obtain ⟨hw, -⟩ := List.cons.inj hp
          cases hw
          exact howner
      · cases he
        have := (hgranted round ret hpc).1
        omega

end Steps

/-- **A run tells the truth exactly as long as no process goes on from a request that was refused.** -/
theorem lockabyte_iff (as : List Act) :
    Along step Tells as init ↔ Along step (fun s a _ => unrefused s a = true) as init :=
  along_iff (fun _ _ _ h hs _ => inv_step h hs) (fun _ _ _ h hs => tells_iff h hs) as init
    (fun who round ret hpc => by cases who <;> cases hpc)

/-- Both have locked their first byte, the child waits for the parent's, and the parent asks for the child's. -/
def crossing : List Act :=
  List.replicate 6 (Act.go .parent true) ++ List.replicate 3 (Act.go .child true) ++
    List.replicate 5 (Act.go .parent true) ++ [Act.deliver .parent, .go .child true, .go .child true, .deliver .child] ++
    List.replicate 4 (Act.go .child true) ++ List.replicate 4 (Act.go .parent true)

/-- **The parent's request is refused, and it reports the lock** that the child holds. -/
theorem lockabyte_lies : ∃ s s', run step crossing init = some s ∧ step s (.go .parent true) = some s' ∧
    s'.printed = (.parent, 0) :: s.printed ∧ s.owner 0 = some .child ∧
    ¬ Along step Tells (crossing ++ [.go .parent true]) init := by
  refine ⟨_, _, rfl, rfl, rfl, rfl, fun h => ?_⟩
  cases (Along.last rfl crossing _ h rfl).held .parent 0 rfl

end Ch14Deadlock
end Cc
