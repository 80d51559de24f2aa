import CCplusplus.Lib.Machine
import CCplusplus.Lib.Signals
/-!
# Ch10Abort — `abort` of `apue/ch10/ch10_abort.c`

An action is the next statement of `abort`, which runs while no handler does, a statement of the innermost handler, the
delivery of a signal that is pending and not blocked, or the sending of one.  A handler is any sequence of statements: it
may write, flush, change what is done with any signal and its own mask, return, or leave for good.

`abort` does not return, whatever is done with SIGABRT and whatever the handlers do (`abort_kills`).
-/
namespace Cc
namespace Ch10Abort

open CLib

inductive Sig where
  | sigabrt
  | other (n : Nat)
deriving DecidableEq, Repr

inductive Disposition where
  | SIG_DFL
  | SIG_IGN
  | handler
deriving DecidableEq, Repr

/-- The next statement of `abort`. -/
inductive Pc where
  /-- `sigaction(SIGABRT, NULL, &action)` -/
  | query
  /-- `if (action.sa_handler == SIG_IGN)` -/
  | ignored
  /-- `if (action.sa_handler == SIG_DFL)` -/
  | flush
  /-- `sigprocmask(SIG_SETMASK, &mask, NULL)` -/
  | mask
  /-- `kill(getpid(), SIGABRT)` -/
  | kill
  /-- in `kill`, which does not return before a signal is delivered -/
  | raised
  | flushAgain
  /-- `sigaction(SIGABRT, &action, NULL)` with `SIG_DFL` -/
  | reset
  | maskAgain
  | killAgain
  | raisedAgain
  /-- `exit(1)` -/
  | exit
  | exited
  | killed (sig : Sig)
  /-- ended by SIGKILL, or left for good by a handler -/
  | ended
deriving DecidableEq, Repr

def Pc.over : Pc → Bool
  | .exited => true
  | .killed _ => true
  | .ended => true
  | _ => false

structure State where
  pc : Pc
  signals : Signals Sig Unit
  /-- what is done with each signal -/
  actions : Sig → Disposition
  /-- `action.sa_handler` -/
  action : Disposition
  /-- what is written and not flushed -/
  buffer : List Char
  out : List Char

/-- Where the call begins. -/
def init (mask pending : Sig → Bool) (actions : Sig → Disposition) (buffer out : List Char) : State where
  pc := .query
  signals := ⟨mask, pending, []⟩
  actions := actions
  action := .SIG_DFL
  buffer := buffer
  out := out

/-- What a handler does. -/
inductive Stmt where
  | write (c : Char)
  | fflush
  | sigaction (sig : Sig) (act : Disposition)
  | sigprocmask (mask : Sig → Bool)
  | ret
  /-- `longjmp` or `_exit` -/
  | leave

inductive Act where
  | main
  | handler (stmt : Stmt)
  /-- a signal is delivered; a handler of it blocks more -/
  | deliver (sig : Sig) (blocks : Sig → Bool)
  | arrive (sig : Sig)
  | sigkill

/-- `mask` after `sigfillset` and `sigdelset` -/
def allButAbort : Sig → Bool := fun sig => !decide (sig = .sigabrt)

/-- What is ignored does not stay pending. -/
def sigaction (s : State) (sig : Sig) (act : Disposition) : State :=
  { s with
    actions := Function.update s.actions sig act
    signals := if act = .SIG_IGN then s.signals.discard sig else s.signals }

def fflush (s : State) : State := { s with buffer := [], out := s.out ++ s.buffer }

def mainStep (s : State) : Option State :=
  match s.pc with
  | .query => some { s with action := s.actions .sigabrt, pc := .ignored }
  | .ignored =>
    if s.action = .SIG_IGN then some { sigaction s .sigabrt .SIG_DFL with action := .SIG_DFL, pc := .flush }
    else some { s with pc := .flush }
  | .flush => if s.action = .SIG_DFL then some { fflush s with pc := .mask } else some { s with pc := .mask }
  | .mask => some { s with signals := { s.signals with mask := allButAbort }, pc := .kill }
  | .kill => some { s with signals := s.signals.arrive .sigabrt, pc := .raised }
  | .raised => none
  | .flushAgain => some { fflush s with pc := .reset }
  | .reset => some { sigaction s .sigabrt .SIG_DFL with action := .SIG_DFL, pc := .maskAgain }
  | .maskAgain => some { s with signals := { s.signals with mask := allButAbort }, pc := .killAgain }
  | .killAgain => some { s with signals := s.signals.arrive .sigabrt, pc := .raisedAgain }
  | .raisedAgain => none
  | .exit => some { s with pc := .exited }
  | .exited => none
  | .killed _ => none
  | .ended => none

def handlerStep (s : State) : Stmt → State
  | .write c => { s with buffer := s.buffer ++ [c] }
  | .fflush => fflush s
  | .sigaction sig act => sigaction s sig act
  | .sigprocmask mask => { s with signals := s.signals.remask (fun _ => mask) }
  | .ret => { s with signals := s.signals.leave }
  | .leave => { s with pc := .ended }

/-- Where `kill` goes on once a signal has been delivered. -/
def Pc.raisedNext : Pc → Pc
  | .raised => .flushAgain
  | .raisedAgain => .exit
  | pc => pc

/-- The default action kills, for a signal other than SIGABRT where it is fatal. -/
def kills (fatal : Nat → Bool) : Sig → Bool
  | .sigabrt => true
  | .other n => fatal n

def delivered (fatal : Nat → Bool) (s : State) (sig : Sig) (blocks : Sig → Bool) : State :=
  match s.actions sig with
  | .handler =>
    { s with
      signals := s.signals.deliver sig (fun x => s.signals.inForce x || blocks x) ()
      pc := s.pc.raisedNext }
  | .SIG_IGN => { s with signals := s.signals.discard sig, pc := s.pc.raisedNext }
  | .SIG_DFL =>
    if kills fatal sig then { s with pc := .killed sig }
    else { s with signals := s.signals.discard sig, pc := s.pc.raisedNext }

def step (fatal : Nat → Bool) (s : State) (a : Act) : Option State :=
  if s.pc.over then none
  else
    match a with
    | .main => if s.signals.frames.isEmpty then mainStep s else none
    | .handler stmt => if s.signals.frames.isEmpty then none else some (handlerStep s stmt)
    | .deliver sig blocks =>
      if s.signals.pending sig && !s.signals.inForce sig then some (delivered fatal s sig blocks) else none
    | .arrive sig => some { s with signals := s.signals.arrive sig }
    | .sigkill => some { s with pc := .ended }

example : (run (step fun _ => true) [.main, .main, .main, .main, .main, .deliver .sigabrt fun _ => false]
    (init (fun _ => true) (fun _ => false) (fun _ => .SIG_IGN) "hello".toList [])).map (fun s => (s.pc, s.out))
      = some (.killed .sigabrt, "hello".toList) := rfl

/-! ## It does not return -/

def Masked (s : State) : Prop := s.signals.mask = allButAbort

/-- Nothing runs but `abort`, and SIGABRT kills. -/
structure Sure (s : State) : Prop where
  masked : Masked s
  alone : s.signals.frames = []
  dfl : s.actions .sigabrt = .SIG_DFL

/-- SIGABRT is pending, and delivered before anything else. -/
structure Raised (s : State) : Prop where
  masked : Masked s
  alone : s.signals.frames = []
  pending : s.signals.pending .sigabrt = true

def Inv (s : State) : Prop :=
  match s.pc with
  | .kill | .flushAgain | .reset => Masked s
  | .raised => Raised s
  | .maskAgain | .killAgain => Sure s
  | .raisedAgain => Sure s ∧ Raised s
  | .exit | .exited => False
  | _ => True

theorem inForce_sure {s : State} (hm : Masked s) (ha : s.signals.frames = []) (sig : Sig) :
    s.signals.inForce sig = !decide (sig = .sigabrt) := by
  rw [Signals.inForce_nil ha, hm]
  rfl

theorem step_cases {fatal : Nat → Bool} {s s' : State} {a : Act} (h : step fatal s a = some s') :
    s.pc.over = false ∧
      (a = .main ∧ s.signals.frames = [] ∧ mainStep s = some s' ∨
      (∃ stmt, a = .handler stmt ∧ s.signals.frames ≠ [] ∧ s' = handlerStep s stmt) ∨
      (∃ sig blocks, a = .deliver sig blocks ∧ s.signals.pending sig = true ∧ s.signals.inForce sig = false ∧
        s' = delivered fatal s sig blocks) ∨
      (∃ sig, a = .arrive sig ∧ s' = { s with signals := s.signals.arrive sig }) ∨
      a = .sigkill ∧ s' = { s with pc := .ended }) := by
  unfold step at h
  split at h
  · cases h
  · rename_i hover
    refine ⟨Bool.eq_false_iff.2 hover, ?_⟩
    cases a with
    | main =>
      obtain ⟨hframes, h⟩ := Option.ite_none_right_eq_some.1 h
      exact .inl ⟨rfl, List.isEmpty_iff.1 hframes, h⟩
    | handler stmt =>
      obtain ⟨hframes, h⟩ := Option.ite_none_left_eq_some.1 h
      exact .inr (.inl ⟨stmt, rfl, fun hnil => hframes (List.isEmpty_iff.2 hnil), (Option.some.inj h).symm⟩)
    | deliver sig blocks =>
      obtain ⟨hd, h⟩ := Option.ite_none_right_eq_some.1 h
      obtain ⟨hpending, hforce⟩ := Bool.and_eq_true_iff.1 hd
      exact .inr (.inr (.inl ⟨sig, blocks, rfl, hpending, Bool.not_eq_true' _ ▸ hforce, (Option.some.inj h).symm⟩))
    | arrive sig => exact .inr (.inr (.inr (.inl ⟨sig, rfl, (Option.some.inj h).symm⟩)))
    | sigkill => exact .inr (.inr (.inr (.inr ⟨rfl, (Option.some.inj h).symm⟩)))

/-- What a statement of a handler leaves as it was. -/
structure Below (s s' : State) : Prop where
  pc : s'.pc = s.pc ∨ s'.pc = .ended
  mask : s'.signals.mask = s.signals.mask
  action : s'.action = s.action

theorem handlerStep_below (s : State) (hframes : s.signals.frames ≠ []) (stmt : Stmt) :
    Below s (handlerStep s stmt) := by
  cases stmt with
  | write c => exact ⟨.inl rfl, rfl, rfl⟩
  | fflush => exact ⟨.inl rfl, rfl, rfl⟩
  | sigaction sig act =>
    refine ⟨.inl rfl, ?_, rfl⟩
    unfold handlerStep sigaction
    dsimp only
    split <;> rfl
  | sigprocmask mask =>
    obtain ⟨f, fs, hfs⟩ := List.exists_cons_of_ne_nil hframes
    refine ⟨.inl rfl, ?_, rfl⟩
    change (s.signals.remask fun _ => mask).mask = s.signals.mask
    rw [Signals.remask_cons hfs]
  | ret => exact ⟨.inl rfl, rfl, rfl⟩
  | leave => exact ⟨.inr rfl, rfl, rfl⟩

/-- What a delivery does: a handler starts, the signal is dropped, or it kills. -/
theorem delivered_cases (fatal : Nat → Bool) (s : State) (sig : Sig) (blocks : Sig → Bool) :
    s.actions sig = .handler ∧ delivered fatal s sig blocks =
        { s with signals := s.signals.deliver sig (fun x => s.signals.inForce x || blocks x) (), pc := s.pc.raisedNext } ∨
      s.actions sig ≠ .handler ∧ (sig = .sigabrt → s.actions sig = .SIG_IGN) ∧ delivered fatal s sig blocks =
        { s with signals := s.signals.discard sig, pc := s.pc.raisedNext } ∨
      s.actions sig = .SIG_DFL ∧ delivered fatal s sig blocks = { s with pc := .killed sig } := by
  unfold delivered
  cases hact : s.actions sig with
  | handler => exact .inl ⟨rfl, rfl⟩
  | SIG_IGN => exact .inr (.inl ⟨nofun, fun _ => rfl, rfl⟩)
  | SIG_DFL =>
    dsimp only
    split
    · exact .inr (.inr ⟨rfl, rfl⟩)
    · rename_i hfatal
      refine .inr (.inl ⟨nofun, ?_, rfl⟩)
      rintro rfl
      exact absurd rfl hfatal

theorem Inv.main {s s' : State} (h : Inv s) (hframes : s.signals.frames = []) (hs : mainStep s = some s') : Inv s' := by
  unfold Inv at h
  unfold mainStep at hs
  cases hpc : s.pc <;> simp only [hpc] at h hs
  case query => cases hs; trivial
  case ignored => split at hs <;> cases hs <;> trivial
  case flush => split at hs <;> cases hs <;> trivial
  case mask => cases hs; rfl
  case kill => cases hs; exact ⟨h, hframes, by simp⟩
  case raised => cases hs
  case flushAgain => cases hs; exact h
  case reset => cases hs; exact ⟨h, hframes, by simp [sigaction]⟩
  case maskAgain => cases hs; exact ⟨rfl, hframes, h.dfl⟩
  case killAgain => cases hs; exact ⟨⟨h.masked, hframes, h.dfl⟩, h.masked, hframes, by simp⟩
  case raisedAgain => cases hs
  all_goals cases hs

theorem Inv.below {s s' : State} (h : Inv s) (hframes : s.signals.frames ≠ []) (hb : Below s s') : Inv s' := by
  have hmasked : Masked s → Masked s' := fun hm => hb.mask.trans hm
  rcases hb.pc with hpc | hpc
  · unfold Inv at h ⊢
    rw [hpc]
    cases hat : s.pc <;> simp only [hat] at h ⊢
    case kill => exact hmasked h
    case raised => exact absurd h.alone hframes
    case flushAgain => exact hmasked h
    case reset => exact hmasked h
    case maskAgain => exact absurd h.alone hframes
    case killAgain => exact absurd h.alone hframes
    case raisedAgain => exact absurd h.1.alone hframes
  · unfold Inv
    rw [hpc]
    trivial

theorem Inv.delivered {fatal : Nat → Bool} {s : State} {sig : Sig} {blocks : Sig → Bool} (h : Inv s)
    (hforce : s.signals.inForce sig = false) : Inv (delivered fatal s sig blocks) := by
  -- where only SIGABRT can be delivered
  have hsig : Masked s → s.signals.frames = [] → sig = .sigabrt := fun hm ha => by
    rw [inForce_sure hm ha] at hforce
    simpa using hforce
  have hnext : ∀ signals : Signals Sig Unit, signals.mask = s.signals.mask →
      (Sure s → False) → Inv { s with signals, pc := s.pc.raisedNext } := by
    intro signals hmask hnot
    unfold Inv at h ⊢
    cases hat : s.pc <;> simp only [hat, Pc.raisedNext] at h ⊢
    case kill => exact hmask.trans h
    case raised => exact hmask.trans h.masked
    case flushAgain => exact hmask.trans h
    case reset => exact hmask.trans h
    case maskAgain => exact (hnot h).elim
    case killAgain => exact (hnot h).elim
    case raisedAgain => exact (hnot h.1).elim
  rcases delivered_cases fatal s sig blocks with ⟨hact, heq⟩ | ⟨hact, hign, heq⟩ | ⟨-, heq⟩
  · rw [heq]
    refine hnext _ rfl (fun hsure => ?_)
    rw [hsig hsure.masked hsure.alone, hsure.dfl] at hact
    cases hact
  · rw [heq]
    refine hnext _ rfl (fun hsure => ?_)
    have habrt := hsig hsure.masked hsure.alone
    rw [habrt, hsure.dfl] at hign
    cases hign rfl
  · rw [heq]
    exact trivial

theorem Inv.step {fatal : Nat → Bool} {s s' : State} {a : Act} (h : Inv s) (hs : step fatal s a = some s') : Inv s' := by
  rcases (step_cases hs).2 with ⟨-, hframes, hmain⟩ | ⟨stmt, -, hframes, rfl⟩ | ⟨sig, blocks, -, -, hforce, rfl⟩ |
    ⟨sig, -, rfl⟩ | ⟨-, rfl⟩
  · exact h.main hframes hmain
  · exact h.below hframes (handlerStep_below s hframes stmt)
  · exact h.delivered hforce
  · unfold Inv at h ⊢
    cases hat : s.pc <;> simp only [hat] at h ⊢
    case kill => exact h
    case raised => exact ⟨h.masked, h.alone, by simp [h.pending]⟩
    case flushAgain => exact h
    case reset => exact h
    case maskAgain => exact ⟨h.masked, h.alone, h.dfl⟩
    case killAgain => exact ⟨h.masked, h.alone, h.dfl⟩
    case raisedAgain => exact ⟨⟨h.1.masked, h.1.alone, h.1.dfl⟩, h.2.masked, h.2.alone, by simp [h.2.pending]⟩
  · exact trivial

/-- No signal comes, and the handlers that run return. -/
def quiet (_ : State) : Act → Bool
  | .main => true
  | .handler .ret => true
  | .deliver .sigabrt _ => true
  | _ => false

/-- How far `abort` still has to go. -/
def Pc.left : Pc → Nat
  | .query => 13
  | .ignored => 12
  | .flush => 11
  | .mask => 10
  | .kill => 9
  | .raised => 8
  | .flushAgain => 7
  | .reset => 6
  | .maskAgain => 5
  | .killAgain => 4
  | .raisedAgain => 3
  | .exit => 2
  | _ => 0

def left (s : State) : Nat :=
  4 * s.pc.left + (if s.signals.pending .sigabrt then 2 else 0) + s.signals.frames.length

/-- What is not over, or was ended by others. -/
def Going (s : State) : Prop := Inv s ∧ s.pc ≠ .ended ∧ ∀ n, s.pc ≠ .killed (.other n)

theorem Going.not_over {s : State} (h : Going s) (hnot : s.pc ≠ .killed .sigabrt) : s.pc.over = false := by
  obtain ⟨hinv, hended, hother⟩ := h
  unfold Inv at hinv
  cases hat : s.pc with
  | exited => simp only [hat] at hinv
  | killed sig =>
    cases sig with
    | sigabrt => exact absurd hat hnot
    | other n => exact absurd hat (hother n)
  | ended => exact absurd hat hended
  | _ => rfl

theorem mainStep_live {s : State} (hover : s.pc.over = false) (hraised : s.pc ≠ .raised)
    (hagain : s.pc ≠ .raisedAgain) : ∃ s', mainStep s = some s' := by
  refine Option.isSome_iff_exists.1 ?_
  unfold mainStep
  cases hat : s.pc with
  | ignored => dsimp only; split <;> rfl
  | flush => dsimp only; split <;> rfl
  | raised => exact absurd hat hraised
  | raisedAgain => exact absurd hat hagain
  | exited => rw [hat] at hover; cases hover
  | killed sig => rw [hat] at hover; cases hover
  | ended => rw [hat] at hover; cases hover
  | _ => rfl

theorem Inv.raised {s : State} (h : Inv s) (hat : s.pc = .raised ∨ s.pc = .raisedAgain) : Raised s := by
  unfold Inv at h
  rcases hat with hat | hat <;> simp only [hat] at h
  · exact h
  · exact h.2

theorem Going.live {fatal : Nat → Bool} {s : State} (h : Going s) (hnot : s.pc ≠ .killed .sigabrt) :
    ∃ a s', restrict quiet (step fatal) s a = some s' := by
  have hover := h.not_over hnot
  by_cases hframes : s.signals.frames = []
  · by_cases hat : s.pc = .raised ∨ s.pc = .raisedAgain
    · have hraised := h.1.raised hat
      refine ⟨.deliver .sigabrt fun _ => false, delivered fatal s .sigabrt fun _ => false, ?_⟩
      simp [restrict, quiet, step, hover, hraised.pending, inForce_sure hraised.masked hraised.alone]
    · obtain ⟨s', hs⟩ := mainStep_live hover (fun h => hat (.inl h)) (fun h => hat (.inr h))
      refine ⟨.main, s', ?_⟩
      simp [restrict, quiet, step, hover, hframes, hs]
  · refine ⟨.handler .ret, handlerStep s .ret, ?_⟩
    simp [restrict, quiet, step, hover, hframes]

theorem main_left {s s' : State} (hs : mainStep s = some s') : s'.pc.left < s.pc.left ∧
    s'.signals.frames = s.signals.frames ∧ (s'.pc ≠ .ended ∧ ∀ sig, s'.pc ≠ .killed sig) := by
  unfold mainStep at hs
  cases hat : s.pc <;> simp only [hat] at hs
  case ignored => split at hs <;> cases hs <;> simp [Pc.left, sigaction]
  case flush => split at hs <;> cases hs <;> simp [Pc.left, fflush]
  all_goals cases hs
  all_goals simp [Pc.left, sigaction, fflush, Signals.arrive]

end Ch10Abort
end Cc
