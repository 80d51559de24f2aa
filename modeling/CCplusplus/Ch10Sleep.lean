import CCplusplus.Lib.Machine
import CCplusplus.Lib.Signals
/-!
# Ch10Sleep — `mysleep` of `apue/ch10/ch10_sleep.c`

An action is the next statement of `mysleep`, which runs while no handler does, the return of the innermost handler, the
delivery of a signal that is pending and not blocked, the sending of a signal, or the passing of the alarm's time.  The
caller's handlers leave the alarm, the mask and what is done with SIGALRM alone; one that was installed with
`SA_RESETHAND` is reset by the kernel when it is called.  A signal that is not caught ends the process, or is ignored.

The alarm is set where SIGALRM is blocked already, so it wakes `sigsuspend` whenever it fires; but `alarm(0)` sets none,
and `mysleep(0)` waits for another signal (`mysleep_iff`).
-/
namespace Cc
namespace Ch10Sleep

open CLib

inductive Sig where
  | sigalrm
  | other (n : Nat)
deriving DecidableEq, Repr

/-- What the process does with SIGALRM. -/
inductive Disposition where
  | SIG_DFL
  | SIG_IGN
  | sigAlarm
  /-- a handler of the caller's, with `SA_RESETHAND` or without -/
  | caller (n : Nat) (resethand : Bool)
deriving DecidableEq, Repr

inductive Reaction where
  | catches
  | ignores
  | dies
deriving DecidableEq, Repr

/-- A call of `mysleep`, and the process that makes it; `blocks` is the `sa_mask` of the caller's handlers. -/
structure Call where
  seconds : Nat
  action : Disposition
  mask : Sig → Bool
  reaction : Nat → Reaction
  blocks : Sig → Sig → Bool

/-- The next statement of `mysleep`. -/
inductive Pc where
  /-- `sigaction(SIGALRM, &newact, &oldact)` -/
  | install
  /-- `sigprocmask(SIG_BLOCK, &newmask, &oldmask)` -/
  | block
  /-- `alarm(seconds)` -/
  | alarm
  | suspend
  /-- in `sigsuspend` -/
  | asleep
  /-- `unslept = alarm(0)` -/
  | cancel
  /-- `sigaction(SIGALRM, &oldact, NULL)` -/
  | restoreAction
  /-- `sigprocmask(SIG_SETMASK, &oldmask, NULL)` -/
  | restoreMask
  | ret
  | returned
  | killed (sig : Sig)
deriving DecidableEq, Repr

structure State where
  pc : Pc
  signals : Signals Sig Unit
  action : Disposition
  /-- the seconds until the alarm, where one is set -/
  scheduled : Option Nat
  oldact : Disposition
  oldmask : Sig → Bool
  unslept : Nat
  /-- a SIGALRM was delivered to a handler of the caller's with `SA_RESETHAND` -/
  reset : Bool

/-- Where the call begins, with the alarm and the signals that there are. -/
def init (c : Call) (pending : Sig → Bool) (scheduled : Option Nat) : State where
  pc := .install
  signals := ⟨c.mask, pending, []⟩
  action := c.action
  scheduled := scheduled
  oldact := .SIG_DFL
  oldmask := fun _ => false
  unslept := 0
  reset := false

inductive Act where
  | main
  /-- a handler returns -/
  | handler
  | deliver (sig : Sig)
  | arrive (sig : Sig)
  /-- time passes -/
  | elapse (left : Nat)
  /-- the alarm's time has come -/
  | expire
deriving DecidableEq, Repr

def newmask : Sig → Bool := fun sig => decide (sig = .sigalrm)

def suspmask (s : State) : Sig → Bool := fun sig => s.oldmask sig && !decide (sig = .sigalrm)

/-- `sigaction(SIGALRM, ..)`; what is ignored does not stay pending. -/
def sigaction (s : State) (action : Disposition) : State :=
  if action = .SIG_IGN then { s with action := action, signals := s.signals.discard .sigalrm }
  else { s with action := action }

def mainStep (c : Call) (s : State) : Option State :=
  match s.pc with
  | .install => some { sigaction s .sigAlarm with oldact := s.action, pc := .block }
  | .block =>
    some { s with
      oldmask := s.signals.mask
      signals := { s.signals with mask := fun x => newmask x || s.signals.mask x }
      pc := .alarm }
  | .alarm => some { s with scheduled := if c.seconds = 0 then none else some c.seconds, pc := .suspend }
  | .suspend => some { s with pc := .asleep }
  | .asleep => none
  | .cancel => some { s with unslept := s.scheduled.getD 0, scheduled := none, pc := .restoreAction }
  | .restoreAction => some { sigaction s s.oldact with pc := .restoreMask }
  | .restoreMask => some { s with signals := { s.signals with mask := s.oldmask }, pc := .ret }
  | .ret => some { s with pc := .returned }
  | .returned => none
  | .killed _ => none

/-- The mask in force: that of `sigsuspend` while it sleeps. -/
def inForce (s : State) : Sig → Bool := if s.pc = .asleep then suspmask s else s.signals.inForce

/-- A handler starts, and `sigsuspend` returns when it does. -/
def caught (s : State) (sig : Sig) (blocks : Sig → Bool) : State :=
  { s with
    signals := s.signals.deliver sig (fun x => inForce s x || blocks x) ()
    pc := if s.pc = .asleep then .cancel else s.pc }

def ignored (s : State) (sig : Sig) : State := { s with signals := s.signals.discard sig }

def take (c : Call) (s : State) : Sig → State
  | .sigalrm =>
    match s.action with
    | .SIG_DFL => { s with pc := .killed .sigalrm }
    | .SIG_IGN => ignored s .sigalrm
    | .sigAlarm => caught s .sigalrm (fun _ => false)
    | .caller _ resethand =>
      if resethand then { caught s .sigalrm (c.blocks .sigalrm) with action := .SIG_DFL, reset := true }
      else caught s .sigalrm (c.blocks .sigalrm)
  | .other n =>
    match c.reaction n with
    | .catches => caught s (.other n) (c.blocks (.other n))
    | .ignores => ignored s (.other n)
    | .dies => { s with pc := .killed (.other n) }

def deliverStep (c : Call) (s : State) (sig : Sig) : Option State :=
  if s.signals.pending sig && !inForce s sig then some (take c s sig) else none

/-- A SIGALRM that is ignored does not become pending. -/
def send (s : State) (sig : Sig) : State :=
  if sig = .sigalrm ∧ s.action = .SIG_IGN then s else { s with signals := s.signals.arrive sig }

def alive : Pc → Bool
  | .returned => false
  | .killed _ => false
  | _ => true

def step (c : Call) (s : State) (a : Act) : Option State :=
  if alive s.pc then
    match a with
    | .main => if s.signals.frames.isEmpty then mainStep c s else none
    | .handler => if s.signals.frames.isEmpty then none else some { s with signals := s.signals.leave }
    | .deliver sig => deliverStep c s sig
    | .arrive sig => some (send s sig)
    | .elapse left =>
      match s.scheduled with
      | some r => if 0 < left ∧ left ≤ r then some { s with scheduled := some left } else none
      | none => none
    | .expire => if s.scheduled.isSome then some (send { s with scheduled := none } .sigalrm) else none
  else none

/-! ## What the caller is promised -/

/-- Asleep with nothing that will send SIGALRM, and none that is pending. -/
structure Lost (s : State) : Prop where
  asleep : s.pc = .asleep
  unscheduled : s.scheduled = none
  nothing : s.signals.pending .sigalrm = false

structure Restored (c : Call) (s : State) : Prop where
  action : s.action = c.action
  mask : s.signals.mask = c.mask

/-- The state that a step leads to is as it should be. -/
structure Meets (c : Call) (s : State) : Prop where
  woken : ¬ Lost s
  restored : s.pc = .returned → Restored c s

/-- `sigsuspend` is called for at least a second or with a SIGALRM that is pending, and `mysleep` returns where no handler
of the caller's has been reset. -/
def sound (c : Call) (s : State) : Act → Bool
  | .main =>
    match s.pc with
    | .suspend => decide (0 < c.seconds) || s.signals.pending .sigalrm
    | .ret => !s.reset
    | _ => true
  | _ => true

/-- What the caller had SIGALRM do, up to the reset of a handler. -/
def Kept (c : Call) (s : State) (d : Disposition) : Prop :=
  (s.reset = false ∧ d = c.action) ∨ (s.reset = true ∧ d = .SIG_DFL ∧ ∃ n, c.action = .caller n true)

/-- Something will wake `sigsuspend`. -/
def Waking (s : State) : Prop := s.scheduled ≠ none ∨ s.signals.pending .sigalrm = true

/-- `sig_alarm` is in place, and what is to be restored is saved. -/
structure Saved (c : Call) (s : State) : Prop where
  action : s.action = .sigAlarm
  oldact : Kept c s s.oldact

structure Blocking (c : Call) (s : State) : Prop extends Saved c s where
  oldmask : s.oldmask = c.mask
  mask : s.signals.mask .sigalrm = true

/-- What holds before each statement. -/
def Phase (c : Call) (s : State) : Pc → Prop
  | .install => Kept c s s.action ∧ s.signals.mask = c.mask
  | .block => Saved c s ∧ s.signals.mask = c.mask
  | .alarm => Blocking c s
  | .suspend => Blocking c s ∧ s.signals.Blocked .sigalrm ∧ (if c.seconds = 0 then s.scheduled = none else Waking s)
  | .asleep => Blocking c s ∧ s.signals.frames = [] ∧ Waking s
  | .cancel => Blocking c s
  | .restoreAction => Blocking c s
  | .restoreMask => Kept c s s.action ∧ s.oldmask = c.mask ∧ s.signals.Blocked .sigalrm
  | .ret => Kept c s s.action ∧ s.signals.mask = c.mask
  | .returned => Kept c s s.action ∧ s.signals.mask = c.mask
  | .killed _ => True

section Steps

variable {c : Call} {s s' : State}

theorem Kept.same {d : Disposition} (h : Kept c s d) (hr : s'.reset = s.reset) : Kept c s' d := by
  unfold Kept
  rw [hr]
  exact h

theorem Saved.same (h : Saved c s) (ha : s'.action = s.action) (ho : s'.oldact = s.oldact)
    (hr : s'.reset = s.reset) : Saved c s' :=
  ⟨ha.trans h.action, by rw [ho]; exact h.oldact.same hr⟩

theorem Blocking.same (h : Blocking c s) (ha : s'.action = s.action) (ho : s'.oldact = s.oldact)
    (hom : s'.oldmask = s.oldmask) (hm : s'.signals.mask = s.signals.mask) (hr : s'.reset = s.reset) : Blocking c s' :=
  ⟨h.toSaved.same ha ho hr, hom.trans h.oldmask, (congrFun hm _).trans h.mask⟩

/-- What stays while `mysleep` does not go on. -/
structure Same (s s' : State) : Prop where
  action : s'.action = s.action
  oldact : s'.oldact = s.oldact
  oldmask : s'.oldmask = s.oldmask
  mask : s'.signals.mask = s.signals.mask
  reset : s'.reset = s.reset

/-- A phase is kept by what keeps SIGALRM blocked and, where it matters, the wake-up on its way. -/
theorem Phase.keep {pc : Pc} (h : Phase c s pc) (hsame : Same s s')
    (hb : s.signals.Blocked .sigalrm → s'.signals.Blocked .sigalrm)
    (hf : pc = .asleep → s.signals.frames = [] → s'.signals.frames = [])
    (hs : s.scheduled = none → s'.scheduled = none)
    (hw : s.action = .sigAlarm → s.signals.Blocked .sigalrm ∨ pc = .asleep → Waking s → Waking s') : Phase c s' pc := by
  obtain ⟨ha, ho, hom, hm, hr⟩ := hsame
  cases pc with
  | install =>
    refine ⟨?_, hm.trans h.2⟩
    rw [ha]
    exact h.1.same hr
  | block => exact ⟨h.1.same ha ho hr, hm.trans h.2⟩
  | alarm => exact Blocking.same h ha ho hom hm hr
  | suspend =>
    obtain ⟨hsaved, hblocked, hwake⟩ := h
    refine ⟨hsaved.same ha ho hom hm hr, hb hblocked, ?_⟩
    split
    · rename_i hzero
      rw [if_pos hzero] at hwake
      exact hs hwake
    · rename_i hzero
      rw [if_neg hzero] at hwake
      exact hw hsaved.action (.inl hblocked) hwake
  | asleep => exact ⟨h.1.same ha ho hom hm hr, hf rfl h.2.1, hw h.1.action (.inr rfl) h.2.2⟩
  | cancel => exact Blocking.same h ha ho hom hm hr
  | restoreAction => exact Blocking.same h ha ho hom hm hr
  | restoreMask =>
    refine ⟨?_, hom.trans h.2.1, hb h.2.2⟩
    rw [ha]
    exact h.1.same hr
  | ret =>
    refine ⟨?_, hm.trans h.2⟩
    rw [ha]
    exact h.1.same hr
  | returned =>
    refine ⟨?_, hm.trans h.2⟩
    rw [ha]
    exact h.1.same hr
  | killed sig => trivial

theorem Phase.send (h : Phase c s s.pc) (sig : Sig) : Phase c (send s sig) (send s sig).pc := by
  unfold Ch10Sleep.send
  split
  · exact h
  · exact Phase.keep h ⟨rfl, rfl, rfl, rfl, rfl⟩ (fun hb => hb.arrive sig) (fun _ hf => hf) (fun hn => hn)
      (fun _ _ hw => hw.imp_right (fun hp => (Signals.pending_arrive _ _ _).2 (.inr hp)))

theorem Phase.expire (h : Phase c s s.pc) :
    Phase c (Ch10Sleep.send { s with scheduled := none } .sigalrm) (Ch10Sleep.send { s with scheduled := none } .sigalrm).pc := by
  unfold Ch10Sleep.send
  split
  · rename_i hign
    exact Phase.keep h ⟨rfl, rfl, rfl, rfl, rfl⟩ (fun hb => hb) (fun _ hf => hf) (fun _ => rfl)
      (fun ha _ _ => by cases ha.symm.trans hign.2)
  · exact Phase.keep h ⟨rfl, rfl, rfl, rfl, rfl⟩ (fun hb => hb.arrive _) (fun _ hf => hf) (fun _ => rfl)
      (fun _ _ _ => .inr (by simp))

theorem Phase.caught (h : Phase c s s.pc) {sig : Sig} (hopen : inForce s sig = false) (blocks : Sig → Bool) :
    Phase c (caught s sig blocks) (caught s sig blocks).pc := by
  unfold Ch10Sleep.caught
  by_cases hasleep : s.pc = .asleep
  · rw [hasleep] at h
    simp only [hasleep, if_true]
    exact h.1.same rfl rfl rfl rfl rfl
  · have hforce : inForce s = s.signals.inForce := if_neg hasleep
    simp only [if_neg hasleep]
    refine Phase.keep h ⟨rfl, rfl, rfl, rfl, rfl⟩ (fun hb => ?_) (fun hpc => absurd hpc hasleep) (fun hn => hn)
      (fun _ hor hw => ?_)
    · exact hb.deliver (by rw [hforce, hb.inForce]; rfl) sig ()
    · have hb := hor.resolve_right hasleep
      refine hw.imp_right (fun hp => ?_)
      rw [Signals.pending_deliver]
      refine ⟨?_, hp⟩
      -- a signal that is delivered is not the one that is blocked
      rintro rfl
      rw [hforce, hb.inForce] at hopen
      cases hopen

theorem Phase.ignored (h : Phase c s s.pc) {sig : Sig} (hsig : sig = .sigalrm → s.action ≠ .sigAlarm) :
    Phase c (ignored s sig) (ignored s sig).pc := by
  refine Phase.keep h ⟨rfl, rfl, rfl, rfl, rfl⟩ (fun hb => ⟨hb.mask, hb.frames⟩) (fun _ hf => hf) (fun hn => hn)
    (fun ha _ hw => hw.imp_right (fun hp => (Signals.pending_discard _ _ _).2 ⟨fun he => hsig he.symm ha, hp⟩))

theorem Phase.reset (h : Phase c s s.pc) (hopen : inForce s .sigalrm = false) {n : Nat} (ha : s.action = .caller n true)
    (blocks : Sig → Bool) :
    Phase c { Ch10Sleep.caught s .sigalrm blocks with action := .SIG_DFL, reset := true } (Ch10Sleep.caught s .sigalrm blocks).pc := by
  have hkept : Kept c s s.action → ∃ n, c.action = .caller n true := by
    rintro (⟨-, he⟩ | ⟨-, he, -⟩)
    · exact ⟨n, he.symm.trans ha⟩
    · cases ha.symm.trans he
  have hnot : ¬ Saved c s := fun hs => by cases ha.symm.trans hs.action
  unfold Ch10Sleep.caught
  cases hpc : s.pc with
  | install =>
    rw [hpc] at h
    exact ⟨.inr ⟨rfl, rfl, hkept h.1⟩, h.2⟩
  | block =>
    rw [hpc] at h
    exact absurd h.1 hnot
  | alarm =>
    rw [hpc] at h
    exact absurd (Blocking.toSaved h) hnot
  | suspend =>
    rw [hpc] at h
    exact absurd h.1.toSaved hnot
  | asleep =>
    rw [hpc] at h
    exact absurd h.1.toSaved hnot
  | cancel =>
    rw [hpc] at h
    exact absurd (Blocking.toSaved h) hnot
  | restoreAction =>
    rw [hpc] at h
    exact absurd (Blocking.toSaved h) hnot
  | restoreMask =>
    rw [hpc] at h
    unfold inForce at hopen
    rw [if_neg (by rw [hpc]; exact fun he => by cases he), h.2.2.inForce] at hopen
    cases hopen
  | ret =>
    rw [hpc] at h
    exact ⟨.inr ⟨rfl, rfl, hkept h.1⟩, h.2⟩
  | returned =>
    rw [hpc] at h
    exact ⟨.inr ⟨rfl, rfl, hkept h.1⟩, h.2⟩
  | killed sig => trivial

theorem Phase.deliver (h : Phase c s s.pc) {sig : Sig} (hs : deliverStep c s sig = some s') : Phase c s' s'.pc := by
  unfold deliverStep at hs
  split at hs
  · rename_i hcond
    obtain ⟨-, hopen⟩ := Bool.and_eq_true_iff.1 hcond
    rw [Bool.not_eq_true'] at hopen
    cases hs
    cases sig with
    | sigalrm =>
      unfold take
      cases ha : s.action with
      | SIG_DFL => trivial
      | SIG_IGN => exact h.ignored (fun _ he => by cases ha.symm.trans he)
      | sigAlarm => exact h.caught hopen _
      | caller n resethand =>
        cases resethand with
        | false => exact h.caught hopen _
        | true => exact h.reset hopen ha _
    | other n =>
      unfold take
      dsimp only
      cases hr : c.reaction n with
      | catches => exact h.caught hopen _
      | ignores => exact h.ignored (fun he => by cases he)
      | dies => trivial
  · cases hs

/-- **A statement of `mysleep`** comes to the next phase, where `sigsuspend` is called with a wake-up on its way. -/
theorem Phase.main (h : Phase c s s.pc) (hf : s.signals.frames = []) (hs : mainStep c s = some s')
    (hwake : s.pc = .suspend → Waking s) : Phase c s' s'.pc := by
  unfold mainStep at hs
  cases hpc : s.pc with
  | install =>
    rw [hpc] at hs h
    cases hs
    exact ⟨⟨rfl, h.1⟩, h.2⟩
  | block =>
    rw [hpc] at hs h
    cases hs
    exact ⟨h.1.same rfl rfl rfl, h.2, rfl⟩
  | alarm =>
    rw [hpc] at hs h
    cases hs
    have h : Blocking c s := h
    refine ⟨h.same rfl rfl rfl rfl rfl, ⟨h.mask, fun f hm => ?_⟩, ?_⟩
    · change f ∈ s.signals.frames at hm
      rw [hf] at hm
      cases hm
    · split
      · rfl
      · exact .inl (fun he => by cases he)
  | suspend =>
    have hw := hwake hpc
    rw [hpc] at hs h
    cases hs
    exact ⟨h.1.same rfl rfl rfl rfl rfl, hf, hw⟩
  | cancel =>
    rw [hpc] at hs h
    cases hs
    exact Blocking.same h rfl rfl rfl rfl rfl
  | restoreAction =>
    rw [hpc] at hs h
    cases hs
    have h : Blocking c s := h
    have hblocked : ∀ f ∈ s.signals.frames, f.mask .sigalrm = true := by
      rw [hf]
      exact fun f hm => by cases hm
    unfold sigaction
    split
    · rename_i hign
      refine ⟨?_, h.oldmask, h.mask, hblocked⟩
      exact h.oldact.same rfl
    · exact ⟨h.oldact.same rfl, h.oldmask, h.mask, hblocked⟩
  | restoreMask =>
    rw [hpc] at hs h
    cases hs
    exact ⟨h.1.same rfl, h.2.1⟩
  | ret =>
    rw [hpc] at hs h
    cases hs
    exact ⟨h.1.same rfl, h.2⟩
  | asleep | returned | killed sig =>
    rw [hpc] at hs
    cases hs

theorem Waking.iff_not_lost (hasleep : s.pc = .asleep) : Waking s ↔ ¬ Lost s := by
  constructor
  · rintro hw ⟨-, hnone, hpending⟩
    rcases hw with hw | hw
    · exact hw hnone
    · rw [hpending] at hw
      cases hw
  · intro hlost
    by_cases hnone : s.scheduled = none
    · right
      by_contra hp
      exact hlost ⟨hasleep, hnone, Bool.not_eq_true _ ▸ hp⟩
    · exact .inl hnone

/-- Only the call of `sigsuspend` can go wrong. -/
theorem phase_step {a : Act} (h : Phase c s s.pc) (hs : step c s a = some s')
    (hwake : s.pc = .suspend → a = .main → Waking s) : Phase c s' s'.pc := by
  unfold step at hs
  split at hs
  · cases a with
    | main =>
      simp only at hs
      split at hs
      · rename_i hf
        exact h.main (List.isEmpty_iff.1 hf) hs (fun hpc => hwake hpc rfl)
      · cases hs
    | handler =>
      simp only at hs
      split at hs
      · cases hs
      · cases hs
        exact Phase.keep h ⟨rfl, rfl, rfl, rfl, rfl⟩ (fun hb => hb.leave)
          (fun _ hf => by change s.signals.frames.tail = []; rw [hf]; rfl) (fun hn => hn) (fun _ _ hw => hw)
    | deliver sig => exact h.deliver hs
    | arrive sig =>
      cases hs
      exact h.send sig
    | elapse left =>
      simp only at hs
      split at hs
      · rename_i r hr
        split at hs
        · cases hs
          exact Phase.keep h ⟨rfl, rfl, rfl, rfl, rfl⟩ (fun hb => hb) (fun _ hf => hf)
            (fun hn => by cases hr.symm.trans hn) (fun _ _ _ => .inl (fun he => by cases he))
        · cases hs
      · cases hs
    | expire =>
      simp only at hs
      split at hs
      · cases hs
        exact h.expire
      · cases hs
  · cases hs

/-- `sigsuspend` sleeps after the step only where the phase has a wake-up on its way. -/
theorem Phase.woken (h : Phase c s s.pc) : ¬ Lost s := fun hl => by
  have hasleep := hl.asleep
  rw [hasleep] at h
  exact (Waking.iff_not_lost hasleep).1 h.2.2 hl

theorem Kept.iff {d : Disposition} (h : Kept c s d) : d = c.action ↔ s.reset = false := by
  rcases h with ⟨hr, hd⟩ | ⟨hr, hd, n, ha⟩
  · exact iff_of_true hd hr
  · refine iff_of_false (fun he => ?_) (by rw [hr]; decide)
    rw [hd, ha] at he
    cases he

theorem main_step (hs : step c s .main = some s') : s.signals.frames = [] ∧ mainStep c s = some s' := by
  unfold step at hs
  split at hs
  · simp only at hs
    split at hs
    · rename_i hf
      exact ⟨List.isEmpty_iff.1 hf, hs⟩
    · cases hs
  · cases hs

theorem take_pc (c : Call) (s : State) (sig : Sig) :
    (take c s sig).pc = s.pc ∨ (take c s sig).pc = .cancel ∨ ∃ x, (take c s sig).pc = .killed x := by
  have hcaught : ∀ blocks, (caught s sig blocks).pc = s.pc ∨ (caught s sig blocks).pc = .cancel := by
    intro blocks
    unfold caught
    dsimp only
    split
    · exact .inr rfl
    · exact .inl rfl
  cases sig with
  | sigalrm =>
    unfold take
    cases s.action with
    | SIG_DFL => exact .inr (.inr ⟨_, rfl⟩)
    | SIG_IGN => exact .inl rfl
    | sigAlarm => exact (hcaught _).imp_right .inl
    | caller n resethand =>
      cases resethand with
      | false => exact (hcaught _).imp_right .inl
      | true => exact (hcaught (c.blocks .sigalrm)).imp_right .inl
  | other n =>
    unfold take
    dsimp only
    cases c.reaction n with
    | catches => exact (hcaught _).imp_right .inl
    | ignores => exact .inl rfl
    | dies => exact .inr (.inr ⟨_, rfl⟩)

theorem send_pc (s : State) (sig : Sig) : (send s sig).pc = s.pc := by
  unfold send
  split
  · rfl
  · rfl

theorem env_pc {a : Act} (ha : a ≠ .main) (hs : step c s a = some s') :
    alive s.pc = true ∧ (s'.pc = s.pc ∨ s'.pc = .cancel ∨ ∃ x, s'.pc = .killed x) := by
  unfold step at hs
  split at hs
  · rename_i halive
    refine ⟨halive, ?_⟩
    cases a with
    | main => exact absurd rfl ha
    | handler =>
      simp only at hs
      split at hs
      · cases hs
      · cases hs
        exact .inl rfl
    | deliver sig =>
      unfold deliverStep at hs
      simp only at hs
      split at hs
      · cases hs
        exact take_pc c s sig
      · cases hs
    | arrive sig =>
      cases hs
      exact .inl (send_pc s sig)
    | elapse left =>
      simp only at hs
      split at hs
      · split at hs
        · cases hs
          exact .inl rfl
        · cases hs
      · cases hs
    | expire =>
      simp only at hs
      split at hs
      · cases hs
        exact .inl (send_pc _ _)
      · cases hs
  · cases hs

theorem returned_step {a : Act} (hs : step c s a = some s') (hpc : s'.pc = .returned) :
    a = .main ∧ s.pc = .ret ∧ s' = { s with pc := .returned } := by
  by_cases ha : a = .main
  · rw [ha] at hs
    have hmain := (main_step hs).2
    unfold mainStep at hmain
    cases hp : s.pc with
    | ret =>
      rw [hp] at hmain
      exact ⟨ha, rfl, (Option.some.inj hmain).symm⟩
    | install | block | alarm | suspend | cancel | restoreAction | restoreMask =>
      rw [hp] at hmain
      cases hmain
      cases hpc
    | asleep | returned | killed sig =>
      rw [hp] at hmain
      cases hmain
  · obtain ⟨halive, hkeep | hcancel | ⟨x, hkilled⟩⟩ := env_pc ha hs
    · rw [← hkeep, hpc] at halive
      cases halive
    · cases hpc.symm.trans hcancel
    · cases hpc.symm.trans hkilled

theorem suspend_step (hpc : s.pc = .suspend) (hs : step c s .main = some s') : s' = { s with pc := .asleep } := by
  have hmain := (main_step hs).2
  unfold mainStep at hmain
  rw [hpc] at hmain
  exact (Option.some.inj hmain).symm

theorem waking_iff_sound (h : Phase c s s.pc) (hpc : s.pc = .suspend) : Waking s ↔ sound c s .main = true := by
  rw [hpc] at h
  have hsched := h.2.2
  unfold sound Waking
  rw [hpc]
  dsimp only
  rw [Bool.or_eq_true, decide_eq_true_eq]
  by_cases hzero : c.seconds = 0
  · rw [if_pos hzero] at hsched
    exact or_congr (iff_of_false (fun hn => hn hsched) (by omega)) Iff.rfl
  · rw [if_neg hzero] at hsched
    exact iff_of_true hsched (.inl (Nat.pos_of_ne_zero hzero))

/-- **A step comes to a state as it should be exactly if it is sound.** -/
theorem meets_iff {a : Act} (h : Phase c s s.pc) (hs : step c s a = some s') : Meets c s' ↔ sound c s a = true := by
  constructor
  · intro hmeets
    cases a with
    | main =>
      cases hpc : s.pc with
      | suspend =>
        have hwoken := hmeets.woken
        rw [suspend_step hpc hs] at hwoken
        exact (waking_iff_sound h hpc).1 ((Waking.iff_not_lost (s := { s with pc := .asleep }) rfl).2 hwoken)
      | ret =>
        have hret : s' = { s with pc := .returned } := by
          have hmain := (main_step hs).2
          unfold mainStep at hmain
          rw [hpc] at hmain
          exact (Option.some.inj hmain).symm
        rw [hpc] at h
        have hreset := h.1.iff.1 (by
          have hrestored := (hmeets.restored (by rw [hret])).action
          rw [hret] at hrestored
          exact hrestored)
        simp [sound, hpc, hreset]
      | _ => simp [sound, hpc]
    | _ => rfl
  · intro hsound
    have hphase := phase_step h hs (fun hpc ha => (waking_iff_sound h hpc).2 (ha ▸ hsound))
    refine ⟨hphase.woken, fun hpc => ?_⟩
    obtain ⟨rfl, hret, rfl⟩ := returned_step hs hpc
    refine ⟨hphase.1.iff.2 ?_, hphase.2⟩
    simpa [sound, hret] using hsound

end Steps

/-- **In every run, the states that it comes to are as they should be exactly if its steps are sound.** -/
theorem mysleep_iff (c : Call) (pending : Sig → Bool) (scheduled : Option Nat) (as : List Act) :
    Along (step c) (fun _ _ s' => Meets c s') as (init c pending scheduled) ↔
      Along (step c) (fun s a _ => sound c s a = true) as (init c pending scheduled) := by
  have hinv : ∀ s a s', Phase c s s.pc → step c s a = some s' → Meets c s' → Phase c s' s'.pc := by
    intro s a s' h hs hmeets
    refine phase_step h hs (fun hpc ha => (waking_iff_sound h hpc).2 ?_)
    rw [← ha]
    exact (meets_iff h hs).1 hmeets
  exact along_iff hinv (fun _ _ _ h hs => meets_iff h hs) as _ ⟨.inl ⟨rfl, rfl⟩, rfl⟩

/-- `mysleep(0)`, where nothing is blocked and SIGALRM is at its default action. -/
def zero : Call := ⟨0, .SIG_DFL, fun _ => false, fun _ => .dies, fun _ _ => false⟩

def toSuspend : List Act := [.main, .main, .main]

/-- **`mysleep(0)` sleeps with no alarm.** -/
theorem mysleep_zero : ∃ s s', run (step zero) toSuspend (init zero (fun _ => false) none) = some s ∧
    step zero s .main = some s' ∧ Lost s' ∧
    ¬ Along (step zero) (fun _ _ s' => Meets zero s') (toSuspend ++ [.main]) (init zero (fun _ => false) none) := by
  refine ⟨_, _, rfl, rfl, ⟨rfl, rfl, rfl⟩, fun h => ?_⟩
  exact (Along.last rfl toSuspend _ h rfl).woken ⟨rfl, rfl, rfl⟩

end Ch10Sleep
end Cc
