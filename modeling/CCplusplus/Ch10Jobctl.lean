import CCplusplus.Lib.Machine
import CCplusplus.Lib.Signals
/-!
# Ch10Jobctl — `apue/ch10/ch10_jobctl.c`

An action is the next statement of `main`, which runs while no call of `sig_tstp` does, or of the innermost call, the
delivery of a SIGTSTP that is pending and not blocked, or the sending of a SIGTSTP or a SIGCONT, at any time.  A stopped
process does nothing until a SIGCONT is sent, which also discards a SIGTSTP that is pending.

`sig_tstp` blocks SIGTSTP, which is blocked already, where it ought to unblock it: the SIGTSTP that it sends to itself is
not delivered before the handler is installed again.  No call stops the process (`sig_tstp_iff`), and each is followed by
another (`endless`).
-/
namespace Cc
namespace Ch10Jobctl

open CLib

inductive Sig where
  | sigtstp
  | sigcont
deriving DecidableEq, Repr

/-- What the process does with SIGTSTP. -/
inductive Action where
  | SIG_DFL
  | SIG_IGN
  | sigTstp
deriving DecidableEq, Repr

/-- The next statement of `sig_tstp`. -/
inductive HandlerPc where
  /-- `sigprocmask(SIG_BLOCK, &mask, NULL)` -/
  | block
  /-- `signal(SIGTSTP, SIG_DFL)` -/
  | setDefault
  | kill
  /-- `signal(SIGTSTP, sig_tstp)` -/
  | install
  | ret
deriving DecidableEq, Repr

/-- A call of `sig_tstp`, and how often the process had stopped before. -/
structure Call where
  pc : HandlerPc
  before : Nat

inductive Ending where
  | exit (status : Int)
  | errSys (msg : String)
deriving DecidableEq, Repr

/-- The next statement of `main`. -/
inductive Pc where
  /-- `signal(SIGTSTP, SIG_IGN) == SIG_DFL` -/
  | ignore
  | install
  | read
  | write (n : Int)
  | ended (e : Ending)
deriving DecidableEq, Repr

structure State where
  pc : Pc
  signals : Signals Sig Call
  action : Action
  stopped : Bool
  /-- how often the process has stopped -/
  stops : Nat
  /-- a SIGTSTP that `sig_tstp` has sent is pending -/
  own : Bool

def init (mask : Sig → Bool) : State := ⟨.ignore, ⟨mask, fun _ => false, []⟩, .SIG_DFL, false, 0, false⟩

inductive Act where
  /-- a statement of `main`; `n` is what `read` or `write` returns -/
  | main (n : Int)
  | handler
  | deliver
  | tstp
  | cont
deriving DecidableEq, Repr

def discard (s : State) : State := { s with signals := s.signals.discard .sigtstp, own := false }

/-- `signal(SIGTSTP, action)`; what is ignored does not stay pending. -/
def signal (s : State) (action : Action) : State :=
  if action = .SIG_IGN then { discard s with action := action } else { s with action := action }

def send (s : State) (own : Bool) : State :=
  if s.action = .SIG_IGN then s else { s with signals := s.signals.arrive .sigtstp, own := s.own || own }

def take (s : State) : State :=
  match s.action with
  | .SIG_DFL => { discard s with stopped := true, stops := s.stops + 1 }
  | .SIG_IGN => discard s
  | .sigTstp => { s with signals := s.signals.deliver .sigtstp s.signals.inForce ⟨.block, s.stops⟩, own := false }

def deliverStep (s : State) : Option State :=
  if s.signals.pending .sigtstp && !s.signals.inForce .sigtstp then some (take s) else none

/-- `kill(getpid(), SIGTSTP)`: a signal that is not blocked is delivered before the call returns. -/
def kill (s : State) : State := (deliverStep (send s true)).getD (send s true)

def mask : Sig → Bool := fun sig => decide (sig = .sigtstp)

def goOn (s : State) (before : Nat) (pc : HandlerPc) : State := { s with signals := s.signals.goOn ⟨pc, before⟩ }

/-- `sig_tstp` -/
def handlerStep (s : State) : Option State :=
  match s.signals.frames with
  | [] => none
  | f :: _ =>
    match f.pc.pc with
    | .block =>
      some (goOn { s with signals := s.signals.remask (fun m x => mask x || m x) } f.pc.before .setDefault)
    | .setDefault => some (goOn (signal s .SIG_DFL) f.pc.before .kill)
    | .kill => some (kill (goOn s f.pc.before .install))
    | .install => some (goOn (signal s .sigTstp) f.pc.before .ret)
    | .ret => some { s with signals := s.signals.leave }

def mainStep (s : State) (n : Int) : Option State :=
  match s.pc with
  | .ignore => some { signal s .SIG_IGN with pc := if s.action = .SIG_DFL then .install else .read }
  | .install => some { signal s .sigTstp with pc := .read }
  | .read =>
    some { s with
      pc := if 0 < n then .write n else if n < 0 then .ended (.errSys "read error") else .ended (.exit 0) }
  | .write m => some { s with pc := if n ≠ m then .ended (.errSys "write error") else .read }
  | .ended _ => none

def alive : Pc → Bool
  | .ended _ => false
  | _ => true

def step (s : State) (a : Act) : Option State :=
  if alive s.pc then
    match a with
    | .main n => if !s.stopped && s.signals.frames.isEmpty then mainStep s n else none
    | .handler => if !s.stopped then handlerStep s else none
    | .deliver => if !s.stopped then deliverStep s else none
    | .tstp => some (send s false)
    | .cont => some { discard s with stopped := false }
  else none

/-! ## A call of `sig_tstp` -/

/-- The call that returns, by how often the process had stopped before it. -/
def returns (s : State) : Act → Option Nat
  | .handler =>
    match s.signals.frames with
    | [] => none
    | f :: _ => if f.pc.pc = .ret then some f.pc.before else none
  | _ => none

/-- What a call that returns owes: one stop, the handler in place, and no SIGTSTP of its own that is pending. -/
structure Handled (before : Nat) (s : State) : Prop where
  stopped : s.stops = before + 1
  installed : s.action = .sigTstp
  settled : s.own = false

structure Inv (s : State) : Prop where
  /-- SIGTSTP is blocked in every call, and the process has not stopped since it began -/
  calls : ∀ f ∈ s.signals.frames, f.mask .sigtstp = true ∧ f.pc.before = s.stops
  running : s.signals.frames ≠ [] → s.stopped = false
  starting : s.pc = .ignore ∨ s.pc = .install → s.signals.frames = [] ∧ s.action ≠ .sigTstp

theorem inv_init (m : Sig → Bool) : Inv (init m) where
  calls := fun f hf => by cases hf
  running := fun h => absurd rfl h
  starting := fun _ => ⟨rfl, fun h => by cases h⟩

theorem Inv.blocked {s : State} (h : Inv s) {f : Frame Sig Call} {fs : List (Frame Sig Call)}
    (hf : s.signals.frames = f :: fs) : s.signals.inForce .sigtstp = true := by
  rw [Signals.inForce_cons hf]
  exact (h.calls f (by rw [hf]; exact List.mem_cons_self)).1

theorem Inv.past {s : State} (h : Inv s) (hf : s.signals.frames ≠ [] ∨ s.action = .sigTstp) :
    s.pc ≠ .ignore ∧ s.pc ≠ .install := by
  refine ⟨fun hpc => ?_, fun hpc => ?_⟩
  · obtain ⟨hn, ha⟩ := h.starting (.inl hpc)
    exact hf.elim (fun hf => hf hn) ha
  · obtain ⟨hn, ha⟩ := h.starting (.inr hpc)
    exact hf.elim (fun hf => hf hn) ha

/-- What changes neither the calls nor the stops. -/
theorem Inv.same {s s' : State} (h : Inv s) (hframes : s'.signals.frames = s.signals.frames) (hstops : s'.stops = s.stops)
    (hstopped : s'.stopped = s.stopped ∨ s'.stopped = false)
    (hstarting : s'.pc = .ignore ∨ s'.pc = .install → s.signals.frames = [] ∧ s'.action ≠ .sigTstp) : Inv s' where
  calls := fun f hf => by
    rw [hframes] at hf
    rw [hstops]
    exact h.calls f hf
  running := fun hf => by
    rw [hframes] at hf
    exact hstopped.elim (fun he => he.trans (h.running hf)) (fun he => he)
  starting := fun hpc => by
    rw [hframes]
    exact hstarting hpc

theorem Inv.call {s s' : State} (h : Inv s) {f : Frame Sig Call} {fs : List (Frame Sig Call)}
    (hf : s.signals.frames = f :: fs) {m : Sig → Bool} (hm : m .sigtstp = true) {pc : HandlerPc}
    (hframes : s'.signals.frames = ⟨f.sig, ⟨pc, f.pc.before⟩, m⟩ :: fs) (hstops : s'.stops = s.stops)
    (hstopped : s'.stopped = s.stopped) (hpc : s'.pc = s.pc) : Inv s' where
  calls := fun g hg => by
    rw [hframes] at hg
    rw [hstops]
    rcases List.mem_cons.1 hg with rfl | hg
    · exact ⟨hm, (h.calls f (by rw [hf]; exact List.mem_cons_self)).2⟩
    · exact h.calls g (by rw [hf]; exact List.mem_cons_of_mem f hg)
  running := fun _ => hstopped.trans (h.running (by rw [hf]; exact List.cons_ne_nil f fs))
  starting := fun hs => by
    rw [hpc] at hs
    obtain ⟨h1, h2⟩ := h.past (.inl (by rw [hf]; exact List.cons_ne_nil f fs))
    exact hs.elim (fun hs => absurd hs h1) (fun hs => absurd hs h2)

theorem send_eq (s : State) (own : Bool) : (send s own).signals.frames = s.signals.frames ∧
    (send s own).stops = s.stops ∧ (send s own).stopped = s.stopped ∧ (send s own).pc = s.pc ∧
    (send s own).action = s.action := by
  unfold send
  split
  · exact ⟨rfl, rfl, rfl, rfl, rfl⟩
  · exact ⟨rfl, rfl, rfl, rfl, rfl⟩

theorem goOn_signals {s : State} {f : Frame Sig Call} {fs : List (Frame Sig Call)} (hf : s.signals.frames = f :: fs)
    (before : Nat) (pc : HandlerPc) :
    (goOn s before pc).signals = { s.signals with frames := ⟨f.sig, ⟨pc, before⟩, f.mask⟩ :: fs } :=
  Signals.goOn_cons hf _

theorem kill_blocked {s : State} (h : s.signals.inForce .sigtstp = true) : kill s = send s true := by
  have hb : (send s true).signals.inForce .sigtstp = true := by
    unfold Signals.inForce at h ⊢
    rw [(send_eq s true).1]
    unfold send
    split
    · exact h
    · exact h
  unfold kill deliverStep
  rw [hb, Bool.not_true, Bool.and_false, if_neg (by decide)]
  rfl

theorem inv_handler {s s' : State} (h : Inv s) (hs : handlerStep s = some s') : Inv s' := by
  unfold handlerStep at hs
  cases hf : s.signals.frames with
  | nil =>
    rw [hf] at hs
    cases hs
  | cons f fs =>
    have hm : f.mask .sigtstp = true := (h.calls f (by rw [hf]; exact List.mem_cons_self)).1
    simp only [hf] at hs
    cases hpc : f.pc.pc with
    | block =>
      simp only [hpc] at hs
      cases hs
      have hre := Signals.remask_cons hf (fun m x => mask x || m x)
      have hframes : (goOn { s with signals := s.signals.remask (fun m x => mask x || m x) } f.pc.before
          .setDefault).signals.frames = ⟨f.sig, ⟨.setDefault, f.pc.before⟩, fun x => mask x || f.mask x⟩ :: fs := by
        unfold goOn
        rw [hre]
        rfl
      exact h.call hf (by simp [hm]) hframes rfl rfl rfl
    | setDefault =>
      simp only [hpc] at hs
      cases hs
      exact h.call hf hm (congrArg Signals.frames (goOn_signals (s := signal s .SIG_DFL) hf _ _)) rfl rfl rfl
    | kill =>
      simp only [hpc] at hs
      cases hs
      have hsig := goOn_signals hf f.pc.before .install
      rw [kill_blocked (by rw [hsig]; exact hm)]
      obtain ⟨hframes, hstops, hstopped, hpc', -⟩ := send_eq (goOn s f.pc.before .install) true
      exact h.call hf hm (by rw [hframes, hsig]) hstops hstopped hpc'
    | install =>
      simp only [hpc] at hs
      cases hs
      exact h.call hf hm (congrArg Signals.frames (goOn_signals (s := signal s .sigTstp) hf _ _)) rfl rfl rfl
    | ret =>
      simp only [hpc] at hs
      cases hs
      have hne : s.signals.frames ≠ [] := by
        rw [hf]
        exact List.cons_ne_nil f fs
      refine ⟨fun g hg => h.calls g (List.mem_of_mem_tail hg), fun _ => h.running hne, fun hst => ?_⟩
      obtain ⟨h1, h2⟩ := h.past (.inl hne)
      exact hst.elim (fun hst => absurd hst h1) (fun hst => absurd hst h2)

/-- What is delivered finds no call of `sig_tstp`. -/
theorem Inv.idle {s : State} (h : Inv s) (hb : s.signals.inForce .sigtstp = false) : s.signals.frames = [] := by
  cases hf : s.signals.frames with
  | nil => rfl
  | cons f fs => exact absurd (h.blocked hf) (by rw [hb]; decide)

theorem inv_deliver {s s' : State} (h : Inv s) (hrun : s.stopped = false) (hs : deliverStep s = some s') : Inv s' := by
  unfold deliverStep at hs
  split at hs
  · rename_i hcond
    cases hs
    simp only [Bool.and_eq_true, Bool.not_eq_true'] at hcond
    have hidle := h.idle hcond.2
    unfold take
    cases ha : s.action with
    | SIG_DFL =>
      refine ⟨fun f hf => ?_, fun hf => absurd hidle hf, fun hst => ⟨hidle, (h.starting hst).2⟩⟩
      change f ∈ s.signals.frames at hf
      rw [hidle] at hf
      cases hf
    | SIG_IGN => exact h.same rfl rfl (.inl rfl) h.starting
    | sigTstp =>
      refine ⟨fun f hf => ?_, fun _ => hrun, fun hst => absurd ha (h.starting hst).2⟩
      change f ∈ _ :: s.signals.frames at hf
      rw [hidle, List.mem_singleton] at hf
      rw [hf]
      exact ⟨by simp, rfl⟩
  · cases hs

theorem inv_main {s s' : State} {n : Int} (h : Inv s) (hf : s.signals.frames = []) (hs : mainStep s n = some s') :
    Inv s' := by
  unfold mainStep at hs
  cases hpc : s.pc with
  | ignore =>
    rw [hpc] at hs
    cases hs
    exact h.same rfl rfl (.inl rfl) (fun _ => ⟨hf, fun ha => by cases ha⟩)
  | install =>
    rw [hpc] at hs
    cases hs
    exact h.same rfl rfl (.inl rfl) (fun hst => by rcases hst with hst | hst <;> cases hst)
  | read =>
    rw [hpc] at hs
    cases hs
    refine h.same rfl rfl (.inl rfl) (fun hst => ?_)
    dsimp only at hst
    split at hst
    · rcases hst with hst | hst <;> cases hst
    · split at hst
      · rcases hst with hst | hst <;> cases hst
      · rcases hst with hst | hst <;> cases hst
  | write m =>
    rw [hpc] at hs
    cases hs
    refine h.same rfl rfl (.inl rfl) (fun hst => ?_)
    dsimp only at hst
    split at hst
    · rcases hst with hst | hst <;> cases hst
    · rcases hst with hst | hst <;> cases hst
  | ended e =>
    rw [hpc] at hs
    cases hs

theorem inv_step {s s' : State} {a : Act} (h : Inv s) (hs : step s a = some s') : Inv s' := by
  unfold step at hs
  split at hs
  · cases a with
    | main n =>
      simp only at hs
      split at hs
      · rename_i hcond
        simp only [Bool.and_eq_true, List.isEmpty_iff] at hcond
        exact inv_main h hcond.2 hs
      · cases hs
    | handler =>
      simp only at hs
      split at hs
      · exact inv_handler h hs
      · cases hs
    | deliver =>
      simp only at hs
      split at hs
      · rename_i hrun
        exact inv_deliver h (Bool.not_eq_true' _ ▸ hrun) hs
      · cases hs
    | tstp =>
      cases hs
      obtain ⟨hframes, hstops, hstopped, hpc, haction⟩ := send_eq s false
      exact h.same hframes hstops (.inl hstopped) (fun hst => by rw [haction]; exact h.starting (hpc ▸ hst))
    | cont =>
      cases hs
      exact h.same rfl rfl (.inr rfl) h.starting
  · cases hs

/-- **No call stops the process**: it has stopped as often when it returns as when it began. -/
theorem Inv.unstopped {s s' : State} {a : Act} (h : Inv s) {before : Nat} (hr : returns s a = some before)
    (hs : step s a = some s') : s'.stops = before := by
  cases a with
  | handler =>
    unfold returns at hr
    cases hf : s.signals.frames with
    | nil =>
      rw [hf] at hr
      cases hr
    | cons f fs =>
      simp only [hf] at hr
      split at hr
      · rename_i hpc
        cases hr
        unfold step handlerStep at hs
        simp only [hf, hpc] at hs
        split at hs
        · split at hs
          · cases hs
            exact (h.calls f (by rw [hf]; exact List.mem_cons_self)).2.symm
          · cases hs
        · cases hs
      · cases hr
  | main n | deliver | tstp | cont => cases hr

/-- **A run meets what the calls of `sig_tstp` owe exactly if none of them returns.** -/
theorem sig_tstp_iff (m : Sig → Bool) (as : List Act) :
    Along step (fun s a s' => ∀ before, returns s a = some before → Handled before s') as (init m) ↔
      Along step (fun s a _ => returns s a = none) as (init m) := by
  have hstep : ∀ s a s', Inv s → step s a = some s' →
      ((∀ before, returns s a = some before → Handled before s') ↔ returns s a = none) := by
    intro s a s' h hs
    constructor
    · intro hall
      cases hr : returns s a with
      | none => rfl
      | some before =>
        have hstops := (hall before hr).stopped
        rw [h.unstopped hr hs] at hstops
        omega
    · intro hnone before hr
      rw [hnone] at hr
      cases hr
  exact along_iff (fun s a s' h hs _ => inv_step h hs) hstep as (init m) (inv_init m)

/-- SIGTSTP comes once, and the call runs up to its return. -/
def oneTstp : List Act := [.main 0, .main 0, .tstp, .deliver, .handler, .handler, .handler, .handler]

/-- **The call returns, the process has not stopped, and the SIGTSTP that it sent to itself is pending.** -/
theorem sig_tstp_unstopped : ∃ s s', run step oneTstp (init (fun _ => false)) = some s ∧ returns s .handler = some 0 ∧
    step s .handler = some s' ∧ s'.stops = 0 ∧ s'.own = true ∧
    ¬ Along step (fun s a s' => ∀ before, returns s a = some before → Handled before s') (oneTstp ++ [.handler])
      (init (fun _ => false)) := by
  refine ⟨_, _, rfl, rfl, rfl, rfl, rfl, fun h => ?_⟩
  cases (Along.last rfl oneTstp _ h rfl 0 rfl).settled

/-! ## The calls that follow -/

/-- The SIGTSTP that the last call has sent waits for the next. -/
def Due (s : State) : Prop := s.signals.pending .sigtstp = true ∧ s.own = true ∧ s.action = .sigTstp

/-- What holds in a call, before each of its statements. -/
def Within (s : State) : HandlerPc → Prop
  | .kill => s.action = .SIG_DFL
  | .install => s.signals.pending .sigtstp = true ∧ s.own = true
  | .ret => Due s
  | _ => True

/-- A call runs, or the next one is due. -/
structure Endless (s : State) : Prop where
  running : s.stopped = false
  mask : s.signals.mask .sigtstp = false
  past : s.pc ≠ .ignore ∧ s.pc ≠ .install
  next : (s.signals.frames = [] ∧ Due s) ∨
    ∃ f, s.signals.frames = [f] ∧ f.mask .sigtstp = true ∧ Within s f.pc.pc

def noCont (_ : State) : Act → Bool
  | .cont => false
  | _ => true

/-- **A delivery to `sig_tstp` is the first of an endless series.** -/
theorem Endless.begin {s s' : State} (h : Inv s) (ha : s.action = .sigTstp) (hs : step s .deliver = some s') :
    Endless s' := by
  unfold step deliverStep at hs
  simp only at hs
  split at hs
  · split at hs
    · rename_i hrun
      split at hs
      · rename_i hcond
        cases hs
        simp only [Bool.and_eq_true, Bool.not_eq_true'] at hcond hrun
        have hidle := h.idle hcond.2
        rw [Signals.inForce_nil hidle] at hcond
        have htake : take s = { s with
            signals := s.signals.deliver .sigtstp s.signals.inForce ⟨.block, s.stops⟩, own := false } := by
          unfold take
          rw [ha]
        rw [htake]
        exact ⟨hrun, hcond.2, h.past (.inr ha),
          .inr ⟨⟨.sigtstp, ⟨.block, s.stops⟩, _⟩, congrArg (List.cons _) hidle, by simp, trivial⟩⟩
      · cases hs
    · cases hs
  · cases hs

theorem Due.send {s : State} (h : Due s) (own : Bool) : Due (send s own) := by
  unfold Ch10Jobctl.send
  rw [if_neg (by rw [h.2.2]; decide)]
  exact ⟨by simp, by simp [h.2.1], h.2.2⟩

theorem Within.send {s : State} {pc : HandlerPc} (h : Within s pc) (own : Bool) : Within (send s own) pc := by
  cases pc with
  | block | setDefault => trivial
  | kill => exact (send_eq s own).2.2.2.2.trans h
  | install =>
    unfold Ch10Jobctl.send
    split
    · exact h
    · exact ⟨by simp, by simp [h.2]⟩
  | ret => exact Due.send h own

namespace Endless

variable {s s' : State}

theorem goes (h : Endless s) {sig : Sig} {pc : HandlerPc} {before : Nat} {m : Sig → Bool}
    (hstopped : s'.stopped = s.stopped) (hpc : s'.pc = s.pc)
    (hsig : s'.signals.mask = s.signals.mask ∧ s'.signals.frames = [⟨sig, ⟨pc, before⟩, m⟩]) (hm : m .sigtstp = true)
    (hw : Within s' pc) : Endless s' where
  running := hstopped.trans h.running
  mask := (congrFun hsig.1 _).trans h.mask
  past := by
    rw [hpc]
    exact h.past
  next := .inr ⟨_, hsig.2, hm, hw⟩

theorem handler (h : Endless s) (hs : handlerStep s = some s') : Endless s' := by
  unfold handlerStep at hs
  rcases h.next with ⟨hf, -⟩ | ⟨f, hf, hm, hw⟩
  · rw [hf] at hs
    cases hs
  · simp only [hf] at hs
    cases hpc : f.pc.pc with
    | block =>
      simp only [hpc] at hs
      cases hs
      have hre := Signals.remask_cons hf (fun m x => Ch10Jobctl.mask x || m x)
      have hsig := goOn_signals (s := { s with signals := s.signals.remask (fun m x => Ch10Jobctl.mask x || m x) })
        (congrArg Signals.frames hre) f.pc.before .setDefault
      refine h.goes rfl rfl ⟨?_, congrArg Signals.frames hsig⟩ (by simp [hm]) trivial
      rw [hsig, hre]
    | setDefault =>
      simp only [hpc] at hs
      cases hs
      have hsig := goOn_signals (s := signal s .SIG_DFL) hf f.pc.before .kill
      refine h.goes rfl rfl ⟨?_, congrArg Signals.frames hsig⟩ hm rfl
      rw [hsig]
      rfl
    | kill =>
      simp only [hpc] at hs hw
      cases hs
      have hsig := goOn_signals hf f.pc.before .install
      rw [kill_blocked (by rw [hsig]; exact hm)]
      have hsend : send (goOn s f.pc.before .install) true = { goOn s f.pc.before .install with
          signals := (goOn s f.pc.before .install).signals.arrive .sigtstp, own := s.own || true } :=
        if_neg (fun ha => by cases ha.symm.trans hw)
      rw [hsend]
      refine h.goes rfl rfl ⟨?_, congrArg Signals.frames hsig⟩ hm ⟨by simp, by simp⟩
      rw [hsig]
      rfl
    | install =>
      simp only [hpc] at hs hw
      cases hs
      have hsig := goOn_signals (s := signal s .sigTstp) hf f.pc.before .ret
      refine h.goes rfl rfl ⟨?_, congrArg Signals.frames hsig⟩ hm ⟨?_, hw.2, rfl⟩
      · rw [hsig]
        rfl
      · rw [hsig]
        exact hw.1
    | ret =>
      simp only [hpc] at hs hw
      cases hs
      exact ⟨h.running, h.mask, h.past, .inl ⟨congrArg List.tail hf, hw⟩⟩

theorem deliver (h : Endless s) (hs : deliverStep s = some s') : Endless s' := by
  unfold deliverStep at hs
  split at hs
  · rename_i hcond
    cases hs
    simp only [Bool.and_eq_true, Bool.not_eq_true'] at hcond
    rcases h.next with ⟨hf, hdue⟩ | ⟨f, hf, hm, -⟩
    · have htake : take s = { s with
          signals := s.signals.deliver .sigtstp s.signals.inForce ⟨.block, s.stops⟩, own := false } := by
        unfold take
        rw [hdue.2.2]
      rw [htake]
      exact h.goes rfl rfl ⟨rfl, congrArg (List.cons _) hf⟩ (by simp) trivial
    · rw [Signals.inForce_cons hf, hm] at hcond
      cases hcond.2
  · cases hs

theorem main (h : Endless s) {n : Int} (hf : s.signals.frames = []) (hs : mainStep s n = some s') : Endless s' := by
  have hdue : Due s := by
    rcases h.next with ⟨-, hdue⟩ | ⟨f, hf', -, -⟩
    · exact hdue
    · cases hf.symm.trans hf'
  unfold mainStep at hs
  cases hpc : s.pc with
  | ignore => exact absurd hpc h.past.1
  | install => exact absurd hpc h.past.2
  | read =>
    rw [hpc] at hs
    cases hs
    refine ⟨h.running, h.mask, ?_, .inl ⟨hf, hdue⟩⟩
    dsimp only
    split
    · exact ⟨by simp, by simp⟩
    · split
      · exact ⟨by simp, by simp⟩
      · exact ⟨by simp, by simp⟩
  | write m =>
    rw [hpc] at hs
    cases hs
    refine ⟨h.running, h.mask, ?_, .inl ⟨hf, hdue⟩⟩
    dsimp only
    split
    · exact ⟨by simp, by simp⟩
    · exact ⟨by simp, by simp⟩
  | ended e =>
    rw [hpc] at hs
    cases hs

theorem sent (h : Endless s) (own : Bool) : Endless (send s own) := by
  obtain ⟨hframes, -, hstopped, hpc, -⟩ := send_eq s own
  refine ⟨hstopped.trans h.running, ?_, by rw [hpc]; exact h.past, ?_⟩
  · unfold send
    split
    · exact h.mask
    · exact h.mask
  · rw [hframes]
    exact h.next.imp (fun hn => ⟨hn.1, hn.2.send own⟩)
      (fun ⟨f, hf, hm, hw⟩ => ⟨f, hf, hm, hw.send own⟩)

theorem step {a : Act} (h : Endless s) (hok : noCont s a = true) (hs : Ch10Jobctl.step s a = some s') : Endless s' := by
  unfold Ch10Jobctl.step at hs
  rw [h.running] at hs
  split at hs
  · cases a with
    | main n =>
      simp only at hs
      split at hs
      · rename_i hcond
        exact h.main (List.isEmpty_iff.1 (Bool.and_eq_true_iff.1 hcond).2) hs
      · cases hs
    | handler => exact h.handler hs
    | deliver => exact h.deliver hs
    | tstp =>
      cases hs
      exact h.sent false
    | cont => cases hok
  · cases hs

theorem again (h : Endless s) (hf : s.signals.frames = []) (ha : alive s.pc = true) :
    ∃ s', Ch10Jobctl.step s .deliver = some s' ∧ s'.signals.frames ≠ [] := by
  rcases h.next with ⟨-, hp, -, haction⟩ | ⟨f, hf', -, -⟩
  · refine ⟨take s, ?_, ?_⟩
    · unfold Ch10Jobctl.step deliverStep
      simp [ha, h.running, hp, Signals.inForce_nil hf, h.mask]
    · unfold take
      rw [haction]
      exact List.cons_ne_nil _ _
  · cases hf.symm.trans hf'

end Endless

/-- **Once SIGTSTP has been delivered to `sig_tstp`, and until a SIGCONT is sent, a call runs or the next one is due**, and
the process does not stop. -/
theorem endless {m : Sig → Bool} {as bs : List Act} {s s' t : State} (h : run step as (init m) = some s)
    (ha : s.action = .sigTstp) (hs : step s .deliver = some s') (ht : run (restrict noCont step) bs s' = some t) :
    Endless t :=
  restrict_inv Endless (fun _ _ _ he hok hs => he.step hok hs) bs s' t
    (Endless.begin (run_inv Inv (fun _ _ _ hi hs => inv_step hi hs) as (init m) s (inv_init m) h) ha hs) ht

end Ch10Jobctl
end Cc
