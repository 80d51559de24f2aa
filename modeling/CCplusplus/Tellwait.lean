import CCplusplus.Lib.Machine
import Mathlib.Logic.Function.Basic
/-!
# Tellwait — `apue/lib/tellwait.c`, for a process that forks and the two that use it

One process calls `TELL_WAIT` and then `fork`.  A process after that is what it does: it writes characters, tells the
other, and waits for it.  An action is the next statement of a process, the delivery of a signal to it, or a signal that
somebody else sends it.  What `fork` leaves both with is the handler for both signals, a mask that blocks them over the
inherited one, and `sigflag`, which a signal has set that came after the handlers were there and before the mask was.
The handler is one assignment, and nothing of its process runs in between.
-/
namespace Cc
namespace Tellwait

open CLib

inductive Who where
  | parent
  | child
deriving DecidableEq, Repr

def Who.other : Who → Who
  | .parent => .child
  | .child => .parent

inductive Sig where
  | sigusr1
  | sigusr2
deriving DecidableEq, Repr

/-- The signal of `TELL_PARENT` and of `TELL_CHILD`. -/
def Who.told : Who → Sig
  | .parent => .sigusr2
  | .child => .sigusr1

inductive Stmt where
  | put (c : Char)
  /-- `TELL_PARENT` or `TELL_CHILD` -/
  | tell
  /-- `WAIT_PARENT` or `WAIT_CHILD` -/
  | wait
deriving DecidableEq, Repr

inductive Ending where
  | exit (status : Int)
  | errSys (msg : String)
  /-- by a signal that had no handler -/
  | killed (sig : Sig)
deriving DecidableEq, Repr

inductive Pc where
  /-- the next statement of the script -/
  | next
  /-- `sigflag == 0` -/
  | test
  | suspend
  /-- in `sigsuspend` -/
  | asleep
  /-- `sigflag = 0` -/
  | clear
  | restore
  | ended (e : Ending)
deriving DecidableEq, Repr

structure Proc where
  script : List Stmt
  pc : Pc
  mask : Sig → Bool
  pending : Sig → Bool
  sigflag : Int

structure State where
  proc : Who → Proc
  printed : List (Who × Char)

def newmask : Sig → Bool := fun _ => true

/-- A process after a `TELL_WAIT` that no signal has met, and `fork`. -/
def Proc.start (oldmask : Sig → Bool) (script : List Stmt) : Proc where
  script := script
  pc := .next
  mask := fun sig => newmask sig || oldmask sig
  pending := fun _ => false
  sigflag := 0

/-- The two after that. -/
def State.start (oldmask : Sig → Bool) (script : Who → List Stmt) : State where
  proc := fun who => .start oldmask (script who)
  printed := []

inductive Act where
  /-- a statement, and whether the call in it succeeds -/
  | go (who : Who) (success : Bool)
  | deliver (who : Who) (sig : Sig)
  /-- somebody else sends a signal -/
  | signal (who : Who) (sig : Sig)
deriving DecidableEq, Repr

def Pc.alive : Pc → Bool
  | .ended _ => false
  | _ => true

/-- A process that has ended gets no signal. -/
def Proc.arrive (p : Proc) (sig : Sig) : Proc :=
  if p.pc.alive then { p with pending := Function.update p.pending sig true } else p

/-- The next statement of a process, with the character that it writes or its `tell`. -/
def Proc.go (oldmask : Sig → Bool) (p : Proc) (success : Bool) : Option (Proc × Option Stmt) :=
  match p.pc with
  | .next =>
    match p.script with
    | [] => some ({ p with pc := .ended (.exit 0) }, none)
    | .put c :: rest => some ({ p with script := rest }, some (.put c))
    | .tell :: rest => some ({ p with script := rest }, some .tell)
    | .wait :: rest => some ({ p with script := rest, pc := .test }, none)
  | .test => some ({ p with pc := if p.sigflag = 0 then .suspend else .clear }, none)
  | .suspend => some ({ p with pc := .asleep }, none)
  | .asleep => none
  | .clear => some ({ p with sigflag := 0, pc := .restore }, none)
  | .restore =>
    if success then some ({ p with mask := oldmask, pc := .next }, none)
    else some ({ p with pc := .ended (.errSys "SIG_SETMASK error") }, none)
  | .ended _ => none

/-- `sig_usr` runs; `sigsuspend` sleeps under the empty mask and returns after a handler. -/
def Proc.deliver (p : Proc) (sig : Sig) : Option Proc :=
  if p.pc.alive && p.pending sig && (decide (p.pc = .asleep) || !p.mask sig) then
    some { p with
      pending := Function.update p.pending sig false
      sigflag := 1
      pc := if p.pc = .asleep then .test else p.pc }
  else none

def State.set (s : State) (who : Who) (p : Proc) : State := { s with proc := Function.update s.proc who p }

/-- What a statement does outside its process. -/
def State.emit (s : State) (who : Who) : Option Stmt → State
  | some (.put c) => { s with printed := s.printed ++ [(who, c)] }
  | some .tell => s.set who.other ((s.proc who.other).arrive who.other.told)
  | some .wait => s
  | none => s

def step (oldmask : Sig → Bool) (s : State) : Act → Option State
  | .go who success => ((s.proc who).go oldmask success).map (fun r => (s.set who r.1).emit who r.2)
  | .deliver who sig => ((s.proc who).deliver sig).map (s.set who)
  | .signal who sig => some (s.set who ((s.proc who).arrive sig))

/-! ## Before `fork` -/

/-- The next statement of the process that forks. -/
inductive SetupPc where
  /-- `signal(SIGUSR1, sig_usr)` -/
  | sigusr1
  | sigusr2
  /-- `sigprocmask(SIG_BLOCK, &newmask, &oldmask)` -/
  | block
  | fork
deriving DecidableEq, Repr

structure Setup where
  pc : SetupPc
  /-- the signals that have the handler -/
  handled : Sig → Bool
  mask : Sig → Bool
  pending : Sig → Bool
  sigflag : Int

inductive System where
  | setup (p : Setup)
  | forked (s : State)
  /-- the process has ended before `fork` -/
  | ended (e : Ending)

/-- `TELL_WAIT` is called. -/
def init (oldmask : Sig → Bool) : System := .setup ⟨.sigusr1, fun _ => false, oldmask, fun _ => false, 0⟩

/-- Both go on where `fork` returns; the child has no signal pending. -/
def Setup.forked (p : Setup) (script : Who → List Stmt) : State where
  proc
    | .parent => ⟨script .parent, .next, p.mask, p.pending, p.sigflag⟩
    | .child => ⟨script .child, .next, p.mask, fun _ => false, p.sigflag⟩
  printed := []

def Setup.go (script : Who → List Stmt) (p : Setup) (success : Bool) : System :=
  match p.pc with
  | .sigusr1 =>
    if success then .setup { p with handled := Function.update p.handled .sigusr1 true, pc := .sigusr2 }
    else .ended (.errSys "signal(SIGUSR1) error")
  | .sigusr2 =>
    if success then .setup { p with handled := Function.update p.handled .sigusr2 true, pc := .block }
    else .ended (.errSys "signal(SIGUSR2) error")
  | .block =>
    if success then .setup { p with mask := fun sig => newmask sig || p.mask sig, pc := .fork }
    else .ended (.errSys "SIG_BLOCK error")
  | .fork => if success then .forked (p.forked script) else .ended (.errSys "fork error")

/-- `sig_usr` runs, or the process ends where the signal has no handler yet. -/
def Setup.deliver (p : Setup) (sig : Sig) : Option System :=
  if p.pending sig && !p.mask sig then
    some (if p.handled sig then .setup { p with pending := Function.update p.pending sig false, sigflag := 1 }
      else .ended (.killed sig))
  else none

def Setup.arrive (p : Setup) (sig : Sig) : Setup := { p with pending := Function.update p.pending sig true }

def System.step (oldmask : Sig → Bool) (script : Who → List Stmt) : System → Act → Option System
  | .setup p, .go .parent success => some (p.go script success)
  | .setup p, .deliver .parent sig => p.deliver sig
  | .setup p, .signal .parent sig => some (.setup (p.arrive sig))
  | .setup _, _ => none
  | .forked s, a => (Tellwait.step oldmask s a).map .forked
  | .ended _, _ => none

def System.printed : System → List (Who × Char)
  | .forked s => s.printed
  | _ => []

/-- What `TELL_WAIT` has done so far. -/
structure Setup.Sound (oldmask : Sig → Bool) (p : Setup) : Prop where
  first : p.pc ≠ .sigusr1 → p.handled .sigusr1 = true
  second : p.pc = .block ∨ p.pc = .fork → p.handled .sigusr2 = true
  mask : p.mask = if p.pc = .fork then fun sig => newmask sig || oldmask sig else oldmask

theorem Setup.Sound.start (oldmask : Sig → Bool) :
    Setup.Sound oldmask ⟨.sigusr1, fun _ => false, oldmask, fun _ => false, 0⟩ :=
  ⟨fun h => absurd rfl h, (fun h => by rcases h with h | h <;> cases h), rfl⟩

/-- A signal changes neither where the process is, nor its handlers, nor its mask. -/
theorem Setup.Sound.same {oldmask : Sig → Bool} {p p' : Setup} (h : p.Sound oldmask) (hpc : p'.pc = p.pc)
    (hhandled : p'.handled = p.handled) (hmask : p'.mask = p.mask) : p'.Sound oldmask := by
  obtain ⟨pc', handled', mask', pending', sigflag'⟩ := p'
  cases hpc
  cases hhandled
  cases hmask
  exact ⟨h.first, h.second, h.mask⟩

/-- **What the process comes to before `fork`**: it has ended, or its set-up goes on soundly, or both processes start. -/
theorem Setup.Sound.go {oldmask : Sig → Bool} {p : Setup} (h : p.Sound oldmask) (script : Who → List Stmt)
    (success : Bool) :
    (∃ e, p.go script success = .ended e) ∨
    (∃ p', p.go script success = .setup p' ∧ p'.Sound oldmask ∧ p'.pending = p.pending ∧ p'.sigflag = p.sigflag ∧
      ∀ sig, p.mask sig = true → p'.mask sig = true) ∨
    p.pc = .fork ∧ p.go script success = .forked (p.forked script) := by
  have hmask := h.mask
  unfold Setup.go
  cases success with
  | false => exact .inl (by cases p.pc <;> exact ⟨_, rfl⟩)
  | true =>
    right
    cases hpc : p.pc with
    | sigusr1 =>
      rw [hpc] at hmask
      refine .inl ⟨_, rfl, ⟨fun _ => ?_, (fun h => by rcases h with h | h <;> cases h), hmask⟩, rfl, rfl, fun _ hm => hm⟩
      exact Function.update_self .sigusr1 true p.handled
    | sigusr2 =>
      rw [hpc] at hmask
      have hfirst := h.first (by rw [hpc]; decide)
      refine .inl ⟨_, rfl, ⟨fun _ => ?_, fun _ => ?_, hmask⟩, rfl, rfl, fun _ hm => hm⟩
      · exact (Function.update_of_ne (show Sig.sigusr1 ≠ .sigusr2 by decide) true p.handled).trans hfirst
      · exact Function.update_self .sigusr2 true p.handled
    | block =>
      rw [hpc] at hmask
      refine .inl ⟨_, rfl, ⟨fun _ => h.first (by rw [hpc]; decide), fun _ => h.second (.inl hpc), ?_⟩, rfl, rfl,
        fun _ _ => rfl⟩
      exact congrArg (fun mask sig => newmask sig || mask sig) hmask
    | fork => exact .inr ⟨rfl, rfl⟩

/-- **What a step before `fork` is**: the next statement, a signal that is delivered, or one that is sent. -/
theorem System.step_setup {oldmask : Sig → Bool} {script : Who → List Stmt} {p : Setup} {a : Act} {sys : System}
    (hs : System.step oldmask script (.setup p) a = some sys) :
    (∃ success, a = .go .parent success ∧ sys = p.go script success) ∨
    (∃ sig, a = .deliver .parent sig ∧ p.pending sig = true ∧ p.mask sig = false ∧
      (sys = .ended (.killed sig) ∨
        sys = .setup { p with pending := Function.update p.pending sig false, sigflag := 1 })) ∨
    (∃ sig, a = .signal .parent sig ∧ sys = .setup (p.arrive sig)) := by
  cases a with
  | go who success =>
    cases who with
    | parent => exact .inl ⟨success, rfl, (Option.some.inj hs).symm⟩
    | child => cases hs
  | deliver who sig =>
    cases who with
    | parent =>
      simp only [System.step, Setup.deliver] at hs
      split at hs
      · rename_i hopen
        simp only [Bool.and_eq_true, Bool.not_eq_true'] at hopen
        refine .inr (.inl ⟨sig, rfl, hopen.1, hopen.2, ?_⟩)
        cases hs
        split
        · exact .inr rfl
        · exact .inl rfl
      · cases hs
    | child => cases hs
  | signal who sig =>
    cases who with
    | parent => exact .inr (.inr ⟨sig, rfl, (Option.some.inj hs).symm⟩)
    | child => cases hs

theorem Setup.Sound.step {oldmask : Sig → Bool} {script : Who → List Stmt} {p : Setup} (h : p.Sound oldmask) {a : Act}
    {sys : System} (hs : System.step oldmask script (.setup p) a = some sys) :
    (∃ e, sys = .ended e) ∨ (∃ p', sys = .setup p' ∧ p'.Sound oldmask) ∨
    p.pc = .fork ∧ sys = .forked (p.forked script) := by
  rcases System.step_setup hs with ⟨success, -, rfl⟩ | ⟨sig, -, -, -, rfl | rfl⟩ | ⟨sig, -, rfl⟩
  · rcases h.go script success with hended | ⟨p', hgo, hsound, -⟩ | hfork
    · exact .inl hended
    · exact .inr (.inl ⟨p', hgo, hsound⟩)
    · exact .inr (.inr hfork)
  · exact .inl ⟨_, rfl⟩
  · exact .inr (.inl ⟨_, rfl, h.same rfl rfl rfl⟩)
  · exact .inr (.inl ⟨_, rfl, h.same rfl rfl rfl⟩)

/-- A property of the two processes, with a sound set-up before them. -/
def System.Holds (oldmask : Sig → Bool) (Inv : State → Prop) : System → Prop
  | .setup p => p.Sound oldmask
  | .forked s => Inv s
  | .ended _ => True

/-- **The invariant rule for the two processes**: it holds where `fork` returns, and every step of the two keeps it. -/
theorem System.forked_inv {oldmask : Sig → Bool} {script : Who → List Stmt} (Inv : State → Prop)
    (hfork : ∀ p : Setup, p.Sound oldmask → p.pc = .fork → Inv (p.forked script))
    (hstep : ∀ s a s', Inv s → Tellwait.step oldmask s a = some s' → Inv s') {s : State} :
    Reach (System.step oldmask script) (init oldmask) (.forked s) → Inv s := by
  rintro ⟨as, hrun⟩
  refine run_inv (System.Holds oldmask Inv) (fun sys a sys' hi hs => ?_) as (init oldmask) (.forked s) (.start oldmask)
    hrun
  cases sys with
  | setup p =>
    rcases Setup.Sound.step hi hs with ⟨e, rfl⟩ | ⟨p', rfl, hsound⟩ | ⟨hpc, rfl⟩
    · exact trivial
    · exact hsound
    · exact hfork p hi hpc
  | forked s =>
    obtain ⟨s', hs', rfl⟩ := Option.map_eq_some_iff.1 hs
    exact hstep s a s' hi hs'
  | ended e => cases hs

@[simp] theorem Who.other_other (who : Who) : who.other.other = who := by cases who <;> rfl

@[simp] theorem Who.other_ne (who : Who) : who.other ≠ who := by cases who <;> decide

theorem Who.eq_or_other (who q : Who) : q = who ∨ q = who.other := by cases who <;> cases q <;> decide

@[simp] theorem State.set_proc (s : State) (who : Who) (p : Proc) : (s.set who p).proc who = p := by simp [State.set]

@[simp] theorem State.set_other (s : State) (who : Who) (p : Proc) : (s.set who p).proc who.other = s.proc who.other := by
  simp [State.set]

@[simp] theorem State.set_printed (s : State) (who : Who) (p : Proc) : (s.set who p).printed = s.printed := rfl

@[simp] theorem State.emit_proc (s : State) (who : Who) : ∀ e : Option Stmt, (s.emit who e).proc who = s.proc who
  | some (.put _) => rfl
  | some .tell => Function.update_of_ne who.other_ne.symm _ s.proc
  | some .wait => rfl
  | none => rfl

theorem State.emit_other (s : State) (who : Who) : ∀ e : Option Stmt, (s.emit who e).proc who.other
    = if e = some .tell then (s.proc who.other).arrive who.other.told else s.proc who.other
  | some (.put _) => rfl
  | some .tell => State.set_proc s who.other _
  | some .wait => rfl
  | none => rfl

/-- What a statement writes. -/
def written (who : Who) : Option Stmt → List (Who × Char)
  | some (.put c) => [(who, c)]
  | some .tell => []
  | some .wait => []
  | none => []

theorem State.emit_printed (s : State) (who : Who) : ∀ e : Option Stmt, (s.emit who e).printed = s.printed ++ written who e
  | some (.put _) => rfl
  | some .tell => (List.append_nil _).symm
  | some .wait => (List.append_nil _).symm
  | none => (List.append_nil _).symm

/-- What a step does to a process: a statement of its own, a signal, or nothing. -/
theorem step_proc {oldmask : Sig → Bool} {s s' : State} {a : Act} (hs : step oldmask s a = some s') (who : Who) :
    (∃ success e, a = .go who success ∧ (s.proc who).go oldmask success = some (s'.proc who, e)) ∨
    (∃ sig, a = .deliver who sig ∧ (s.proc who).deliver sig = some (s'.proc who)) ∨
    (∃ sig, s'.proc who = (s.proc who).arrive sig) ∨ s'.proc who = s.proc who := by
  cases a with
  | go q success =>
    obtain ⟨⟨p, e⟩, hp, rfl⟩ := Option.map_eq_some_iff.1 hs
    rcases q.eq_or_other who with rfl | rfl
    · refine .inl ⟨success, e, rfl, ?_⟩
      rw [State.emit_proc, State.set_proc, hp]
    · right
      right
      rw [State.emit_other, State.set_other]
      split
      · exact .inl ⟨_, rfl⟩
      · exact .inr rfl
  | deliver q sig =>
    obtain ⟨p, hp, rfl⟩ := Option.map_eq_some_iff.1 hs
    rcases q.eq_or_other who with rfl | rfl
    · refine .inr (.inl ⟨sig, rfl, ?_⟩)
      rw [State.set_proc, hp]
    · exact .inr (.inr (.inr (State.set_other s q p)))
  | signal q sig =>
    cases hs
    rcases q.eq_or_other who with rfl | rfl
    · exact .inr (.inr (.inl ⟨sig, State.set_proc s _ _⟩))
    · exact .inr (.inr (.inr (State.set_other s q _)))

@[simp] theorem State.set_set (s : State) (who : Who) (p q : Proc) : (s.set who p).set who q = s.set who q := by
  simp [State.set]

/-! ## Runs of the two processes alone -/

/-- No call fails, and nobody else sends a signal. -/
def calm {σ : Type} (_ : σ) : Act → Bool
  | .go _ success => success
  | .deliver _ _ => true
  | .signal _ _ => false

theorem System.step_forked (oldmask : Sig → Bool) (script : Who → List Stmt) (s : State) (a : Act) :
    restrict calm (System.step oldmask script) (.forked s) a = (restrict calm (Tellwait.step oldmask) s a).map .forked := by
  unfold restrict
  rw [show calm (System.forked s) a = calm s a from rfl]
  split
  · rfl
  · rfl

theorem System.reach_forked {oldmask : Sig → Bool} {s t : State} (script : Who → List Stmt)
    (h : Reach (restrict calm (Tellwait.step oldmask)) s t) :
    Reach (restrict calm (System.step oldmask script)) (.forked s) (.forked t) :=
  h.embed System.forked (fun s a s' hs => by rw [System.step_forked, hs]; rfl)

/-- A calm statement before `fork`, where no signal is pending. -/
theorem System.calm_setup {oldmask : Sig → Bool} {script : Who → List Stmt} {p : Setup}
    (hpending : p.pending = fun _ => false) {a : Act} {sys : System}
    (h : restrict calm (System.step oldmask script) (.setup p) a = some sys) : sys = p.go script true := by
  obtain ⟨hcalm, hstep⟩ := restrict_some h
  rcases System.step_setup hstep with ⟨success, rfl, rfl⟩ | ⟨sig, -, hsig, -⟩ | ⟨sig, rfl, -⟩
  · obtain rfl : success = true := hcalm
    rfl
  · rw [hpending] at hsig
    cases hsig
  · cases hcalm

theorem System.reach_setup (oldmask : Sig → Bool) (script : Who → List Stmt) (p : Setup) :
    Reach (restrict calm (System.step oldmask script)) (.setup p) (p.go script true) :=
  Reach.of_step (a := .go .parent true) rfl

/-- A `TELL_WAIT` that no signal has met, at `fork`. -/
def Setup.ready (oldmask : Sig → Bool) : Setup where
  pc := .fork
  handled := Function.update (Function.update (fun _ => false) .sigusr1 true) .sigusr2 true
  mask := fun sig => newmask sig || oldmask sig
  pending := fun _ => false
  sigflag := 0

theorem Setup.ready_go (oldmask : Sig → Bool) (script : Who → List Stmt) :
    (Setup.ready oldmask).go script true = .forked (.start oldmask script) :=
  congrArg System.forked (congrArg (State.mk · []) (funext fun who => by cases who <;> rfl))

/-- **A `TELL_WAIT` that no signal meets** leads to the two as they start, and to nothing else. -/
theorem System.inevitably_init {oldmask : Sig → Bool} {script : Who → List Stmt} {Q : System → Prop}
    (h : Inevitably (restrict calm (System.step oldmask script)) Q (.forked (.start oldmask script))) :
    Inevitably (restrict calm (System.step oldmask script)) Q (init oldmask) := by
  have hgo : ∀ p : Setup, p.pending = (fun _ => false) →
      Inevitably (restrict calm (System.step oldmask script)) Q (p.go script true) →
      Inevitably (restrict calm (System.step oldmask script)) Q (.setup p) := fun p hpending hnext =>
    .later ⟨.go .parent true, _, rfl⟩ (fun a sys hs => by rw [System.calm_setup hpending hs]; exact hnext)
  rw [← Setup.ready_go] at h
  exact hgo _ rfl (hgo _ rfl (hgo _ rfl (hgo (.ready oldmask) rfl h)))

theorem System.reach_init (oldmask : Sig → Bool) (script : Who → List Stmt) :
    Reach (restrict calm (System.step oldmask script)) (init oldmask) (.forked (.start oldmask script)) := by
  have hready : Reach (restrict calm (System.step oldmask script)) (init oldmask) (.setup (.ready oldmask)) :=
    (System.reach_setup oldmask script _).trans
      ((System.reach_setup oldmask script _).trans (System.reach_setup oldmask script _))
  rw [← Setup.ready_go]
  exact hready.trans (System.reach_setup oldmask script (.ready oldmask))

section Alone

variable (oldmask : Sig → Bool) {s : State} {who : Who}

theorem reach_go {p : Proc} {e : Option Stmt} (h : (s.proc who).go oldmask true = some (p, e)) :
    Reach (restrict calm (step oldmask)) s ((s.set who p).emit who e) :=
  Reach.of_step (a := .go who true) ((if_pos rfl).trans (Option.map_eq_some_iff.2 ⟨_, h, rfl⟩))

theorem reach_deliver {p : Proc} (sig : Sig) (h : (s.proc who).deliver sig = some p) :
    Reach (restrict calm (step oldmask)) s (s.set who p) :=
  Reach.of_step (a := .deliver who sig) ((if_pos rfl).trans (Option.map_eq_some_iff.2 ⟨_, h, rfl⟩))

variable {oldmask} in
/-- A statement that does nothing outside, after the process has come to `p`. -/
theorem reach_then {p q : Proc} (h : Reach (restrict calm (step oldmask)) s (s.set who p))
    (hgo : p.go oldmask true = some (q, none)) : Reach (restrict calm (step oldmask)) s (s.set who q) := by
  have hproc : ((s.set who p).proc who).go oldmask true = some (q, none) := by rw [State.set_proc, hgo]
  have hstep := reach_go oldmask hproc
  rw [State.set_set] at hstep
  exact h.trans hstep

/-- A process that waits comes to where it has tested its flag. -/
theorem reach_suspend {script rest : List Stmt} {mask pending : Sig → Bool} (hscript : script = .wait :: rest)
    (hs : s.proc who = ⟨script, .next, mask, pending, 0⟩) :
    Reach (restrict calm (step oldmask)) s (s.set who ⟨rest, .suspend, mask, pending, 0⟩) := by
  have hnext : Reach (restrict calm (step oldmask)) s (s.set who ⟨rest, .test, mask, pending, 0⟩) :=
    reach_go oldmask (e := none) (by rw [hs, hscript]; rfl)
  exact reach_then hnext rfl

/-- A process that sleeps is woken by a signal, and goes on. -/
theorem reach_woken {script : List Stmt} {mask pending : Sig → Bool} {sig : Sig} (hpending : pending sig = true)
    (hs : s.proc who = ⟨script, .asleep, mask, pending, 0⟩) :
    Reach (restrict calm (step oldmask)) s
      (s.set who ⟨script, .next, oldmask, Function.update pending sig false, 0⟩) := by
  have hdeliver : Reach (restrict calm (step oldmask)) s
      (s.set who ⟨script, .test, mask, Function.update pending sig false, 1⟩) :=
    reach_deliver oldmask sig (by rw [hs]; simp [Proc.deliver, Pc.alive, hpending])
  exact reach_then (reach_then (reach_then hdeliver rfl) rfl) rfl

/-- A signal that is let through between the test and `sigsuspend`. -/
theorem reach_lost {script : List Stmt} {mask pending : Sig → Bool} {sig : Sig} (hpending : pending sig = true)
    (hmask : mask sig = false) (hs : s.proc who = ⟨script, .suspend, mask, pending, 0⟩) :
    Reach (restrict calm (step oldmask)) s
      (s.set who ⟨script, .asleep, mask, Function.update pending sig false, 1⟩) := by
  have hdeliver : Reach (restrict calm (step oldmask)) s
      (s.set who ⟨script, .suspend, mask, Function.update pending sig false, 1⟩) :=
    reach_deliver oldmask sig (by rw [hs]; simp [Proc.deliver, Pc.alive, hpending, hmask])
  exact reach_then hdeliver rfl

end Alone

end Tellwait
end Cc
