import CCplusplus.Lib.Machine
import Mathlib.Logic.Function.Basic
/-!
# TtyModes — `apue/lib/ttymodes.c`, which puts a terminal into a mode and brings it back

The attributes of the terminals are changed by nobody else.  A `tcsetattr` that returns 0 may have made only some of the
changes, bit for bit; `tty_cbreak` and `tty_raw` look again, and what they leave is the mode in full (`cbreak_exact`,
`raw_exact`).  There is one saved mode, and `tty_reset` does not ask whose it is.

Where `tty_reset` is called for the terminal that was saved, and what brings attributes back makes all the changes, all
the terminals are as they were whenever the state is RESET (`tty_restores`).  A `tty_reset` for another terminal leaves
the first in its mode for good, and the other with the first's attributes (`tty_reset_other`).
-/
namespace Cc
namespace TtyModes

open CLib

/-- `struct termios` -/
@[ext]
structure Termios where
  c_iflag : BitVec 32
  c_oflag : BitVec 32
  c_cflag : BitVec 32
  c_lflag : BitVec 32
  c_cc : Nat → BitVec 8

def ECHO : BitVec 32 := 0x8
def ICANON : BitVec 32 := 0x2
def IEXTEN : BitVec 32 := 0x8000
def ISIG : BitVec 32 := 0x1
def BRKINT : BitVec 32 := 0x2
def ICRNL : BitVec 32 := 0x100
def INPCK : BitVec 32 := 0x10
def ISTRIP : BitVec 32 := 0x20
def IXON : BitVec 32 := 0x400
def CSIZE : BitVec 32 := 0x30
def PARENB : BitVec 32 := 0x100
def CS8 : BitVec 32 := 0x30
def OPOST : BitVec 32 := 0x1
def VTIME : Nat := 5
def VMIN : Nat := 6
def EINVAL : Int := 22
def ENOTTY : Int := 25

/-! ## Changes that are made in part -/

/-- The bits of what is asked for where `made` has them, the old ones elsewhere. -/
def pick {w : Nat} (made old asked : BitVec w) : BitVec w := (old &&& ~~~made) ||| (asked &&& made)

/-- Which changes a `tcsetattr` makes. -/
structure Made where
  c_iflag : BitVec 32
  c_oflag : BitVec 32
  c_cflag : BitVec 32
  c_lflag : BitVec 32
  c_cc : Nat → Bool

def Made.now (made : Made) (old asked : Termios) : Termios where
  c_iflag := pick made.c_iflag old.c_iflag asked.c_iflag
  c_oflag := pick made.c_oflag old.c_oflag asked.c_oflag
  c_cflag := pick made.c_cflag old.c_cflag asked.c_cflag
  c_lflag := pick made.c_lflag old.c_lflag asked.c_lflag
  c_cc := fun i => if made.c_cc i then asked.c_cc i else old.c_cc i

theorem pick_self {w : Nat} (made old : BitVec w) : pick made old old = old := by
  refine BitVec.eq_of_getLsbD_eq fun i hi => ?_
  simp only [pick, BitVec.getLsbD_and, BitVec.getLsbD_or, BitVec.getLsbD_not, hi, decide_true, Bool.true_and]
  cases made.getLsbD i <;> cases old.getLsbD i <;> rfl

/-- **What is seen to be made is all there**: where the bits that were to be cleared or set are, the others are too. -/
theorem pick_eq {w : Nat} {made old off on : BitVec w}
    (h : pick made old (old &&& ~~~off ||| on) &&& (off ||| on) = on) :
    pick made old (old &&& ~~~off ||| on) = old &&& ~~~off ||| on := by
  refine BitVec.eq_of_getLsbD_eq fun i hi => ?_
  have hbit := congrArg (fun x => x.getLsbD i) h
  simp only [pick, BitVec.getLsbD_and, BitVec.getLsbD_or, BitVec.getLsbD_not, hi, decide_true, Bool.true_and] at hbit ⊢
  revert hbit
  cases made.getLsbD i <;> cases old.getLsbD i <;> cases off.getLsbD i <;> cases on.getLsbD i <;> decide

theorem pick_eq_clear {w : Nat} {made old off : BitVec w} (h : pick made old (old &&& ~~~off) &&& off = 0) :
    pick made old (old &&& ~~~off) = old &&& ~~~off := by
  have hor : ∀ x : BitVec w, x ||| 0 = x := fun x => by simp
  have hset := @pick_eq w made old off 0
  rw [hor, hor] at hset
  exact hset h

/-! ## The modes -/

/-- `ttystate` -/
inductive Mode where
  | RESET
  | RAW
  | CBREAK
deriving DecidableEq, Repr

/-- `VMIN` and `VTIME`, 1 byte at a time, no timer. -/
def caseB (c_cc : Nat → BitVec 8) : Nat → BitVec 8 := Function.update (Function.update c_cc VMIN 1) VTIME 0

def cbreak (buf : Termios) : Termios :=
  { buf with c_lflag := buf.c_lflag &&& ~~~(ECHO ||| ICANON), c_cc := caseB buf.c_cc }

/-- Only some of the changes were made. -/
def cbreakPartly (buf : Termios) : Bool :=
  decide (buf.c_lflag &&& (ECHO ||| ICANON) ≠ 0) || decide (buf.c_cc VMIN ≠ 1) || decide (buf.c_cc VTIME ≠ 0)

def raw (buf : Termios) : Termios where
  c_lflag := buf.c_lflag &&& ~~~(ECHO ||| ICANON ||| IEXTEN ||| ISIG)
  c_iflag := buf.c_iflag &&& ~~~(BRKINT ||| ICRNL ||| INPCK ||| ISTRIP ||| IXON)
  c_cflag := buf.c_cflag &&& ~~~(CSIZE ||| PARENB) ||| CS8
  c_oflag := buf.c_oflag &&& ~~~OPOST
  c_cc := caseB buf.c_cc

def rawPartly (buf : Termios) : Bool :=
  decide (buf.c_lflag &&& (ECHO ||| ICANON ||| IEXTEN ||| ISIG) ≠ 0) ||
    decide (buf.c_iflag &&& (BRKINT ||| ICRNL ||| INPCK ||| ISTRIP ||| IXON) ≠ 0) ||
    decide (buf.c_cflag &&& (CSIZE ||| PARENB ||| CS8) ≠ CS8) || decide (buf.c_oflag &&& OPOST ≠ 0) ||
    decide (buf.c_cc VMIN ≠ 1) || decide (buf.c_cc VTIME ≠ 0)

theorem caseB_made {made : Nat → Bool} {old : Nat → BitVec 8}
    (hmin : (if made VMIN then caseB old VMIN else old VMIN) = 1)
    (htime : (if made VTIME then caseB old VTIME else old VTIME) = 0) :
    (fun i => if made i then caseB old i else old i) = caseB old := by
  funext i
  by_cases hi : i = VTIME
  · subst hi
    rw [htime, caseB, Function.update_self]
  · by_cases hi' : i = VMIN
    · subst hi'
      rw [hmin, caseB, Function.update_of_ne hi, Function.update_self]
    · rw [caseB, Function.update_of_ne hi, Function.update_of_ne hi']
      split <;> rfl

theorem cbreak_exact (made : Made) (old : Termios) (h : cbreakPartly (made.now old (cbreak old)) = false) :
    made.now old (cbreak old) = cbreak old := by
  simp only [cbreakPartly, Bool.or_eq_false_iff, decide_eq_false_iff_not, not_not] at h
  obtain ⟨⟨hl, hmin⟩, htime⟩ := h
  unfold Made.now cbreak
  exact Termios.ext (pick_self _ _) (pick_self _ _) (pick_self _ _) (pick_eq_clear hl) (caseB_made hmin htime)

theorem raw_exact (made : Made) (old : Termios) (h : rawPartly (made.now old (raw old)) = false) :
    made.now old (raw old) = raw old := by
  simp only [rawPartly, Bool.or_eq_false_iff, decide_eq_false_iff_not, not_not] at h
  obtain ⟨⟨⟨⟨⟨hl, hi⟩, hc⟩, ho⟩, hmin⟩, htime⟩ := h
  unfold Made.now raw
  exact Termios.ext (pick_eq_clear hi) (pick_eq_clear ho) (pick_eq hc) (pick_eq_clear hl) (caseB_made hmin htime)

/-! ## The calls -/

structure State where
  /-- the attributes of each terminal -/
  term : Nat → Termios
  save_termios : Termios
  ttysavefd : Int
  ttystate : Mode
  errno : Int

/-- What a `tcsetattr` does. -/
inductive Outcome where
  | fails (errno : Int)
  | partly (made : Made)
  | whole

/-- What the system calls of `tty_cbreak` and `tty_raw` do, where they come to them. -/
structure Kernel where
  /-- `tcgetattr`, with the error where it fails -/
  get : Option Int
  change : Outcome
  look : Option Int
  restore : Outcome

/-- The terminal that a descriptor is open on. -/
def terminal (tty : Nat → Option Nat) (fd : Int) : Option Nat := if fd < 0 then none else tty fd.toNat

def tcgetattr (tty : Nat → Option Nat) (s : State) (fd : Int) (error : Option Int) : Except Int Termios :=
  match error, terminal tty fd with
  | some e, _ => .error e
  | none, none => .error ENOTTY
  | none, some t => .ok (s.term t)

def tcsetattr (tty : Nat → Option Nat) (s : State) (fd : Int) (outcome : Outcome) (asked : Termios) : Except Int State :=
  match outcome, terminal tty fd with
  | .fails e, _ => .error e
  | _, none => .error ENOTTY
  | .partly made, some t => .ok { s with term := Function.update s.term t (made.now (s.term t) asked) }
  | .whole, some t => .ok { s with term := Function.update s.term t asked }

/-- `tcsetattr(fd, TCSAFLUSH, &save_termios)`, whatever it returns. -/
def restored (tty : Nat → Option Nat) (s : State) (fd : Int) (outcome : Outcome) : State :=
  match tcsetattr tty s fd outcome s.save_termios with
  | .error _ => s
  | .ok s => s

def enter (mode : Mode) (asked : Termios → Termios) (partly : Termios → Bool) (tty : Nat → Option Nat) (s : State)
    (fd : Int) (k : Kernel) : State × Int :=
  if s.ttystate ≠ .RESET then ({ s with errno := EINVAL }, -1)
  else
    match tcgetattr tty s fd k.get with
    | .error e => ({ s with errno := e }, -1)
    | .ok buf =>
      match tcsetattr tty { s with save_termios := buf } fd k.change (asked buf) with
      | .error e => ({ s with save_termios := buf, errno := e }, -1)
      | .ok s =>
        match tcgetattr tty s fd k.look with
        | .error e => ({ restored tty s fd k.restore with errno := e }, -1)
        | .ok buf =>
          if partly buf then ({ restored tty s fd k.restore with errno := EINVAL }, -1)
          else ({ s with ttystate := mode, ttysavefd := fd }, 0)

/-- `tty_cbreak` -/
def ttyCbreak : (Nat → Option Nat) → State → Int → Kernel → State × Int := enter .CBREAK cbreak cbreakPartly

/-- `tty_raw` -/
def ttyRaw : (Nat → Option Nat) → State → Int → Kernel → State × Int := enter .RAW raw rawPartly

/-- `tty_reset` -/
def ttyReset (tty : Nat → Option Nat) (s : State) (fd : Int) (outcome : Outcome) : State × Int :=
  if s.ttystate = .RESET then (s, 0)
  else
    match tcsetattr tty s fd outcome s.save_termios with
    | .error e => ({ s with errno := e }, -1)
    | .ok s => ({ s with ttystate := .RESET }, 0)

/-- `tty_atexit` -/
def ttyAtexit (tty : Nat → Option Nat) (s : State) (outcome : Outcome) : State :=
  if s.ttysavefd ≥ 0 then (ttyReset tty s s.ttysavefd outcome).1 else s

/-- `tty_termios` -/
def ttyTermios (s : State) : Termios := s.save_termios

inductive Call where
  | cbreak (fd : Int) (k : Kernel)
  | raw (fd : Int) (k : Kernel)
  | reset (fd : Int) (outcome : Outcome)
  | atexit (outcome : Outcome)

def step (tty : Nat → Option Nat) (s : State) : Call → Option State
  | .cbreak fd k => some (ttyCbreak tty s fd k).1
  | .raw fd k => some (ttyRaw tty s fd k).1
  | .reset fd outcome => some (ttyReset tty s fd outcome).1
  | .atexit outcome => some (ttyAtexit tty s outcome)

/-- Before the first call. -/
def init (term : Nat → Termios) (save_termios : Termios) : State where
  term := term
  save_termios := save_termios
  ttysavefd := -1
  ttystate := .RESET
  errno := 0

/-! ## What brings the attributes back -/

def Outcome.isWhole : Outcome → Bool
  | .whole => true
  | _ => false

def Outcome.isPartly : Outcome → Bool
  | .partly _ => true
  | _ => false

/-- What brings attributes back makes all the changes, and a reset is for the terminal that was saved. -/
def careful (tty : Nat → Option Nat) (s : State) : Call → Bool
  | .cbreak _ k => k.restore.isWhole
  | .raw _ k => k.restore.isWhole
  | .reset fd outcome =>
    decide (s.ttystate = .RESET) || (decide (terminal tty fd = terminal tty s.ttysavefd) && !outcome.isPartly)
  | .atexit outcome => !outcome.isPartly

def Mode.asked : Mode → Termios → Termios
  | .RESET => id
  | .RAW => raw
  | .CBREAK => cbreak

/-- The terminals are as they were, all of them where the state is RESET, or else all but the one that is saved. -/
def Kept (tty : Nat → Option Nat) (term : Nat → Termios) (s : State) : Prop :=
  s.ttystate = .RESET ∧ s.term = term ∨
    s.ttystate ≠ .RESET ∧ ∃ t, terminal tty s.ttysavefd = some t ∧ s.save_termios = term t ∧
      s.term = Function.update term t (s.ttystate.asked (term t))

theorem tcgetattr_ok {tty : Nat → Option Nat} {s : State} {fd : Int} {error : Option Int} {buf : Termios}
    (h : tcgetattr tty s fd error = .ok buf) : ∃ t, terminal tty fd = some t ∧ buf = s.term t := by
  unfold tcgetattr at h
  split at h
  · cases h
  · cases h
  · rename_i t ht
    exact ⟨t, ht, (Except.ok.inj h).symm⟩

theorem tcsetattr_ok {tty : Nat → Option Nat} {s s' : State} {fd : Int} {outcome : Outcome} {asked : Termios}
    (h : tcsetattr tty s fd outcome asked = .ok s') : ∃ t now, terminal tty fd = some t ∧
      s' = { s with term := Function.update s.term t now } ∧
      (now = asked ∨ ∃ made, outcome = .partly made ∧ now = made.now (s.term t) asked) := by
  unfold tcsetattr at h
  split at h
  · cases h
  · cases h
  · rename_i made t ht
    exact ⟨t, _, ht, (Except.ok.inj h).symm, .inr ⟨made, rfl, rfl⟩⟩
  · rename_i t ht
    exact ⟨t, asked, ht, (Except.ok.inj h).symm, .inl rfl⟩

/-- **What `tty_cbreak` and `tty_raw` do**, where what restores makes all the changes: nothing to any terminal, or the
terminal is in the mode in full and its attributes are saved. -/
theorem enter_cases {mode : Mode} {asked : Termios → Termios} {partly : Termios → Bool}
    (hexact : ∀ made old, partly (Made.now made old (asked old)) = false → made.now old (asked old) = asked old)
    {tty : Nat → Option Nat} {s : State} {fd : Int} {k : Kernel} (hwhole : k.restore.isWhole = true) :
    s.ttystate ≠ .RESET ∧ enter mode asked partly tty s fd k = ({ s with errno := EINVAL }, -1) ∨
      s.ttystate = .RESET ∧
        ((∃ saved e, enter mode asked partly tty s fd k = ({ s with save_termios := saved, errno := e }, -1)) ∨
          ∃ t, terminal tty fd = some t ∧ enter mode asked partly tty s fd k =
            ({ s with
              term := Function.update s.term t (asked (s.term t))
              save_termios := s.term t
              ttystate := mode
              ttysavefd := fd }, 0)) := by
  have hrestore : k.restore = .whole := by
    cases h : k.restore <;> rw [h] at hwhole <;> first | rfl | cases hwhole
  unfold enter
  split
  · rename_i hstate
    exact .inl ⟨hstate, rfl⟩
  · rename_i hstate
    refine .inr ⟨not_not.1 hstate, ?_⟩
    split
    · exact .inl ⟨_, _, rfl⟩
    · rename_i buf hget
      obtain ⟨t, ht, rfl⟩ := tcgetattr_ok hget
      split
      · exact .inl ⟨_, _, rfl⟩
      · rename_i s₁ hset
        obtain ⟨t', now, ht', rfl, hnow⟩ := tcsetattr_ok hset
        obtain rfl : t = t' := Option.some.inj (ht.symm.trans ht')
        -- the attributes that were saved are put back
        have hback : restored tty { s with
              save_termios := s.term t, term := Function.update s.term t now } fd k.restore =
            { s with save_termios := s.term t } := by
          rw [hrestore]
          simp [restored, tcsetattr, ht]
        split
        · dsimp only
          rw [hback]
          exact .inl ⟨_, _, rfl⟩
        · rename_i buf hlook
          obtain ⟨t', ht', rfl⟩ := tcgetattr_ok hlook
          obtain rfl : t = t' := Option.some.inj (ht.symm.trans ht')
          split
          · dsimp only
            rw [hback]
            exact .inl ⟨_, _, rfl⟩
          · rename_i hmade
            refine .inr ⟨t, ht, ?_⟩
            simp only [Function.update_self] at hmade
            obtain rfl : now = asked (s.term t) := by
              rcases hnow with rfl | ⟨made, -, rfl⟩
              · rfl
              · exact hexact made _ (Bool.eq_false_iff.2 hmade)
            rfl

theorem Kept.enter {partly : Termios → Bool} (mode : Mode) (hmode : mode ≠ .RESET)
    (hexact : ∀ made old, partly (Made.now made old (mode.asked old)) = false →
      made.now old (mode.asked old) = mode.asked old)
    {tty : Nat → Option Nat} {term : Nat → Termios} {s : State} {fd : Int} {k : Kernel} (h : Kept tty term s)
    (hwhole : k.restore.isWhole = true) : Kept tty term (enter mode mode.asked partly tty s fd k).1 := by
  rcases enter_cases hexact hwhole with ⟨-, heq⟩ | ⟨hstate, ⟨saved, e, heq⟩ | ⟨t, ht, heq⟩⟩
  · rw [heq]
    exact h
  · rw [heq]
    rcases h with ⟨-, hterm⟩ | ⟨hne, -⟩
    · exact .inl ⟨hstate, hterm⟩
    · exact absurd hstate hne
  · rw [heq]
    rcases h with ⟨-, rfl⟩ | ⟨hne, -⟩
    · exact .inr ⟨hmode, t, ht, rfl, rfl⟩
    · exact absurd hstate hne

theorem Kept.reset {tty : Nat → Option Nat} {term : Nat → Termios} {s : State} {fd : Int} {outcome : Outcome}
    (h : Kept tty term s) (hfd : terminal tty fd = terminal tty s.ttysavefd) (hpartly : outcome.isPartly = false) :
    Kept tty term (ttyReset tty s fd outcome).1 := by
  unfold ttyReset
  split
  · exact h
  · rename_i hstate
    obtain ⟨-, t, ht, hsaved, hterm⟩ := h.resolve_left fun hreset => hstate hreset.1
    split
    · exact .inr ⟨hstate, t, ht, hsaved, hterm⟩
    · rename_i s₁ hset
      obtain ⟨t', now, ht', rfl, hnow⟩ := tcsetattr_ok hset
      obtain rfl : t = t' := Option.some.inj (ht.symm.trans (hfd.symm.trans ht'))
      obtain rfl : now = s.save_termios := by
        rcases hnow with rfl | ⟨made, rfl, -⟩
        · rfl
        · cases hpartly
      refine .inl ⟨rfl, ?_⟩
      dsimp only
      rw [hterm, hsaved, Function.update_idem, Function.update_eq_self]

theorem Kept.step {tty : Nat → Option Nat} {term : Nat → Termios} {s s' : State} {c : Call} (h : Kept tty term s)
    (hok : careful tty s c = true) (hs : step tty s c = some s') : Kept tty term s' := by
  cases c with
  | cbreak fd k =>
    cases hs
    exact h.enter .CBREAK nofun cbreak_exact hok
  | raw fd k =>
    cases hs
    exact h.enter .RAW nofun raw_exact hok
  | reset fd outcome =>
    cases hs
    by_cases hstate : s.ttystate = .RESET
    · unfold ttyReset
      rw [if_pos hstate]
      exact h
    · simp only [careful, hstate, decide_false, Bool.false_or, Bool.and_eq_true, decide_eq_true_eq,
        Bool.not_eq_true'] at hok
      exact h.reset hok.1 hok.2
  | atexit outcome =>
    cases hs
    unfold ttyAtexit
    split
    · exact h.reset rfl (by simpa [careful] using hok)
    · exact h

/-- **All the terminals are as they were whenever the state is RESET**, and else all but one, which is in the mode that was
asked for, in full, with its own attributes saved; and `tty_atexit` brings that one back. -/
theorem tty_restores (tty : Nat → Option Nat) (term : Nat → Termios) (saved : Termios) (calls : List Call) (s : State)
    (h : run (restrict (careful tty) (step tty)) calls (init term saved) = some s) :
    (s.ttystate = .RESET → s.term = term) ∧
    (s.ttystate ≠ .RESET → ∃ t, terminal tty s.ttysavefd = some t ∧ ttyTermios s = term t ∧
      s.term = Function.update term t (s.ttystate.asked (term t))) ∧
    (ttyAtexit tty s .whole).term = term := by
  have hkept : Kept tty term s :=
    restrict_inv (Kept tty term) (fun _ _ _ hk hok hs => hk.step hok hs) calls _ s (.inl ⟨rfl, rfl⟩) h
  refine ⟨fun hreset => ?_, fun hne => ?_, ?_⟩
  · rcases hkept with ⟨-, hterm⟩ | ⟨hne, -⟩
    · exact hterm
    · exact absurd hreset hne
  · rcases hkept with ⟨hreset, -⟩ | ⟨-, t, ht, hsaved, hterm⟩
    · exact absurd hreset hne
    · exact ⟨t, ht, hsaved, hterm⟩
  · rcases hkept with ⟨hreset, hterm⟩ | ⟨hne, t, ht, hsaved, hterm⟩
    · unfold ttyAtexit ttyReset
      simp [hreset, hterm]
    · have hfd : 0 ≤ s.ttysavefd := by
        unfold terminal at ht
        split at ht
        · cases ht
        · omega
      unfold ttyAtexit ttyReset
      simp [hfd, hne, tcsetattr, ht, hterm, hsaved]

/-- A terminal with echo, signals and flow control, and what a program that goes well does with it. -/
def cooked : Termios := ⟨0x500, 0x1, 0xb0, 0x803b, fun _ => 4⟩
def goesWell : Kernel := ⟨none, .whole, none, .whole⟩

/-- `tty_raw` makes its changes in part only, then `tty_cbreak` all of them. -/
theorem tty_restores_cbreak : ∃ s,
    run (restrict (careful some) (step some)) [.raw 0 ⟨none, .partly ⟨0, 0x1, 0, 0, fun _ => true⟩, none, .whole⟩,
      .cbreak 0 goesWell] (init (fun _ => cooked) cooked) = some s ∧
    s.term = Function.update (fun _ => cooked) 0 (cbreak cooked) ∧ (ttyAtexit some s .whole).term = fun _ => cooked := by
  obtain ⟨-, hmode, hexit⟩ := tty_restores some (fun _ => cooked) cooked
    [.raw 0 ⟨none, .partly ⟨0, 0x1, 0, 0, fun _ => true⟩, none, .whole⟩, .cbreak 0 goesWell] _ rfl
  obtain ⟨t, ht, -, hterm⟩ := hmode nofun
  cases ht
  exact ⟨_, rfl, hterm, hexit⟩

/-- **A reset for another terminal**: the terminal that was saved stays in its mode, the other one has the attributes of
the first, and no later calls make a difference to that. -/
theorem tty_reset_other (tty : Nat → Option Nat) (term : Nat → Termios) (saved : Termios) (calls : List Call) (s : State)
    (h : run (restrict (careful tty) (step tty)) calls (init term saved) = some s) (hne : s.ttystate ≠ .RESET)
    (t other : Nat) (ht : terminal tty s.ttysavefd = some t) (fd : Int) (hother : terminal tty fd = some other)
    (later : List Call) (s' : State)
    (hlater : run (restrict (careful tty) (step tty)) later (ttyReset tty s fd .whole).1 = some s')
    (hend : s'.ttystate = .RESET) :
    s'.term = Function.update (Function.update term t (s.ttystate.asked (term t))) other (term t) := by
  obtain ⟨t', ht', hsaved, hterm⟩ := (tty_restores tty term saved calls s h).2.1 hne
  obtain rfl : t = t' := Option.some.inj (ht.symm.trans ht')
  have hreset : (ttyReset tty s fd .whole).1 =
      { s with term := Function.update s.term other (term t), ttystate := .RESET } := by
    have hsave : s.save_termios = term t := hsaved
    simp [ttyReset, hne, tcsetattr, hother, hsave]
  have hkept : Kept tty (Function.update s.term other (term t)) s' := by
    rw [hreset] at hlater
    exact restrict_inv (Kept tty _) (fun _ _ _ hk hok hs => hk.step hok hs) later _ s' (.inl ⟨rfl, rfl⟩) hlater
  rcases hkept with ⟨-, hfinal⟩ | ⟨hnot, -⟩
  · rw [hfinal, hterm]
  · exact absurd hend hnot

/-- Terminal 0 is in its mode, terminal 1 is reset, and terminal 0 is then taken for one that has never been changed. -/
theorem tty_reset_other_cbreak : ∃ s s',
    run (restrict (careful some) (step some)) [.cbreak 0 goesWell] (init (fun _ => cooked) cooked) = some s ∧
    run (restrict (careful some) (step some)) [.raw 0 goesWell, .reset 0 .whole] (ttyReset some s 1 .whole).1 =
      some s' ∧ s'.term = Function.update (Function.update (fun _ => cooked) 0 (cbreak cooked)) 1 cooked :=
  ⟨_, _, rfl, rfl, tty_reset_other some (fun _ => cooked) cooked [.cbreak 0 goesWell] _ rfl nofun 0 1 rfl 1 rfl
    [.raw 0 goesWell, .reset 0 .whole] _ rfl rfl⟩

end TtyModes
end Cc
