import CCplusplus.Ch10Abort
/-!
# Ch10AbortFlush — what `abort` has flushed when it is killed

`abort` flushes where it has seen the default action of SIGABRT, and again where a handler of SIGABRT has returned.  The
signals that it has not blocked yet come between: a handler of another that writes after the flush, or one that gives
SIGABRT its default action back once `abort` has seen a handler, can cost what is written (`abort_flushes`).
-/
namespace Cc
namespace Ch10Abort

open CLib

/-- Nobody else sends SIGABRT. -/
def alone (_ : State) : Act → Bool
  | .arrive .sigabrt => false
  | _ => true

/-- `abort` and what comes besides SIGABRT. -/
def aloneStep (fatal : Nat → Bool) : State → Act → Option State := restrict alone (step fatal)

/-- Where the call begins, with no SIGABRT pending. -/
def start (mask : Sig → Bool) (others : Nat → Bool) (actions : Sig → Disposition) (buffer out : List Char) : State :=
  init mask (fun | .sigabrt => false | .other n => others n) actions buffer out

/-- `abort` has looked at what is done with SIGABRT and blocks nothing yet. -/
def Pc.looked : Pc → Bool
  | .ignored => true
  | .flush => true
  | .mask => true
  | _ => false

/-- No handler gives SIGABRT its default action back once `abort` has seen a handler of it, and none writes after the
flush. -/
def careful (s : State) : Act → Bool
  | .handler (.sigaction .sigabrt .SIG_DFL) => !(s.pc.looked && decide (s.action = .handler))
  | .handler (.write _) => !(decide (s.pc = .mask) && !decide (s.action = .handler))
  | _ => true

def NoAbort (s : State) : Prop := s.signals.pending .sigabrt = false

/-- `abort` alone is running, and nothing is delivered before its next statement. -/
structure Still (s : State) : Prop where
  masked : Masked s
  alone : s.signals.frames = []
  noAbort : NoAbort s

/-- A handler of SIGABRT that was seen is there. -/
def Seen (s : State) : Prop := s.action = .handler → s.actions .sigabrt ≠ .SIG_DFL

def Kept (s : State) : Prop :=
  match s.pc with
  | .query => NoAbort s
  | .ignored => NoAbort s ∧ Seen s
  | .flush => NoAbort s ∧ Seen s ∧ s.action ≠ .SIG_IGN
  | .mask => NoAbort s ∧ Seen s ∧ (s.action ≠ .handler → s.buffer = [])
  | .kill => Still s ∧ (s.actions .sigabrt = .SIG_DFL → s.buffer = [])
  | .raised => (Masked s ∧ s.signals.frames = []) ∧ (s.actions .sigabrt = .SIG_DFL → s.buffer = [])
  | .flushAgain => Masked s ∧ NoAbort s
  | .reset | .maskAgain | .killAgain => Still s ∧ s.buffer = []
  | .raisedAgain => (Masked s ∧ s.signals.frames = []) ∧ s.buffer = []
  | .killed .sigabrt => s.buffer = []
  | _ => True

theorem Still.no_delivery {s : State} (h : Still s) {sig : Sig} (hpending : s.signals.pending sig = true) :
    s.signals.inForce sig ≠ false := by
  rw [inForce_sure h.masked h.alone]
  rintro hforce
  obtain rfl : sig = .sigabrt := by simpa using hforce
  rw [h.noAbort] at hpending
  cases hpending

theorem Kept.main {s s' : State} (h : Kept s) (hframes : s.signals.frames = []) (hs : mainStep s = some s') :
    Kept s' := by
  unfold Kept at h
  unfold mainStep at hs
  cases hat : s.pc <;> simp only [hat] at h hs
  case query =>
    cases hs
    exact ⟨h, fun hhandler hdfl => (by cases (Eq.symm hhandler).trans hdfl)⟩
  case ignored =>
    split at hs
    · cases hs
      exact ⟨h.1, nofun, nofun⟩
    · rename_i hne
      cases hs
      exact ⟨h.1, h.2, hne⟩
  case flush =>
    split at hs
    · rename_i hdfl
      cases hs
      exact ⟨h.1, h.2.1, fun _ => rfl⟩
    · rename_i hdfl
      cases hs
      refine ⟨h.1, h.2.1, fun hne => absurd ?_ hne⟩
      cases hact : s.action with
      | SIG_DFL => exact absurd hact hdfl
      | SIG_IGN => exact absurd hact h.2.2
      | handler => rfl
  case mask =>
    cases hs
    obtain ⟨hno, hseen, hbuffer⟩ := h
    exact ⟨⟨rfl, hframes, hno⟩, fun hdfl => hbuffer fun hhandler => hseen hhandler hdfl⟩
  case kill =>
    cases hs
    exact ⟨⟨h.1.masked, hframes⟩, h.2⟩
  case raised => cases hs
  case flushAgain =>
    cases hs
    exact ⟨⟨h.1, hframes, h.2⟩, rfl⟩
  case reset =>
    cases hs
    exact ⟨⟨h.1.masked, hframes, h.1.noAbort⟩, h.2⟩
  case maskAgain =>
    cases hs
    exact ⟨⟨rfl, hframes, h.1.noAbort⟩, h.2⟩
  case killAgain =>
    cases hs
    exact ⟨⟨h.1.masked, hframes⟩, h.2⟩
  case raisedAgain => cases hs
  case exit =>
    cases hs
    trivial
  all_goals cases hs

theorem handlerStep_pending {s : State} {stmt : Stmt} {sig : Sig}
    (h : s.signals.pending sig = false) : (handlerStep s stmt).signals.pending sig = false := by
  cases stmt with
  | sigaction x act =>
    unfold handlerStep sigaction
    dsimp only
    split
    · simp [Signals.discard, h]
    · exact h
  | sigprocmask mask =>
    change (s.signals.remask fun _ => mask).pending sig = false
    unfold Signals.remask
    split <;> exact h
  | _ => exact h

theorem handlerStep_actions (s : State) (stmt : Stmt) :
    (∃ act, stmt = .sigaction .sigabrt act ∧ (handlerStep s stmt).actions .sigabrt = act) ∨
      (handlerStep s stmt).actions .sigabrt = s.actions .sigabrt := by
  cases stmt with
  | sigaction sig act =>
    cases sig with
    | sigabrt => exact .inl ⟨act, rfl, by simp [handlerStep, sigaction]⟩
    | other n => exact .inr (by simp [handlerStep, sigaction])
  | _ => exact .inr rfl

theorem handlerStep_buffer (s : State) (stmt : Stmt) :
    (∃ c, stmt = .write c) ∨ (handlerStep s stmt).buffer = [] ∨ (handlerStep s stmt).buffer = s.buffer := by
  cases stmt with
  | write c => exact .inl ⟨c, rfl⟩
  | fflush => exact .inr (.inl rfl)
  | _ => exact .inr (.inr rfl)

theorem Kept.handler {s : State} {stmt : Stmt} (h : Kept s) (hover : s.pc.over = false)
    (hframes : s.signals.frames ≠ []) (hcareful : careful s (.handler stmt) = true) : Kept (handlerStep s stmt) := by
  have hb := handlerStep_below s hframes stmt
  have hno : NoAbort s → NoAbort (handlerStep s stmt) := handlerStep_pending
  have hseen : s.pc.looked = true → Seen s → Seen (handlerStep s stmt) := by
    intro hlooked h hhandler hdfl
    rw [hb.action] at hhandler
    rcases handlerStep_actions s stmt with ⟨act, rfl, hact⟩ | hact
    · rw [hact] at hdfl
      subst hdfl
      simp [careful, hlooked, hhandler] at hcareful
    · exact h hhandler (hact ▸ hdfl)
  rcases hb.pc with hpc | hpc
  · unfold Kept at h ⊢
    rw [hpc]
    cases hat : s.pc <;> simp only [hat] at h ⊢
    case query => exact hno h
    case ignored => exact ⟨hno h.1, hseen (by rw [hat]; rfl) h.2⟩
    case flush => exact ⟨hno h.1, hseen (by rw [hat]; rfl) h.2.1, hb.action ▸ h.2.2⟩
    case mask =>
      refine ⟨hno h.1, hseen (by rw [hat]; rfl) h.2.1, fun hne => ?_⟩
      rw [hb.action] at hne
      rcases handlerStep_buffer s stmt with ⟨c, rfl⟩ | hnil | hsame
      · simp [careful, hat, hne] at hcareful
      · exact hnil
      · rw [hsame]
        exact h.2.2 hne
    case kill => exact absurd h.1.alone hframes
    case raised => exact absurd h.1.2 hframes
    case flushAgain => exact ⟨hb.mask.trans h.1, hno h.2⟩
    case reset => exact absurd h.1.alone hframes
    case maskAgain => exact absurd h.1.alone hframes
    case killAgain => exact absurd h.1.alone hframes
    case raisedAgain => exact absurd h.1.2 hframes
    case killed sig => rw [hat] at hover; cases hover
  · unfold Kept
    rw [hpc]
    trivial

theorem Kept.delivered {fatal : Nat → Bool} {s : State} {sig : Sig} {blocks : Sig → Bool} (h : Kept s) (hinv : Inv s)
    (hover : s.pc.over = false) (hpending : s.signals.pending sig = true)
    (hforce : s.signals.inForce sig = false) :
    Kept (delivered fatal s sig blocks) := by
  have hno : NoAbort s → sig ≠ .sigabrt := by
    rintro hno rfl
    rw [hno] at hpending
    cases hpending
  -- what goes on has dropped the signal or runs a handler of it
  have hnext : ∀ signals : Signals Sig Unit, signals.mask = s.signals.mask →
      (∀ x, signals.pending x = true ↔ x ≠ sig ∧ s.signals.pending x = true) →
      (sig = .sigabrt → s.actions .sigabrt ≠ .SIG_DFL) → Kept { s with signals, pc := s.pc.raisedNext } := by
    intro signals hmask hdropped hact
    have hkeep : NoAbort s → signals.pending .sigabrt = false := fun hn => by
      rw [Bool.eq_false_iff]
      intro hp
      have hbefore := ((hdropped _).1 hp).2
      rw [hn] at hbefore
      cases hbefore
    unfold Kept at h ⊢
    cases hat : s.pc <;> simp only [hat, Pc.raisedNext] at h ⊢
    case query => exact hkeep h
    case ignored => exact ⟨hkeep h.1, h.2⟩
    case flush => exact ⟨hkeep h.1, h.2⟩
    case mask => exact ⟨hkeep h.1, h.2⟩
    case kill => exact absurd hforce (h.1.no_delivery hpending)
    case raised =>
      obtain ⟨⟨hmasked, hframes⟩, -⟩ := h
      refine ⟨hmask.trans hmasked, ?_⟩
      rw [inForce_sure hmasked hframes] at hforce
      obtain rfl : sig = .sigabrt := by simpa using hforce
      exact Bool.eq_false_iff.2 fun hp => ((hdropped _).1 hp).1 rfl
    case flushAgain => exact ⟨hmask.trans h.1, hkeep h.2⟩
    case reset => exact absurd hforce (h.1.no_delivery hpending)
    case maskAgain => exact absurd hforce (h.1.no_delivery hpending)
    case killAgain => exact absurd hforce (h.1.no_delivery hpending)
    case killed x => rw [hat] at hover; cases hover
  rcases delivered_cases fatal s sig blocks with ⟨hact, heq⟩ | ⟨-, hign, heq⟩ | ⟨hact, heq⟩
  · rw [heq]
    refine hnext _ rfl (fun x => by simp) ?_
    rintro rfl
    rw [hact]
    decide
  · rw [heq]
    refine hnext _ rfl (fun x => by simp) ?_
    rintro rfl
    rw [hign rfl]
    decide
  · rw [heq]
    cases sig with
    | other n => exact trivial
    | sigabrt =>
      change s.buffer = []
      unfold Kept at h
      unfold Inv at hinv
      cases hat : s.pc <;> simp only [hat] at h hinv
      case query => exact absurd rfl (hno h)
      case ignored => exact absurd rfl (hno h.1)
      case flush => exact absurd rfl (hno h.1)
      case mask => exact absurd rfl (hno h.1)
      case kill => exact absurd rfl (hno h.1.noAbort)
      case raised => exact h.2 hact
      case flushAgain => exact absurd rfl (hno h.2)
      case reset => exact h.2
      case maskAgain => exact h.2
      case killAgain => exact h.2
      case raisedAgain => exact h.2
      all_goals rw [hat] at hover; cases hover

theorem Kept.step {fatal : Nat → Bool} {s s' : State} {a : Act} (h : Kept s) (hinv : Inv s)
    (hcareful : careful s a = true)
    (hs : aloneStep fatal s a = some s') : Kept s' := by
  obtain ⟨halone, hs⟩ := restrict_some hs
  obtain ⟨hover, hcases⟩ := step_cases hs
  rcases hcases with ⟨-, hframes, hmain⟩ | ⟨stmt, rfl, hframes, rfl⟩ | ⟨sig, blocks, -, hpending, hforce, rfl⟩ |
    ⟨sig, rfl, rfl⟩ | ⟨-, rfl⟩
  · exact h.main hframes hmain
  · exact h.handler hover hframes hcareful
  · exact h.delivered hinv hover hpending hforce
  · cases sig with
    | sigabrt => cases halone
    | other n =>
      have hno : NoAbort s → NoAbort { s with signals := s.signals.arrive (.other n) } := fun hn => by
        simpa [NoAbort, Signals.arrive] using hn
      have hstill : ∀ pc, Still s → Still { s with signals := s.signals.arrive (.other n), pc } := fun pc hs =>
        ⟨hs.masked, hs.alone, hno hs.noAbort⟩
      unfold Kept at h ⊢
      cases hat : s.pc <;> simp only [hat] at h ⊢
      case query => exact hno h
      case ignored => exact ⟨hno h.1, h.2⟩
      case flush => exact ⟨hno h.1, h.2⟩
      case mask => exact ⟨hno h.1, h.2⟩
      case kill => exact ⟨hstill _ h.1, h.2⟩
      case raised => exact h
      case flushAgain => exact ⟨h.1, hno h.2⟩
      case reset => exact ⟨hstill _ h.1, h.2⟩
      case maskAgain => exact ⟨hstill _ h.1, h.2⟩
      case killAgain => exact ⟨hstill _ h.1, h.2⟩
      case raisedAgain => exact h
      case killed x => rw [hat] at hover; cases hover
  · exact trivial

/-! ## A handler that comes in between -/

end Ch10Abort
end Cc
