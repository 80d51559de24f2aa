import CCplusplus.Ch10SigsuspendGlobal
/-!
# Ch10SigsuspendGlobalRuns — whether a SIGQUIT wakes `main`

`main` blocks SIGINT alone.  Between the test that found `quitflag` 0 and `sigsuspend` a SIGQUIT is delivered, sets the
flag, and leaves nothing to wake the suspension: the loop then ends only with another signal.  A SIGINT that waits at the
time does wake it.  So a handled SIGQUIT ends the loop exactly while none is delivered there without one
(`sigquit_ends`).
-/
namespace Cc
namespace Ch10SigsuspendGlobal

open CLib

def inLoop : Pc → Bool
  | .test => true
  | .print => true
  | .suspend => true
  | .asleep => true
  | _ => false

/-- A SIGQUIT has been handled, and `sigsuspend` sleeps with nothing to wake it. -/
structure Lost (s : State) : Prop where
  quitflag : s.quitflag = 1
  asleep : s.pc = .asleep
  pending : ∀ sig, s.signals.pending sig = false

/-- No signal is sent. -/
def quiet (_ : State) : Act → Bool
  | .arrive _ => false
  | _ => true

/-- A SIGQUIT that has been handled ends the loop, whatever comes next and with no further signal. -/
structure Wakes (s : State) : Prop where
  notLost : ¬ Lost s
  ends : s.quitflag = 1 → Inevitably (restrict quiet step) (fun t => inLoop t.pc = false) s

/-- SIGQUIT is not delivered between the test and `sigsuspend`, unless a SIGINT waits. -/
def wakeable (s : State) : Act → Bool
  | .deliver .sigquit => !(decide (s.pc = .print) || decide (s.pc = .suspend)) || s.signals.pending .sigint
  | _ => true

/-! ## The phases of `main` -/

/-- Where a SIGQUIT has been handled, or its handler is about to set the flag, a SIGINT waits. -/
def Told (s : State) : Prop :=
  (s.quitflag = 1 ∨ ∃ f ∈ s.signals.frames, f.sig = .sigquit ∧ f.pc = .body) → s.signals.pending .sigint = true

/-- In the loop, both signals are caught and the program's own mask blocks SIGINT. -/
structure Looping (s : State) : Prop where
  caught : ∀ sig, s.caught sig = true
  mask : s.signals.mask .sigint = true

/-- Between the test and `sigsuspend`. -/
structure Window (s : State) : Prop extends Looping s where
  blocked : s.signals.Blocked .sigint
  told : Told s

structure Asleep (s : State) : Prop extends Looping s where
  frames : s.signals.frames = []
  told : Told s

/-- What holds where `main` stands at a statement, in the runs whose steps are all `wakeable`. -/
def Phase (s : State) : Pc → Prop
  | .signalQuit => s.caught .sigint = true
  | .block => ∀ sig, s.caught sig = true
  | .test => Looping s
  | .print => Window s
  | .suspend => Window s
  | .asleep => Asleep s
  | _ => True

theorem main_phase {s s' : State} {success : Bool} (h : Phase s s.pc) (hf : s.signals.frames = [])
    (hs : mainStep s success = some s') : Phase s' s'.pc := by
  unfold mainStep at hs
  cases hpc : s.pc with
  | signalInt =>
    rw [hpc] at hs
    simp only at hs
    split at hs
    · cases hs
      rfl
    · cases hs
      trivial
  | signalQuit =>
    rw [hpc] at hs h
    simp only at hs
    split at hs
    · cases hs
      intro sig
      cases sig with
      | sigint => exact h
      | sigquit => rfl
    · cases hs
      trivial
  | block =>
    rw [hpc] at hs h
    simp only at hs
    split at hs
    · cases hs
      exact ⟨h, rfl⟩
    · cases hs
      trivial
  | test =>
    rw [hpc] at hs h
    cases hs
    have h : Looping s := h
    by_cases hq : s.quitflag = 0
    · simp only [hq, if_true]
      -- no handler runs here and the flag is 0
      refine ⟨⟨h.caught, h.mask⟩, ⟨h.mask, fun f hm => ?_⟩, fun ht => ?_⟩
      · rw [hf] at hm
        cases hm
      · rcases ht with ht | ⟨f, hm, -⟩
        · exact absurd ht (by simp)
        · rw [hf] at hm
          cases hm
    · simp only [hq, if_false]
      trivial
  | print =>
    rw [hpc] at hs h
    cases hs
    have h : Window s := h
    exact ⟨⟨h.caught, h.mask⟩, h.blocked, h.told⟩
  | suspend =>
    rw [hpc] at hs h
    cases hs
    have h : Window s := h
    exact ⟨⟨h.caught, h.mask⟩, hf, h.told⟩
  | asleep =>
    rw [hpc] at hs
    cases hs
  | clear =>
    rw [hpc] at hs
    cases hs
    trivial
  | restore =>
    rw [hpc] at hs
    simp only at hs
    split at hs
    · cases hs
      trivial
    · cases hs
      trivial
  | exit =>
    rw [hpc] at hs
    cases hs
    trivial
  | ended e =>
    rw [hpc] at hs
    cases hs

/-- A phase is kept by what leaves the signals that are caught, the program's own mask and, where it matters, what is
blocked and what is told. -/
theorem Phase.keep {s s' : State} {pc : Pc} (h : Phase s pc) (hc : s'.caught = s.caught)
    (hm : s'.signals.mask = s.signals.mask)
    (hw : pc = .print ∨ pc = .suspend → Window s → s'.signals.Blocked .sigint ∧ Told s')
    (ha : pc = .asleep → Asleep s → s'.signals.frames = [] ∧ Told s') : Phase s' pc := by
  have hl : Looping s → Looping s' := fun hl => ⟨by rw [hc]; exact hl.caught, by rw [hm]; exact hl.mask⟩
  cases pc with
  | signalQuit => exact (congrFun hc .sigint).trans h
  | block => exact fun sig => (congrFun hc sig).trans (h sig)
  | test => exact hl h
  | print =>
    have h : Window s := h
    obtain ⟨hb, ht⟩ := hw (.inl rfl) h
    exact ⟨hl h.toLooping, hb, ht⟩
  | suspend =>
    have h : Window s := h
    obtain ⟨hb, ht⟩ := hw (.inr rfl) h
    exact ⟨hl h.toLooping, hb, ht⟩
  | asleep =>
    have h : Asleep s := h
    obtain ⟨hf, ht⟩ := ha rfl h
    exact ⟨hl h.toLooping, hf, ht⟩
  | _ => trivial

theorem Phase.window {s : State} (h : Phase s s.pc) (hpc : s.pc = .print ∨ s.pc = .suspend) :
    Window s ∧ s.pc ≠ .asleep ∧ alive s.pc = true := by
  rcases hpc with hpc | hpc
  · rw [hpc] at h ⊢
    exact ⟨h, nofun, rfl⟩
  · rw [hpc] at h ⊢
    exact ⟨h, nofun, rfl⟩

/-- A statement of the innermost handler. -/
theorem handlerStep_cases {s s' : State} (hs : handlerStep s = some s') :
    ∃ f fs, s.signals.frames = f :: fs ∧ s'.pc = s.pc ∧ s'.caught = s.caught ∧
      ((f.pc = .body ∧ s'.signals = s.signals.goOn .ret ∧
          s'.quitflag = if f.sig = .sigquit then 1 else s.quitflag) ∨
        (f.pc = .ret ∧ s'.signals = s.signals.leave ∧ s'.quitflag = s.quitflag)) := by
  unfold handlerStep at hs
  split at hs
  · cases hs
  · rename_i f fs hf
    refine ⟨f, fs, hf, ?_⟩
    split at hs
    · rename_i hp hsig
      cases hs
      exact ⟨rfl, rfl, .inl ⟨hp, rfl, by rw [hsig]; rfl⟩⟩
    · rename_i hp hsig
      cases hs
      exact ⟨rfl, rfl, .inl ⟨hp, rfl, by rw [hsig]; rfl⟩⟩
    · rename_i hp
      cases hs
      exact ⟨rfl, rfl, .inr ⟨hp, rfl, rfl⟩⟩

theorem handler_told {s s' : State} (h : Told s) (hs : handlerStep s = some s') : Told s' := by
  obtain ⟨f, fs, hf, -, -, ⟨hb, hsig, hq⟩ | ⟨-, hsig, hq⟩⟩ := handlerStep_cases hs
  · rw [Signals.goOn_cons hf] at hsig
    unfold Told
    rw [hsig, hq]
    intro ht
    apply h
    rcases ht with ht | ⟨f', hm, hq', hb'⟩
    · by_cases hquit : f.sig = .sigquit
      · exact .inr ⟨f, by rw [hf]; exact List.mem_cons_self, hquit, hb⟩
      · rw [if_neg hquit] at ht
        exact .inl ht
    · rcases List.mem_cons.1 hm with rfl | hm
      · cases hb'
      · exact .inr ⟨f', by rw [hf]; exact List.mem_cons_of_mem f hm, hq', hb'⟩
  · unfold Told
    rw [hsig, hq]
    rintro (ht | ⟨f', hm, hq'⟩)
    · exact h (.inl ht)
    · exact h (.inr ⟨f', List.mem_of_mem_tail hm, hq'⟩)

theorem handler_phase {s s' : State} (h : Phase s s.pc) (hs : handlerStep s = some s') : Phase s' s'.pc := by
  obtain ⟨f, fs, hf, hpc, hc, hsig⟩ := handlerStep_cases hs
  have hmask : s'.signals.mask = s.signals.mask := by
    rcases hsig with ⟨-, hsig, -⟩ | ⟨-, hsig, -⟩
    · rw [hsig, Signals.goOn_cons hf]
    · rw [hsig]
      rfl
  rw [hpc]
  refine h.keep hc hmask (fun _ hw => ⟨?_, handler_told hw.told hs⟩) (fun _ ha => ?_)
  · rcases hsig with ⟨-, hsig, -⟩ | ⟨-, hsig, -⟩
    · rw [hsig]
      exact hw.blocked.goOn _
    · rw [hsig]
      exact hw.blocked.leave
  · rw [ha.frames] at hf
    cases hf

/-- A signal is delivered: it was pending and not blocked, and it is caught or ends the process. -/
theorem deliverStep_cases {s s' : State} {sig : Sig} (hs : deliverStep s sig = some s') :
    s.signals.pending sig = true ∧ inForce s sig = false ∧
      ((s.caught sig = true ∧ s' = { s with
          signals := s.signals.deliver sig (inForce s) .body
          pc := if s.pc = .asleep then .test else s.pc }) ∨
        (s.caught sig = false ∧ s' = { s with pc := .ended (.killed sig) })) :=
  Signals.delivered hs

/-- In the window only SIGQUIT is delivered. -/
theorem Window.deliver {s : State} {sig : Sig} (h : Window s) (hp : s.pc ≠ .asleep) (hb : inForce s sig = false) :
    sig = .sigquit := by
  cases sig with
  | sigint =>
    unfold inForce at hb
    rw [if_neg hp, h.blocked.inForce] at hb
    cases hb
  | sigquit => rfl

theorem deliver_phase {s s' : State} {sig : Sig} (h : Phase s s.pc) (hok : wakeable s (.deliver sig) = true)
    (hs : deliverStep s sig = some s') : Phase s' s'.pc := by
  obtain ⟨hp, hb, ⟨hc, rfl⟩ | ⟨-, rfl⟩⟩ := deliverStep_cases hs
  · by_cases hpc : s.pc = .asleep
    · -- `sigsuspend` returns, and the loop is tested again
      rw [hpc] at h
      have h : Asleep s := h
      simp only [hpc, if_true]
      exact ⟨h.caught, h.mask⟩
    · simp only [hpc, if_false]
      refine h.keep rfl rfl (fun hpc' hw => ?_) (fun hpc' => absurd hpc' hpc)
      obtain rfl := hw.deliver hpc hb
      have hint : s.signals.pending .sigint = true := by
        unfold wakeable at hok
        rcases hpc' with hpc' | hpc'
        · simpa [hpc'] using hok
        · simpa [hpc'] using hok
      have hforce : inForce s .sigint = true := by
        unfold inForce
        rw [if_neg hpc]
        exact hw.blocked.inForce
      exact ⟨hw.blocked.deliver hforce _ _, fun _ => (Signals.pending_deliver ..).2 ⟨by decide, hint⟩⟩
  · trivial

theorem arrive_phase {s : State} (h : Phase s s.pc) (sig : Sig) :
    Phase { s with signals := s.signals.arrive sig } s.pc := by
  have htold : Told s → Told { s with signals := s.signals.arrive sig } := fun ht hq =>
    (Signals.pending_arrive ..).2 (.inr (ht hq))
  exact h.keep rfl rfl (fun _ hw => ⟨hw.blocked.arrive sig, htold hw.told⟩) (fun _ ha => ⟨ha.frames, htold ha.told⟩)

/-- **A wakeable step keeps the phase.** -/
theorem phase_step {s s' : State} {a : Act} (h : Phase s s.pc) (hok : wakeable s a = true)
    (hs : step s a = some s') : Phase s' s'.pc := by
  unfold step at hs
  split at hs
  · cases a with
    | main success =>
      simp only at hs
      split at hs
      · rename_i hf
        exact main_phase h (List.isEmpty_iff.1 hf) hs
      · cases hs
    | handler => exact handler_phase h hs
    | deliver sig => exact deliver_phase h hok hs
    | arrive sig =>
      cases hs
      exact arrive_phase h sig
  · cases hs

/-! ## With no further signal -/

/-- Statements of a handler that are left. -/
def work (f : Frame Sig HandlerPc) : Nat :=
  match f.pc with
  | .body => 2
  | .ret => 1

def workAll : List (Frame Sig HandlerPc) → Nat
  | [] => 0
  | f :: fs => work f + workAll fs

/-- Statements of `main` before the next test. -/
def rank : Pc → Nat
  | .print => 3
  | .suspend => 2
  | .asleep => 1
  | _ => 0

/-- What is left to do before the loop is left, where the flag is set. -/
def left (s : State) : Nat :=
  3 * ((s.signals.pending .sigint).toNat + (s.signals.pending .sigquit).toNat) +
    workAll s.signals.frames + rank s.pc

/-- A SIGQUIT that has been handled, in the loop, wakes `main`: the steps to come are wakeable. -/
structure Quitting (s : State) : Prop where
  phase : Phase s s.pc
  quitflag : s.quitflag = 1

theorem Quitting.told {s : State} (h : Quitting s) (hpc : s.pc = .print ∨ s.pc = .suspend ∨ s.pc = .asleep) :
    s.signals.pending .sigint = true := by
  by_cases ha : s.pc = .asleep
  · have hph := h.phase
    rw [ha] at hph
    exact (show Asleep s from hph).told (.inl h.quitflag)
  · have hw := (h.phase.window (hpc.imp_right (fun hpc => hpc.resolve_right ha))).1
    exact hw.told (.inl h.quitflag)

theorem Quitting.wakeable {s : State} (h : Quitting s) (a : Act) : wakeable s a = true := by
  unfold Ch10SigsuspendGlobal.wakeable
  split
  · by_cases hpc : s.pc = .print ∨ s.pc = .suspend
    · rw [h.told (hpc.imp_right .inl), Bool.or_true]
    · have hn := not_or.1 hpc
      simp [hn.1, hn.2]
  · rfl

theorem alive_of_inLoop {pc : Pc} (h : inLoop pc = true) : alive pc = true := by
  cases pc with
  | ended e => cases h
  | _ => rfl

theorem quiet_step {s s' : State} {a : Act} (hq : quiet s a = true) (hs : step s a = some s') :
    restrict quiet step s a = some s' := by
  unfold restrict
  rw [if_pos hq]
  exact hs

/-- Some step is there: the innermost handler's, or one of `main`, or the SIGINT that waits. -/
theorem Quitting.live {s : State} (h : Quitting s) (hl : inLoop s.pc = true) :
    ∃ a s', restrict quiet step s a = some s' := by
  have ha := alive_of_inLoop hl
  cases hf : s.signals.frames with
  | cons f fs =>
    have hstep : ∃ s', handlerStep s = some s' := by
      unfold handlerStep
      rw [hf]
      cases f with
      | mk sig pc mask =>
        cases pc with
        | body =>
          cases sig with
          | sigint => exact ⟨_, rfl⟩
          | sigquit => exact ⟨_, rfl⟩
        | ret => exact ⟨_, rfl⟩
    obtain ⟨s', hs⟩ := hstep
    exact ⟨.handler, s', quiet_step rfl (by unfold step; rw [if_pos ha]; exact hs)⟩
  | nil =>
    by_cases hpc : s.pc = .asleep
    · have hp := h.told (.inr (.inr hpc))
      have hstep : ∃ s', deliverStep s .sigint = some s' := by
        unfold deliverStep inForce
        rw [if_pos hpc, hp]
        by_cases hc : s.caught .sigint = true
        · exact ⟨_, by rw [hc]; rfl⟩
        · exact ⟨_, by rw [Bool.eq_false_iff.2 hc]; rfl⟩
      obtain ⟨s', hs⟩ := hstep
      exact ⟨.deliver .sigint, s', quiet_step rfl (by unfold step; rw [if_pos ha]; exact hs)⟩
    · have hstep : ∃ s', mainStep s true = some s' := by
        unfold mainStep
        cases hp : s.pc with
        | test => exact ⟨_, rfl⟩
        | print => exact ⟨_, rfl⟩
        | suspend => exact ⟨_, rfl⟩
        | asleep => exact absurd hp hpc
        | _ => rw [hp] at hl; cases hl
      obtain ⟨s', hs⟩ := hstep
      exact ⟨.main true, s', quiet_step rfl (by unfold step; rw [if_pos ha, hf]; exact hs)⟩

theorem main_left {s s' : State} {success : Bool} (hq : s.quitflag = 1) (hl : inLoop s.pc = true)
    (hs : mainStep s success = some s') : inLoop s'.pc = false ∨ (s'.quitflag = 1 ∧ left s' < left s) := by
  unfold mainStep at hs
  cases hpc : s.pc with
  | test =>
    rw [hpc] at hs
    cases hs
    exact .inl (by simp [hq, inLoop])
  | print =>
    rw [hpc] at hs
    cases hs
    refine .inr ⟨hq, ?_⟩
    simp only [left, rank, hpc]
    omega
  | suspend =>
    rw [hpc] at hs
    cases hs
    refine .inr ⟨hq, ?_⟩
    simp only [left, rank, hpc]
    omega
  | asleep =>
    rw [hpc] at hs
    cases hs
  | _ =>
    rw [hpc] at hl
    cases hl

theorem handler_left {s s' : State} (hq : s.quitflag = 1) (hs : handlerStep s = some s') :
    s'.quitflag = 1 ∧ left s' < left s := by
  obtain ⟨f, fs, hf, hpc, -, ⟨hb, hsig, hq'⟩ | ⟨hb, hsig, hq'⟩⟩ := handlerStep_cases hs
  · rw [Signals.goOn_cons hf] at hsig
    refine ⟨by rw [hq', hq]; split <;> rfl, ?_⟩
    simp only [left, hpc, hsig, hf, workAll, work, hb]
    omega
  · refine ⟨by rw [hq', hq], ?_⟩
    simp only [left, hpc, hsig, Signals.leave, hf, List.tail_cons, workAll, work, hb]
    omega

theorem deliver_left {s s' : State} {sig : Sig} (hq : s.quitflag = 1) (hs : deliverStep s sig = some s') :
    inLoop s'.pc = false ∨ (s'.quitflag = 1 ∧ left s' < left s) := by
  obtain ⟨hp, -, ⟨-, rfl⟩ | ⟨-, rfl⟩⟩ := deliverStep_cases hs
  · refine .inr ⟨hq, ?_⟩
    have hrank : rank (if s.pc = .asleep then .test else s.pc) ≤ rank s.pc := by
      split
      · exact Nat.zero_le _
      · exact Nat.le_refl _
    cases sig with
    | sigint =>
      simp [left, Signals.deliver, hp, workAll, work]
      omega
    | sigquit =>
      simp [left, Signals.deliver, hp, workAll, work]
      omega
  · exact .inl rfl

theorem Quitting.step {s s' : State} {a : Act} (h : Quitting s) (hl : inLoop s.pc = true)
    (hs : restrict quiet step s a = some s') :
    inLoop s'.pc = false ∨ (Quitting s' ∧ left s' < left s) := by
  obtain ⟨hquiet, hs⟩ := restrict_some hs
  have hph := phase_step h.phase (h.wakeable a) hs
  unfold Ch10SigsuspendGlobal.step at hs
  rw [if_pos (alive_of_inLoop hl)] at hs
  cases a with
  | main success =>
    simp only at hs
    split at hs
    · exact (main_left h.quitflag hl hs).imp_right (fun h => ⟨⟨hph, h.1⟩, h.2⟩)
    · cases hs
  | handler =>
    obtain ⟨hq, hlt⟩ := handler_left h.quitflag hs
    exact .inr ⟨⟨hph, hq⟩, hlt⟩
  | deliver sig => exact (deliver_left h.quitflag hs).imp_right (fun h => ⟨⟨hph, h.1⟩, h.2⟩)
  | arrive sig => cases hquiet

/-- The loop ends from every state in which a SIGQUIT has been handled. -/
theorem Quitting.ends {s : State} (h : Quitting s) :
    Inevitably (restrict quiet Ch10SigsuspendGlobal.step) (fun t => inLoop t.pc = false) s :=
  inevitably_of_measure left (fun _ h hl => h.live (by simpa using hl))
    (fun _ _ _ h hl hs => h.step (by simpa using hl) hs) s h

theorem phase_wakes {s : State} (h : Phase s s.pc) : Wakes s where
  notLost := fun hl => by
    have hp := (Quitting.mk h hl.quitflag).told (.inr (.inr hl.asleep))
    rw [hl.pending] at hp
    cases hp
  ends := fun hq => (Quitting.mk h hq).ends

/-! ## The SIGQUIT that is lost -/

/-- The innermost handler runs to its return. -/
theorem handler_returns {s : State} {f : Frame Sig HandlerPc} {fs : List (Frame Sig HandlerPc)}
    (hf : s.signals.frames = f :: fs) (ha : alive s.pc = true) :
    ∃ t, Reach step s t ∧ t.pc = s.pc ∧ t.signals = { s.signals with frames := fs } ∧
      (s.quitflag = 1 ∨ (f.sig = .sigquit ∧ f.pc = .body) → t.quitflag = 1) := by
  have hret : ∀ s₁ : State, s₁.pc = s.pc → ∀ f₁ : Frame Sig HandlerPc, f₁.pc = .ret →
      s₁.signals = { s.signals with frames := f₁ :: fs } →
      step s₁ .handler = some { s₁ with signals := { s.signals with frames := fs } } := by
    intro s₁ hpc f₁ hr hsig
    unfold step
    rw [if_pos (by rw [hpc]; exact ha)]
    simp only [handlerStep, hsig, hr, Signals.leave, List.tail_cons]
  obtain ⟨sig, pc, mask⟩ := f
  cases pc with
  | ret =>
    refine ⟨_, Reach.of_step (hret s rfl _ rfl (by rw [← hf])), rfl, rfl, ?_⟩
    rintro (hq | ⟨-, hq⟩)
    · exact hq
    · cases hq
  | body =>
    have hbody : ∃ s₁, step s .handler = some s₁ ∧ s₁.pc = s.pc ∧
        s₁.signals = { s.signals with frames := ⟨sig, .ret, mask⟩ :: fs } ∧
        (s.quitflag = 1 ∨ sig = .sigquit → s₁.quitflag = 1) := by
      unfold step handlerStep
      rw [if_pos ha, hf]
      cases sig with
      | sigint =>
        refine ⟨_, rfl, rfl, Signals.goOn_cons hf _, ?_⟩
        rintro (hq | hq)
        · exact hq
        · cases hq
      | sigquit => exact ⟨_, rfl, rfl, Signals.goOn_cons hf _, fun _ => rfl⟩
    obtain ⟨s₁, hs, hpc, hsig, hq⟩ := hbody
    refine ⟨_, (Reach.of_step hs).trans (Reach.of_step (hret s₁ hpc _ rfl hsig)), hpc, rfl, ?_⟩
    rintro (h | ⟨h, -⟩)
    · exact hq (.inl h)
    · exact hq (.inr h)

/-- All the handlers return. -/
theorem handlers_return : ∀ (fs : List (Frame Sig HandlerPc)) (s : State), s.signals.frames = fs →
    alive s.pc = true → s.quitflag = 1 →
    ∃ t, Reach step s t ∧ t.pc = s.pc ∧ t.signals = { s.signals with frames := [] } ∧ t.quitflag = 1
  | [], s, hf, _, hq => ⟨s, Reach.refl s, rfl, by rw [← hf], hq⟩
  | f :: fs, s, hf, ha, hq => by
    obtain ⟨t, hr, hpc, hsig, hq'⟩ := handler_returns hf ha
    obtain ⟨u, hu, hpcu, hsigu, hqu⟩ := handlers_return fs t (by rw [hsig]) (by rw [hpc]; exact ha) (hq' (.inl hq))
    exact ⟨u, hr.trans hu, hpcu.trans hpc, by rw [hsigu, hsig], hqu⟩

/-- `main` goes to sleep from between the test and `sigsuspend`. -/
theorem falls_asleep {s : State} (hpc : s.pc = .print ∨ s.pc = .suspend) (hf : s.signals.frames = []) :
    ∃ t, Reach step s t ∧ t.pc = .asleep ∧ t.signals = s.signals ∧ t.quitflag = s.quitflag := by
  have hsuspend : ∀ s₁ : State, s₁.pc = .suspend → s₁.signals.frames = [] →
      step s₁ (.main true) = some { s₁ with pc := .asleep } := by
    intro s₁ hpc hf
    simp [step, mainStep, hpc, hf, alive]
  rcases hpc with hpc | hpc
  · have hprint : step s (.main true) =
        some { s with printed := s.printed ++ ["sigsuspend begini\n"], pc := .suspend } := by
      simp [step, mainStep, hpc, hf, alive]
    exact ⟨_, (Reach.of_step hprint).trans (Reach.of_step (hsuspend _ rfl hf)), rfl, rfl, rfl⟩
  · exact ⟨_, Reach.of_step (hsuspend s hpc hf), rfl, rfl, rfl⟩

theorem not_wakeable {s s' : State} {a : Act} (h : Phase s s.pc) (hs : step s a = some s')
    (hok : wakeable s a = false) : ∃ t, Reach step s' t ∧ ¬ Wakes t := by
  obtain ⟨rfl, hpc, hint⟩ : a = .deliver .sigquit ∧ (s.pc = .print ∨ s.pc = .suspend) ∧
      s.signals.pending .sigint = false := by
    unfold wakeable at hok
    split at hok
    · refine ⟨rfl, ?_⟩
      simpa [Decidable.or_iff_not_imp_left] using hok
    · cases hok
  obtain ⟨hw, hne, ha⟩ := h.window hpc
  unfold step at hs
  rw [if_pos ha] at hs
  obtain ⟨hp, hb, ⟨-, rfl⟩ | ⟨hc, -⟩⟩ := deliverStep_cases hs
  · simp only [hne, if_false]
    obtain ⟨t, hrt, hpct, hsigt, hqt⟩ := handler_returns (s := { s with
      signals := s.signals.deliver .sigquit (inForce s) .body, pc := s.pc }) rfl ha
    obtain ⟨u, hru, hpcu, hsigu, hqu⟩ := handlers_return _ t (by rw [hsigt]) (by rw [hpct]; exact ha)
      (hqt (.inr ⟨rfl, rfl⟩))
    obtain ⟨v, hrv, hpcv, hsigv, hqv⟩ := falls_asleep (s := u) (by rw [hpcu, hpct]; exact hpc) (by rw [hsigu])
    refine ⟨v, (hrt.trans hru).trans hrv, fun hwake => hwake.notLost ⟨hqv.trans hqu, hpcv, fun sig => ?_⟩⟩
    rw [hsigv, hsigu, hsigt]
    cases sig with
    | sigint => simp [Signals.deliver, hint]
    | sigquit => simp [Signals.deliver]
  · rw [hw.caught] at hc
    cases hc

/-- **A handled SIGQUIT ends the loop in every run in which none is delivered between the test and `sigsuspend` without a
SIGINT that waits, and one that is can leave `main` asleep for good.** -/
theorem sigquit_ends (mask : Sig → Bool) : Exact wakeable step Wakes (init mask) :=
  exact_of_inv (fun s => Phase s s.pc) trivial (fun _ _ _ h hok hs => phase_step h hok hs) (fun _ h => phase_wakes h)
    (fun _ _ _ h hs hok => not_wakeable h hs hok)

/-- SIGQUIT comes when `main` has found the flag 0 and is about to suspend. -/
def lostQuit : List Act :=
  [.main true, .main true, .main true, .main true, .main true, .arrive .sigquit, .deliver .sigquit, .handler, .handler,
    .main true]

/-- **`main` sleeps, with the flag set and nothing pending.** -/
theorem sigquit_lost : ∃ s, run step lostQuit (init (fun _ => false)) = some s ∧ Lost s := by
  refine ⟨_, rfl, rfl, rfl, fun sig => ?_⟩
  cases sig with
  | sigint => rfl
  | sigquit => rfl

end Ch10SigsuspendGlobal
end Cc
