import CCplusplus.Ch10SignalFork
/-!
# Ch10SignalForkRuns — whether the child's signal reaches the parent's handler

The parent installs its handler after `fork`, so the child can be the faster one: its SIGUSR2 then kills the parent.
Where SIGUSR2 is caught by then, or blocked from the start, it sets the flag or waits for `sigsuspend`, and the handshake
holds (`handshake`).
-/
namespace Cc
namespace Ch10SignalFork

open CLib

/-- The child has called `TELL_PARENT`. -/
def told : ChildPc → Bool
  | .exit => true
  | .ended => true
  | _ => false

/-- The parent is past `WAIT_CHILD`'s loop. -/
def passed : ParentPc → Bool
  | .clear => true
  | .restore => true
  | .done => true
  | .exit => true
  | .ended (.exit _) => true
  | _ => false

structure Handshake (s : State) : Prop where
  alive : ∀ sig, s.parent ≠ .ended (.killed sig)
  waits : passed s.parent = true → told s.child = true
  wakes : ¬ (s.child = .ended ∧ s.parent = .asleep ∧ (∀ sig, s.signals.pending sig = false) ∧ s.sigflag = 0)

/-- The child tells a parent that catches SIGUSR2 or blocks it, or that has ended. -/
def ready (s : State) : Act → Bool
  | .child => !decide (s.child = .tell) || !alive s.parent || s.caught .sigusr2 || s.signals.mask .sigusr2
  | _ => true

/-! ## The phases of the parent -/

/-- What the parent has of the child's signal comes from the child, and there is no other. -/
structure Sent (s : State) : Prop where
  usr1 : s.signals.pending .sigusr1 = false
  source : s.sigflag ≠ 0 ∨ s.signals.pending .sigusr2 = true ∨ s.signals.frames ≠ [] → told s.child = true

/-- Before SIGUSR2 is caught: where it is pending, it is blocked. -/
structure Early (s : State) : Prop where
  caught : s.caught .sigusr2 = false
  frames : s.signals.frames = []
  blocked : s.signals.pending .sigusr2 = true → s.signals.mask .sigusr2 = true
  kept : told s.child = true → s.signals.pending .sigusr2 = true

/-- From the installation of the handlers to the loop's end: the signal is not lost. -/
structure Waiting (s : State) : Prop where
  caught : ∀ sig, s.caught sig = true
  kept : told s.child = true →
    s.sigflag ≠ 0 ∨ s.signals.pending .sigusr2 = true ∨ ∃ f ∈ s.signals.frames, f.pc = .body

structure Past (s : State) : Prop where
  caught : ∀ sig, s.caught sig = true
  told : told s.child = true

/-- What holds where the parent stands at a statement, in the runs whose steps are all `ready`. -/
def Phase (s : State) : ParentPc → Prop
  | .fork => Early s ∧ s.child = .unborn
  | .signalUsr1 => Early s
  | .signalUsr2 => Early s ∧ s.caught .sigusr1 = true
  | .block => Waiting s
  | .running => Waiting s
  | .test => Waiting s
  | .suspend => Waiting s
  | .asleep => Waiting s ∧ s.signals.frames = []
  | .clear => Past s
  | .restore => Past s
  | .done => Past s
  | .exit => Past s
  | .ended (.exit _) => told s.child = true
  | .ended (.errSys _) => True
  | .ended (.killed _) => False

structure Inv (s : State) : Prop where
  sent : Sent s
  phase : Phase s s.parent

theorem inv_init (mask : Sig → Bool) : Inv (init mask) where
  sent := ⟨rfl, fun h => by simp [init] at h⟩
  phase := ⟨⟨rfl, rfl, nofun, nofun⟩, rfl⟩

theorem inv_handshake {s : State} (h : Inv s) : Handshake s where
  alive := fun sig hp => by
    have hph := h.phase
    rw [hp] at hph
    exact hph
  waits := fun hp => by
    have hph := h.phase
    revert hp hph
    cases s.parent with
    | clear => exact fun _ hph => Past.told hph
    | restore => exact fun _ hph => Past.told hph
    | done => exact fun _ hph => Past.told hph
    | exit => exact fun _ hph => Past.told hph
    | ended e =>
      cases e with
      | exit status => exact fun _ hph => hph
      | _ => nofun
    | _ => nofun
  wakes := by
    rintro ⟨hc, hp, hnone, hflag⟩
    have hph := h.phase
    rw [hp] at hph
    obtain ⟨hw, hf⟩ := hph
    rcases hw.kept (by rw [hc]; rfl) with hk | hk | ⟨f, hm, -⟩
    · exact hk hflag
    · rw [hnone] at hk
      cases hk
    · rw [hf] at hm
      cases hm

/-! ## The steps -/

theorem parent_inv {s s' : State} {success : Bool} (h : Inv s) (hf : s.signals.frames = [])
    (hs : parentStep s success = some s') : Inv s' := by
  obtain ⟨hsent, hph⟩ := h
  unfold parentStep at hs
  cases hpc : s.parent with
  | fork =>
    rw [hpc] at hs hph
    obtain ⟨he, hu⟩ := hph
    simp only at hs
    split at hs
    · cases hs
      have hnot : told s.child ≠ true := by rw [hu]; nofun
      exact ⟨⟨hsent.usr1, fun hx => absurd (hsent.source hx) hnot⟩, he.caught, he.frames, he.blocked, nofun⟩
    · cases hs
      exact ⟨⟨hsent.usr1, hsent.source⟩, trivial⟩
  | signalUsr1 =>
    rw [hpc] at hs hph
    have he : Early s := hph
    simp only at hs
    split at hs
    · cases hs
      exact ⟨⟨hsent.usr1, hsent.source⟩, ⟨he.caught, he.frames, he.blocked, he.kept⟩, rfl⟩
    · cases hs
      exact ⟨⟨hsent.usr1, hsent.source⟩, trivial⟩
  | signalUsr2 =>
    rw [hpc] at hs hph
    obtain ⟨he, h1⟩ := hph
    simp only at hs
    split at hs
    · cases hs
      refine ⟨⟨hsent.usr1, hsent.source⟩, ⟨fun sig => ?_, fun ht => .inr (.inl (he.kept ht))⟩⟩
      cases sig with
      | sigusr1 => exact h1
      | sigusr2 => rfl
    · cases hs
      exact ⟨⟨hsent.usr1, hsent.source⟩, trivial⟩
  | block =>
    rw [hpc] at hs hph
    have hw : Waiting s := hph
    simp only at hs
    split at hs
    · cases hs
      exact ⟨⟨hsent.usr1, hsent.source⟩, hw.caught, hw.kept⟩
    · cases hs
      exact ⟨⟨hsent.usr1, hsent.source⟩, trivial⟩
  | running =>
    rw [hpc] at hs hph
    cases hs
    have hw : Waiting s := hph
    exact ⟨⟨hsent.usr1, hsent.source⟩, hw.caught, hw.kept⟩
  | test =>
    rw [hpc] at hs hph
    cases hs
    have hw : Waiting s := hph
    refine ⟨⟨hsent.usr1, hsent.source⟩, ?_⟩
    by_cases hq : s.sigflag = 0
    · simp only [hq, if_true]
      have hkept := hw.kept
      rw [hq] at hkept
      exact ⟨hw.caught, hkept⟩
    · simp only [hq, if_false]
      exact ⟨hw.caught, hsent.source (.inl hq)⟩
  | suspend =>
    rw [hpc] at hs hph
    cases hs
    have hw : Waiting s := hph
    exact ⟨⟨hsent.usr1, hsent.source⟩, ⟨hw.caught, hw.kept⟩, hf⟩
  | asleep =>
    rw [hpc] at hs
    cases hs
  | clear =>
    rw [hpc] at hs hph
    cases hs
    have hp : Past s := hph
    exact ⟨⟨hsent.usr1, fun _ => hp.told⟩, hp.caught, hp.told⟩
  | restore =>
    rw [hpc] at hs hph
    have hp : Past s := hph
    simp only at hs
    split at hs
    · cases hs
      exact ⟨⟨hsent.usr1, hsent.source⟩, hp.caught, hp.told⟩
    · cases hs
      exact ⟨⟨hsent.usr1, hsent.source⟩, trivial⟩
  | done =>
    rw [hpc] at hs hph
    cases hs
    have hp : Past s := hph
    exact ⟨⟨hsent.usr1, hsent.source⟩, hp.caught, hp.told⟩
  | exit =>
    rw [hpc] at hs hph
    cases hs
    have hp : Past s := hph
    exact ⟨⟨hsent.usr1, hsent.source⟩, hp.told⟩
  | ended e =>
    rw [hpc] at hs
    cases hs

/-- A phase is kept by a step that does not move the parent and keeps what the phases are made of. -/
theorem Phase.keep {s s' : State} {pc : ParentPc} (h : Phase s pc) (hc : s'.caught = s.caught)
    (ht : told s.child = true → told s'.child = true) (hfork : pc = .fork → s'.child = s.child)
    (he : Early s → Early s') (hw : Waiting s → Waiting s')
    (ha : pc = .asleep → s.signals.frames = [] → s'.signals.frames = []) : Phase s' pc := by
  have hp : Past s → Past s' := fun hp => ⟨by rw [hc]; exact hp.caught, ht hp.told⟩
  cases pc with
  | fork => exact ⟨he h.1, (hfork rfl).trans h.2⟩
  | signalUsr1 => exact he h
  | signalUsr2 => exact ⟨he h.1, (congrFun hc _).trans h.2⟩
  | block => exact hw h
  | running => exact hw h
  | test => exact hw h
  | suspend => exact hw h
  | asleep => exact ⟨hw h.1, ha rfl h.2⟩
  | clear => exact hp h
  | restore => exact hp h
  | done => exact hp h
  | exit => exact hp h
  | ended e =>
    cases e with
    | exit status => exact ht h
    | errSys msg => trivial
    | killed sig => exact h

theorem handler_inv {s s' : State} (h : Inv s) (hs : handlerStep s = some s') : Inv s' := by
  unfold handlerStep at hs
  cases hf : s.signals.frames with
  | nil =>
    rw [hf] at hs
    cases hs
  | cons f fs =>
    have htold : told s.child = true := h.sent.source (.inr (.inr (by rw [hf]; nofun)))
    have hearly : ∀ {t : State}, Early s → Early t := fun he => nomatch hf.symm.trans he.frames
    have hasleep : ∀ {fs' : List (Frame Sig HandlerPc)}, s.parent = .asleep → s.signals.frames = [] → fs' = [] :=
      fun _ hnil => nomatch hf.symm.trans hnil
    rw [hf] at hs
    simp only at hs
    split at hs
    · cases hs
      have hg := Signals.goOn_cons hf .ret
      exact ⟨⟨by rw [hg]; exact h.sent.usr1, fun _ => htold⟩,
        h.phase.keep rfl id (fun _ => rfl) hearly (fun hw => ⟨hw.caught, fun _ => .inl (by simp)⟩) hasleep⟩
    · rename_i hret
      cases hs
      refine ⟨⟨h.sent.usr1, fun _ => htold⟩,
        h.phase.keep rfl id (fun _ => rfl) hearly (fun hw => ⟨hw.caught, fun ht => ?_⟩) hasleep⟩
      -- the handler that returns has set the flag, and another that is about to is below it
      refine (hw.kept ht).imp_right (Or.imp_right ?_)
      rintro ⟨f', hm, hb⟩
      rw [hf] at hm
      rcases List.mem_cons.1 hm with rfl | hm
      · rw [hret] at hb
        cases hb
      · exact ⟨f', by simpa [Signals.leave, hf] using hm, hb⟩

theorem child_inv {s s' : State} (h : Inv s) (hok : ready s .child = true) (hs : childStep s = some s') : Inv s' := by
  -- a statement of the child before it tells the parent, or after
  have hother : ∀ (c : ChildPc) (printed : List String), s.child ≠ .unborn → told c = told s.child →
      Inv { s with child := c, printed := printed } := fun c printed hu ht =>
    ⟨⟨h.sent.usr1, fun hx => ht.trans (h.sent.source hx)⟩,
      h.phase.keep rfl (fun hc => ht.trans hc) (fun hp => by
          have hph := h.phase
          rw [hp] at hph
          exact absurd hph.2 hu)
        (fun he => ⟨he.caught, he.frames, he.blocked, fun hc => he.kept (ht.symm.trans hc)⟩)
        (fun hw => ⟨hw.caught, fun hc => hw.kept (ht.symm.trans hc)⟩) (fun _ hf => hf)⟩
  unfold childStep at hs
  cases hc : s.child with
  | unborn =>
    rw [hc] at hs
    cases hs
  | running =>
    rw [hc] at hs
    cases hs
    exact hother .sleep _ (by rw [hc]; nofun) (by rw [hc]; rfl)
  | sleep =>
    rw [hc] at hs
    cases hs
    exact hother .done _ (by rw [hc]; nofun) (by rw [hc]; rfl)
  | done =>
    rw [hc] at hs
    cases hs
    exact hother .tell _ (by rw [hc]; nofun) (by rw [hc]; rfl)
  | tell =>
    rw [hc] at hs
    cases hs
    by_cases ha : alive s.parent = true
    · rw [if_pos ha]
      have hpend : (s.signals.arrive .sigusr2).pending .sigusr2 = true := (Signals.pending_arrive ..).2 (.inl rfl)
      refine ⟨⟨h.sent.usr1, fun _ => rfl⟩, h.phase.keep rfl (fun _ => rfl) (fun hp => ?_)
        (fun he => ⟨he.caught, he.frames, fun _ => ?_, fun _ => hpend⟩)
        (fun hw => ⟨hw.caught, fun _ => .inr (.inl hpend)⟩) (fun _ hf => hf)⟩
      · have hph := h.phase
        rw [hp] at hph
        exact nomatch hc.symm.trans hph.2
      · -- not caught, so it is blocked
        unfold ready at hok
        rw [ha, he.caught, hc] at hok
        exact hok
    · rw [if_neg ha]
      refine ⟨⟨h.sent.usr1, fun _ => rfl⟩, ?_⟩
      have hph := h.phase
      cases hp : s.parent with
      | ended e =>
        rw [hp] at hph
        cases e with
        | exit status => rfl
        | errSys msg => trivial
        | killed sig => exact hph
      | _ =>
        rw [hp] at ha
        exact absurd rfl ha
  | exit =>
    rw [hc] at hs
    cases hs
    exact hother .ended _ (by rw [hc]; nofun) (by rw [hc]; rfl)
  | ended =>
    rw [hc] at hs
    cases hs

theorem deliverStep_cases {s s' : State} {sig : Sig} (hs : deliverStep s sig = some s') :
    s.signals.pending sig = true ∧ inForce s sig = false ∧
      ((s.caught sig = true ∧ s' = { s with
          signals := s.signals.deliver sig (inForce s) .body
          parent := if s.parent = .asleep then .test else s.parent }) ∨
        (s.caught sig = false ∧ s' = { s with parent := .ended (.killed sig) })) :=
  Signals.delivered hs

/-- The parent catches SIGUSR2, or it stands before the call that installs the handler. -/
theorem Phase.early {s : State} (h : Phase s s.parent) (ha : alive s.parent = true) (hc : s.caught .sigusr2 = false) :
    Early s ∧ s.parent ≠ .asleep := by
  have hw : ¬ ∀ sig, s.caught sig = true := fun hall => by
    rw [hall] at hc
    cases hc
  revert h ha
  cases s.parent with
  | fork => exact fun h _ => ⟨h.1, nofun⟩
  | signalUsr1 => exact fun h _ => ⟨h, nofun⟩
  | signalUsr2 => exact fun h _ => ⟨h.1, nofun⟩
  | block => exact fun h _ => absurd (Waiting.caught h) hw
  | running => exact fun h _ => absurd (Waiting.caught h) hw
  | test => exact fun h _ => absurd (Waiting.caught h) hw
  | suspend => exact fun h _ => absurd (Waiting.caught h) hw
  | asleep => exact fun h _ => absurd h.1.caught hw
  | clear => exact fun h _ => absurd (Past.caught h) hw
  | restore => exact fun h _ => absurd (Past.caught h) hw
  | done => exact fun h _ => absurd (Past.caught h) hw
  | exit => exact fun h _ => absurd (Past.caught h) hw
  | ended e => exact fun _ ha => nomatch ha

theorem Early.inForce {s : State} (h : Early s) (hp : s.parent ≠ .asleep) : inForce s = s.signals.mask := by
  unfold Ch10SignalFork.inForce
  rw [if_neg hp, Signals.inForce_nil h.frames]

theorem deliver_inv {s s' : State} {sig : Sig} (h : Inv s) (ha : alive s.parent = true)
    (hs : deliverStep s sig = some s') : Inv s' := by
  obtain ⟨hp, hb, hcase⟩ := deliverStep_cases hs
  obtain rfl : sig = .sigusr2 := by
    cases sig with
    | sigusr1 => exact nomatch hp.symm.trans h.sent.usr1
    | sigusr2 => rfl
  -- where it is not caught yet, it is blocked
  have hcaught : s.caught .sigusr2 = true := by
    by_contra hc
    obtain ⟨he, hne⟩ := h.phase.early ha (Bool.eq_false_iff.2 hc)
    rw [he.inForce hne, he.blocked hp] at hb
    cases hb
  have htold : told s.child = true := h.sent.source (.inr (.inl hp))
  rcases hcase with ⟨-, rfl⟩ | ⟨hc, -⟩
  · have hw : Waiting s → Waiting { s with signals := s.signals.deliver .sigusr2 (inForce s) .body } := fun hw =>
      ⟨hw.caught, fun _ => .inr (.inr ⟨_, List.mem_cons_self, rfl⟩)⟩
    refine ⟨⟨by simpa [Signals.deliver] using h.sent.usr1, fun _ => htold⟩, ?_⟩
    by_cases hasleep : s.parent = .asleep
    · have hph := h.phase
      rw [hasleep] at hph
      simp only [hasleep, if_true]
      exact ⟨hph.1.caught, (hw hph.1).kept⟩
    · simp only [hasleep, if_false]
      exact h.phase.keep rfl id (fun _ => rfl) (fun he => nomatch hcaught.symm.trans he.caught)
        (fun hw' => ⟨hw'.caught, (hw hw').kept⟩) (fun hp => absurd hp hasleep)
  · rw [hcaught] at hc
    cases hc

/-- **A ready step keeps the invariant.** -/
theorem inv_step {s s' : State} {a : Act} (h : Inv s) (hok : ready s a = true) (hs : step s a = some s') : Inv s' := by
  unfold step at hs
  cases a with
  | parent success =>
    simp only at hs
    split at hs
    · rename_i hf
      exact parent_inv h (List.isEmpty_iff.1 hf) hs
    · cases hs
  | handler =>
    simp only at hs
    split at hs
    · exact handler_inv h hs
    · cases hs
  | child => exact child_inv h hok hs
  | deliver sig =>
    simp only at hs
    split at hs
    · rename_i ha
      exact deliver_inv h ha hs
    · cases hs

/-- The child that tells a parent that is not ready has killed it. -/
theorem not_ready {s s' : State} {a : Act} (h : Inv s) (hs : step s a = some s') (hok : ready s a = false) :
    ∃ t, Reach step s' t ∧ ¬ Handshake t := by
  obtain ⟨rfl, hc, ha, hcaught, hmask⟩ : a = .child ∧ s.child = .tell ∧ alive s.parent = true ∧
      s.caught .sigusr2 = false ∧ s.signals.mask .sigusr2 = false := by
    unfold ready at hok
    split at hok
    · refine ⟨rfl, ?_⟩
      simpa [and_assoc] using hok
    · cases hok
  obtain ⟨he, hne⟩ := h.phase.early ha hcaught
  simp only [step, childStep, hc, ha, if_true] at hs
  cases hs
  refine ⟨_, Reach.of_step (a := .deliver .sigusr2) (t := { s with
    signals := s.signals.arrive .sigusr2, child := .exit, parent := .ended (.killed .sigusr2) }) ?_,
    fun hk => hk.alive .sigusr2 rfl⟩
  have hforce : (s.signals.arrive .sigusr2).inForce = s.signals.mask := Signals.inForce_nil he.frames
  have hpend : (s.signals.arrive .sigusr2).pending .sigusr2 = true := (Signals.pending_arrive ..).2 (.inl rfl)
  simp [step, deliverStep, inForce, ha, hne, hforce, hpend, hmask, hcaught]

/-- **The handshake holds in every run in which the child tells a parent that catches SIGUSR2 by then or blocks it from
the start; a child that is faster can kill the parent.** -/
theorem handshake (mask : Sig → Bool) : Exact ready step Handshake (init mask) :=
  exact_of_inv Inv (inv_init mask) (fun _ _ _ h hok hs => inv_step h hok hs) (fun _ h => inv_handshake h)
    (fun _ _ _ h hs hok => not_ready h hs hok)

/-- The child runs to its end before the parent comes to `TELL_WAIT`. -/
def fastChild : List Act :=
  [.parent true, .child, .child, .child, .child, .child, .deliver .sigusr2]

/-- **The child's SIGUSR2 kills the parent.** -/
theorem parent_killed : ∃ s, run step fastChild (init (fun _ => false)) = some s ∧ s.child = .ended ∧
    s.parent = .ended (.killed .sigusr2) ∧ ¬ Handshake s :=
  ⟨_, rfl, rfl, rfl, fun h => h.alive .sigusr2 rfl⟩

end Ch10SignalFork
end Cc
