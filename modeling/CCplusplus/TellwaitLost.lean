import CCplusplus.Tellwait
/-!
# TellwaitLost — a wake-up that comes between the test and `sigsuspend`

`TELL_WAIT` blocks the two signals, so that none is delivered between the test of `sigflag` and `sigsuspend`; but the
first wait ends by restoring the inherited mask, and later waits run under that.  A process can sleep with its flag set
exactly if it waits twice and inherits a mask that lets one of the two signals through, and never in its first wait
(`lost_iff`), whatever both processes do between the waits.
-/
namespace Cc
namespace Tellwait

open CLib

def Pc.waits : Pc → Nat
  | .next => 0
  | .ended _ => 0
  | _ => 1

/-- The waits that a process has before it, with the one that is under way. -/
def Proc.waits (p : Proc) : Nat := p.pc.waits + p.script.count .wait

/-- The process sleeps although it has been told. -/
def Proc.lost (p : Proc) : Prop := p.pc = .asleep ∧ p.sigflag ≠ 0

/-- Of `n` waits, the first one runs under the mask of `TELL_WAIT`. -/
structure Masked (oldmask : Sig → Bool) (n : Nat) (p : Proc) : Prop where
  le : p.waits ≤ n
  mask : (∀ sig, p.mask sig = true) ∨ p.waits < n ∧ p.mask = oldmask

namespace Masked

variable {oldmask : Sig → Bool} {n : Nat} {p p' : Proc}

/-- A process as `fork` leaves it. -/
theorem start (oldmask : Sig → Bool) (script : List Stmt) (pending : Sig → Bool) (sigflag : Int) :
    Masked oldmask (script.count .wait) ⟨script, .next, fun sig => newmask sig || oldmask sig, pending, sigflag⟩ where
  le := Nat.le_of_eq (Nat.zero_add _)
  mask := .inl (fun _ => rfl)

/-- The same waits under the same mask. -/
theorem same (h : Masked oldmask n p) (hwaits : p'.waits = p.waits) (hmask : p'.mask = p.mask) : Masked oldmask n p' := by
  constructor
  · rw [hwaits]
    exact h.le
  · rw [hwaits, hmask]
    exact h.mask

theorem arrive (h : Masked oldmask n p) (sig : Sig) : Masked oldmask n (p.arrive sig) := by
  unfold Proc.arrive
  split
  · exact h.same rfl rfl
  · exact h

theorem deliver {sig : Sig} (h : Masked oldmask n p) (hd : p.deliver sig = some p') : Masked oldmask n p' := by
  unfold Proc.deliver at hd
  split at hd
  · cases hd
    refine h.same ?_ rfl
    unfold Proc.waits
    simp only
    split
    · rename_i hpc
      rw [hpc]
      rfl
    · rfl
  · cases hd

theorem go {success : Bool} {e : Option Stmt} (h : Masked oldmask n p) (hgo : p.go oldmask success = some (p', e)) :
    Masked oldmask n p' := by
  unfold Proc.go at hgo
  split at hgo
  · rename_i hpc
    split at hgo
    · rename_i hscript
      cases hgo
      exact h.same (by simp [Proc.waits, Pc.waits, hpc]) rfl
    · rename_i hscript
      cases hgo
      exact h.same (by simp [Proc.waits, hscript]) rfl
    · rename_i hscript
      cases hgo
      exact h.same (by simp [Proc.waits, hscript]) rfl
    · rename_i hscript
      cases hgo
      exact h.same (by simp [Proc.waits, Pc.waits, hpc, hscript, Nat.add_comm]) rfl
  · rename_i hpc
    cases hgo
    refine h.same ?_ rfl
    simp only [Proc.waits, hpc]
    split <;> rfl
  · rename_i hpc
    cases hgo
    exact h.same (by simp [Proc.waits, Pc.waits, hpc]) rfl
  · cases hgo
  · rename_i hpc
    cases hgo
    exact h.same (by simp [Proc.waits, Pc.waits, hpc]) rfl
  · rename_i hpc
    have hle := h.le
    simp only [Proc.waits, Pc.waits, hpc] at hle
    split at hgo
    · cases hgo
      refine ⟨?_, .inr ⟨?_, rfl⟩⟩
      · simp only [Proc.waits, Pc.waits]
        omega
      · simp only [Proc.waits, Pc.waits]
        omega
    · cases hgo
      refine ⟨?_, h.mask.imp (fun hall => hall) (fun hold => ⟨?_, hold.2⟩)⟩
      · simp only [Proc.waits, Pc.waits]
        omega
      · simp only [Proc.waits, Pc.waits]
        omega
  · cases hgo

theorem step {s s' : State} {a : Act} {who : Who} (h : Masked oldmask n (s.proc who))
    (hs : step oldmask s a = some s') : Masked oldmask n (s'.proc who) := by
  rcases step_proc hs who with ⟨_, _, _, hgo⟩ | ⟨_, _, hd⟩ | ⟨sig, hsig⟩ | hsame
  · exact h.go hgo
  · exact h.deliver hd
  · rw [hsig]
    exact h.arrive sig
  · rw [hsame]
    exact h

/-- A wait under way is under a mask that blocks both signals. -/
theorem blocks (h : Masked oldmask n p) (hfew : ¬ (2 ≤ n ∧ ∃ sig, oldmask sig = false)) (hpc : p.pc.waits = 1)
    (sig : Sig) : p.mask sig = true := by
  rcases h.mask with hall | ⟨hlt, hold⟩
  · exact hall sig
  · rw [hold]
    by_contra hopen
    refine hfew ⟨?_, sig, by simpa using hopen⟩
    unfold Proc.waits at hlt
    omega

end Masked

/-- A wake-up is lost only under a mask that lets one of the signals through. -/
def Awake (p : Proc) : Prop := p.pc = .suspend ∨ p.pc = .asleep → p.sigflag = 0 ∨ ∃ sig, p.mask sig = false

theorem Awake.arrive {p : Proc} (h : Awake p) (sig : Sig) : Awake (p.arrive sig) := by
  unfold Proc.arrive
  split
  · exact h
  · exact h

theorem Awake.go {oldmask : Sig → Bool} {p p' : Proc} {success : Bool} {e : Option Stmt} (h : Awake p)
    (hgo : p.go oldmask success = some (p', e)) : Awake p' := by
  unfold Proc.go at hgo
  split at hgo
  · rename_i hpc
    have hnot : ¬ (p.pc = .suspend ∨ p.pc = .asleep) := by simp [hpc]
    split at hgo <;> cases hgo
    · exact fun hp => by simp at hp
    · exact fun hp => absurd hp hnot
    · exact fun hp => absurd hp hnot
    · exact fun hp => by simp at hp
  · cases hgo
    intro hp
    left
    by_contra hflag
    rw [if_neg hflag] at hp
    simp at hp
  · rename_i hpc
    cases hgo
    exact fun _ => h (.inl hpc)
  · cases hgo
  · cases hgo
    exact fun hp => by simp at hp
  · split at hgo <;> cases hgo
    · exact fun hp => by simp at hp
    · exact fun hp => by simp at hp
  · cases hgo

/-- What is delivered before `sigsuspend` is let through. -/
theorem Awake.deliver {p p' : Proc} {sig : Sig} (hd : p.deliver sig = some p') : Awake p' := by
  unfold Proc.deliver at hd
  split at hd
  · rename_i hok
    cases hd
    intro hp
    simp only at hp
    split at hp
    · simp at hp
    · rename_i hawake
      have hsuspend : p.pc = .suspend := hp.resolve_right hawake
      right
      refine ⟨sig, ?_⟩
      simpa [hsuspend, Pc.alive] using (Bool.and_eq_true_iff.1 hok).2
  · cases hd

theorem Awake.step {oldmask : Sig → Bool} {s s' : State} {a : Act} {who : Who} (h : Awake (s.proc who))
    (hs : step oldmask s a = some s') : Awake (s'.proc who) := by
  rcases step_proc hs who with ⟨_, _, _, hgo⟩ | ⟨_, _, hd⟩ | ⟨sig, hsig⟩ | hsame
  · exact h.go hgo
  · exact .deliver hd
  · rw [hsig]
    exact h.arrive sig
  · rw [hsame]
    exact h

/-! ## A process alone -/

section Reaching

variable {oldmask : Sig → Bool} {who : Who}

/-- Some run leads from the state to one with the process as given. -/
def Leads (oldmask : Sig → Bool) (s : State) (who : Who) (p : Proc) : Prop :=
  ∃ t, Reach (step oldmask) s t ∧ t.proc who = p

theorem Leads.trans {s : State} {p q : Proc} (h : Leads oldmask s who p)
    (hq : ∀ t, t.proc who = p → Leads oldmask t who q) : Leads oldmask s who q := by
  obtain ⟨t, hreach, ht⟩ := h
  obtain ⟨u, hreach', hu⟩ := hq t ht
  exact ⟨u, hreach.trans hreach', hu⟩

theorem Leads.of_reach {s : State} {p : Proc} (h : Reach (restrict calm (step oldmask)) s (s.set who p)) :
    Leads oldmask s who p :=
  ⟨s.set who p, h.of_restrict, State.set_proc s who p⟩

theorem leads_go {s : State} {p : Proc} {e : Option Stmt} (h : (s.proc who).go oldmask true = some (p, e)) :
    Leads oldmask s who p :=
  ⟨(s.set who p).emit who e, (reach_go oldmask h).of_restrict, by rw [State.emit_proc, State.set_proc]⟩

theorem leads_signal (oldmask : Sig → Bool) (s : State) (who : Who) (sig : Sig) : Leads oldmask s who ((s.proc who).arrive sig) :=
  ⟨_, Reach.of_step (a := .signal who sig) rfl, State.set_proc s who _⟩

/-- A process that waits is woken by a signal of others. -/
theorem leads_wait (oldmask : Sig → Bool) {s : State} {rest : List Stmt} {mask pending : Sig → Bool}
    (hs : s.proc who = ⟨.wait :: rest, .next, mask, pending, 0⟩) :
    ∃ pending, Leads oldmask s who ⟨rest, .next, oldmask, pending, 0⟩ := by
  refine ⟨Function.update (Function.update pending .sigusr1 true) .sigusr1 false, ?_⟩
  refine (Leads.of_reach (reach_then (reach_suspend oldmask rfl hs) rfl)).trans fun t₁ h₁ => ?_
  have hsignal : Leads oldmask t₁ who ⟨rest, .asleep, mask, Function.update pending .sigusr1 true, 0⟩ := by
    have h := leads_signal oldmask t₁ who .sigusr1
    rw [h₁] at h
    exact h
  exact hsignal.trans fun t₂ h₂ => Leads.of_reach (reach_woken oldmask (Function.update_self ..) h₂)

/-- A process comes to any part of its script, and its mask is the inherited one if it has waited. -/
theorem leads_rest (oldmask : Sig → Bool) : ∀ (pre rest : List Stmt) (mask pending : Sig → Bool) (s : State),
    s.proc who = ⟨pre ++ rest, .next, mask, pending, 0⟩ →
    ∃ mask' pending', Leads oldmask s who ⟨rest, .next, mask', pending', 0⟩ ∧
      (mask = oldmask ∨ .wait ∈ pre → mask' = oldmask)
  | [], rest, mask, pending, s, hs =>
    ⟨mask, pending, ⟨s, .refl s, hs⟩, fun h => h.resolve_right List.not_mem_nil⟩
  | .wait :: pre, rest, mask, pending, s, hs => by
    have hwait : s.proc who = ⟨.wait :: (pre ++ rest), .next, mask, pending, 0⟩ := hs
    obtain ⟨pending₁, t, hreach, ht⟩ := leads_wait oldmask hwait
    obtain ⟨mask', pending', ⟨u, hreach', hu⟩, hmask⟩ := leads_rest oldmask pre rest oldmask pending₁ t ht
    exact ⟨mask', pending', ⟨u, hreach.trans hreach', hu⟩, fun _ => hmask (.inl rfl)⟩
  | .put c :: pre, rest, mask, pending, s, hs => by
    obtain ⟨t, hreach, ht⟩ : Leads oldmask s who ⟨pre ++ rest, .next, mask, pending, 0⟩ :=
      leads_go (e := some (.put c)) (by rw [hs]; rfl)
    obtain ⟨mask', pending', ⟨u, hreach', hu⟩, hmask⟩ := leads_rest oldmask pre rest mask pending t ht
    refine ⟨mask', pending', ⟨u, hreach.trans hreach', hu⟩, fun h => hmask (h.imp_right fun hw => ?_)⟩
    simpa using hw
  | .tell :: pre, rest, mask, pending, s, hs => by
    obtain ⟨t, hreach, ht⟩ : Leads oldmask s who ⟨pre ++ rest, .next, mask, pending, 0⟩ :=
      leads_go (e := some .tell) (by rw [hs]; rfl)
    obtain ⟨mask', pending', ⟨u, hreach', hu⟩, hmask⟩ := leads_rest oldmask pre rest mask pending t ht
    refine ⟨mask', pending', ⟨u, hreach.trans hreach', hu⟩, fun h => hmask (h.imp_right fun hw => ?_)⟩
    simpa using hw

end Reaching

/-- A script with two waits, cut at the second of them or a later one. -/
theorem cut_wait {script : List Stmt} (h : 2 ≤ script.count .wait) :
    ∃ pre rest, script = pre ++ .wait :: rest ∧ .wait ∈ pre := by
  obtain ⟨pre, rest, rfl⟩ := List.append_of_mem (List.count_pos_iff.1 (Nat.lt_of_lt_of_le Nat.two_pos h))
  by_cases hpre : Stmt.wait ∈ pre
  · exact ⟨pre, rest, rfl, hpre⟩
  · rw [List.count_append, List.count_eq_zero_of_not_mem hpre, List.count_cons_self] at h
    obtain ⟨mid, rest', rfl⟩ := List.append_of_mem (List.count_pos_iff.1 (show 0 < rest.count .wait by omega))
    exact ⟨pre ++ .wait :: mid, rest', by simp, by simp⟩

/-- A process that has lost a wake-up has waited before, and runs under the inherited mask. -/
theorem lost_masked {oldmask : Sig → Bool} {script : Who → List Stmt} {who : Who} {s : State}
    (h : Reach (System.step oldmask script) (init oldmask) (.forked s)) (hlost : (s.proc who).lost) :
    (s.proc who).waits < (script who).count .wait ∧ ∃ sig, oldmask sig = false := by
  obtain ⟨hmasked, hawake⟩ := System.forked_inv
    (fun s => Masked oldmask ((script who).count Stmt.wait) (s.proc who) ∧ Awake (s.proc who))
    (fun p hp hpc => by
      have hmask := hp.mask
      rw [if_pos hpc] at hmask
      unfold Setup.forked
      rw [hmask]
      cases who with
      | parent => exact ⟨.start oldmask _ _ _, fun hat => by simp at hat⟩
      | child => exact ⟨.start oldmask _ _ _, fun hat => by simp at hat⟩)
    (fun s a s' hi hs => ⟨hi.1.step hs, hi.2.step hs⟩) h
  obtain ⟨sig, hopen⟩ := (hawake (.inr hlost.1)).resolve_left hlost.2
  rcases hmasked.mask with hall | ⟨hlt, hold⟩
  · rw [hall sig] at hopen
    cases hopen
  · exact ⟨hlt, sig, hold ▸ hopen⟩

/-- A process that waits twice loses a signal that the inherited mask lets through. -/
theorem leads_lost {oldmask : Sig → Bool} {script : Who → List Stmt} {who : Who} {sig : Sig}
    (htwo : 2 ≤ (script who).count .wait) (hsig : oldmask sig = false) :
    ∃ s, Reach (step oldmask) (.start oldmask script) s ∧ (s.proc who).lost := by
  obtain ⟨pre, rest, hscript, hwait⟩ := cut_wait htwo
  have hstart : (State.start oldmask script).proc who
      = ⟨pre ++ .wait :: rest, .next, fun sig => newmask sig || oldmask sig, fun _ => false, 0⟩ := by
    rw [← hscript]
    rfl
  obtain ⟨mask, pending, hsecond, hmask⟩ := leads_rest oldmask pre (.wait :: rest) _ _ _ hstart
  rw [hmask (.inr hwait)] at hsecond
  have hlost : Leads oldmask (.start oldmask script) who
      ⟨rest, .asleep, oldmask, Function.update (Function.update pending sig true) sig false, 1⟩ := by
    refine hsecond.trans fun t₁ h₁ => (Leads.of_reach (reach_suspend oldmask rfl h₁)).trans fun t₂ h₂ => ?_
    have hsignal : Leads oldmask t₂ who ⟨rest, .suspend, oldmask, Function.update pending sig true, 0⟩ := by
      have h := leads_signal oldmask t₂ who sig
      rw [h₂] at h
      exact h
    exact hsignal.trans fun t₃ h₃ => Leads.of_reach (reach_lost oldmask (Function.update_self ..) hsig h₃)
  obtain ⟨t, hreach, ht⟩ := hlost
  refine ⟨t, hreach, ?_, ?_⟩
  · rw [ht]
  · rw [ht]
    exact Int.one_ne_zero

/-- **A process can sleep although it has been told exactly if it waits twice and inherits a mask that does not block both
signals**, whatever the two processes do, and whoever sends signals before `fork` and after it; and then it is not in the
first of its waits. -/
theorem lost_iff (oldmask : Sig → Bool) (script : Who → List Stmt) (who : Who) :
    ((∃ s, Reach (System.step oldmask script) (init oldmask) (.forked s) ∧ (s.proc who).lost) ↔
      2 ≤ (script who).count .wait ∧ ∃ sig, oldmask sig = false) ∧
    ∀ s, Reach (System.step oldmask script) (init oldmask) (.forked s) → (s.proc who).lost →
      (s.proc who).waits < (script who).count .wait := by
  refine ⟨⟨?_, ?_⟩, fun s hreach hlost => (lost_masked hreach hlost).1⟩
  · rintro ⟨s, hreach, hlost⟩
    obtain ⟨hlt, hopen⟩ := lost_masked hreach hlost
    have hpos : 1 ≤ (s.proc who).waits := by
      unfold Proc.waits
      rw [hlost.1]
      exact Nat.le_add_right 1 _
    exact ⟨by omega, hopen⟩
  · rintro ⟨htwo, sig, hsig⟩
    obtain ⟨t, hreach, hlost⟩ := leads_lost htwo hsig
    exact ⟨t, (System.reach_init oldmask script).of_restrict.trans
      (hreach.embed System.forked (fun s a s' hs => congrArg (Option.map System.forked) hs)), hlost⟩

end Tellwait
end Cc
