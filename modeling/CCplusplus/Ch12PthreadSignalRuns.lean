import CCplusplus.Ch12PthreadSignal
/-!
# Ch12PthreadSignalRuns — `ch12_pthread_signal` in every run

`thr_fn` sets the flag under the mutex, and `main` holds the mutex from its test of the flag to its wait, so no wake-up
is lost although `waitloc` is signalled after the mutex is released (`quit_not_lost`).  Once `thr_fn` has returned, the
statements left to `main` bring the process to its end (`quitting_ends`).
-/
namespace Cc
namespace Ch12PthreadSignal

open CLib

/-! ## The invariant -/

def MainPc.holds : MainPc → Bool
  | .test | .wait | .unlock => true
  | _ => false

def MainPc.passed : MainPc → Bool
  | .unlock | .clear | .restore | .exit => true
  | _ => false

/-- `thr_fn` is not there yet. -/
def MainPc.alone : MainPc → Bool
  | .sigemptyset | .addInt | .addQuit | .block | .create => true
  | _ => false

/-- What `mask` has come to. -/
def MainPc.mask : MainPc → Option (List Nat)
  | .sigemptyset => none
  | .addInt => some []
  | .addQuit => some [SIGINT]
  | _ => some [SIGQUIT, SIGINT]

def ThrPc.holds : ThrPc → Bool
  | .set | .unlock => true
  | _ => false

/-- `thr_fn` has set the flag. -/
def ThrPc.done : ThrPc → Bool
  | .unlock | .signal | .returned => true
  | _ => false

/-- The signal that has brought `thr_fn` to where it is. -/
def ThrPc.cause : ThrPc → Option Nat
  | .absent | .sigwait => none
  | .switch signo => some signo
  | _ => some SIGQUIT

structure Inv (s : State) : Prop where
  mainHolds : s.main.holds = true ↔ s.lock = some .main
  thrHolds : s.thr.holds = true ↔ s.lock = some .thr
  unset : s.thr.done = false → s.quitflag = 0
  flag : s.thr.done = true → s.quitflag = 1 ∨ s.main.passed = true
  wait : s.main = .wait → s.quitflag = 0
  asleep : s.main = .asleep → s.thr ≠ .returned
  passed : s.main.passed = true → s.thr.done = true
  received : ∀ n, s.thr.cause = some n → n ∈ s.received
  switch : ∀ n, s.thr = .switch n → n = SIGINT ∨ n = SIGQUIT
  alone : s.main.alone = true ↔ s.thr = .absent
  mask : ∀ m, s.main.mask = some m → s.mask = m

theorem MainPc.of_alone {p : MainPc} (h : p.alone = true) :
    p.holds = false ∧ p.passed = false ∧ p ≠ .wait ∧ p ≠ .asleep := by
  revert h
  cases p <;> decide

theorem MainPc.of_passed {p : MainPc} (h : p.passed = true) :
    p.alone = false ∧ p.mask = some [SIGQUIT, SIGINT] ∧ p ≠ .wait ∧ p ≠ .asleep := by
  revert h
  cases p <;> decide

theorem MainPc.of_not_alone {p : MainPc} (h : p.alone = false) : p.mask = some [SIGQUIT, SIGINT] := by
  revert h
  cases p <;> decide

theorem ThrPc.of_done {p : ThrPc} (h : p.done = true) : p ≠ .absent ∧ p.cause = some SIGQUIT := by
  revert h
  cases p with
  | switch signo => exact fun h => by cases h
  | _ => decide

theorem inv_init (blocked pending : List Nat) : Inv (init blocked pending) := by
  constructor <;> simp [init, MainPc.holds, MainPc.passed, MainPc.alone, MainPc.mask, ThrPc.holds, ThrPc.done, ThrPc.cause]

namespace Inv

variable {s s' : State}

theorem apart (h : Inv s) : s.main.holds = true → s.thr.holds = false := by
  intro hm
  rw [Bool.eq_false_iff]
  intro ht
  cases (h.mainHolds.1 hm).symm.trans (h.thrHolds.1 ht)

theorem main (h : Inv s) (hthr : s'.thr = s.thr) (hreceived : s'.received = s.received)
    (hholds : s'.main.holds = true ↔ s'.lock = some .main) (hlock : s'.lock = some .thr ↔ s.lock = some .thr)
    (hflag : s'.quitflag = s.quitflag ∨ s'.quitflag = 0 ∧ s'.main.passed = true)
    (hpassed : s'.main.passed = true → s.thr.done = true) (hkept : s.main.passed = true → s'.main.passed = true)
    (hwait : s'.main = .wait → s'.quitflag = 0) (hasleep : s'.main = .asleep → s.thr ≠ .returned)
    (halone : s'.main.alone = s.main.alone) (hmask : ∀ m, s'.main.mask = some m → s'.mask = m) : Inv s' where
  mainHolds := hholds
  thrHolds := by rw [hthr, hlock, h.thrHolds]
  unset := by
    intro hdone
    rw [hthr] at hdone
    rcases hflag with hflag | ⟨hflag, -⟩
    · rw [hflag, h.unset hdone]
    · exact hflag
  flag := by
    intro hdone
    rw [hthr] at hdone
    rcases hflag with hflag | ⟨-, hp⟩
    · rw [hflag]
      exact (h.flag hdone).imp_right hkept
    · exact .inr hp
  wait := hwait
  asleep := by
    rw [hthr]
    exact hasleep
  passed := by
    rw [hthr]
    exact hpassed
  received := by
    rw [hthr, hreceived]
    exact h.received
  switch := by
    rw [hthr]
    exact h.switch
  alone := by rw [hthr, halone, h.alone]
  mask := hmask

/-- What the invariant does not speak of. -/
theorem outside (h : Inv s) (pending : List Nat) (out : List String) (ended : Option End) :
    Inv { s with pending := pending, out := out, ended := ended } :=
  ⟨h.mainHolds, h.thrHolds, h.unset, h.flag, h.wait, h.asleep, h.passed, h.received, h.switch, h.alone, h.mask⟩

theorem setUp (h : Inv s) (halone : s.main.alone = true) {pc : MainPc} (hpc : pc.alone = true) {mask : List Nat}
    (hmask : pc.mask = some mask) (blocked oldmask : List Nat) :
    Inv { s with main := pc, mask := mask, oldmask := oldmask, blocked := blocked } := by
  obtain ⟨hholds, hpassed, -, -⟩ := MainPc.of_alone halone
  obtain ⟨hholds', hpassed', hwait', hasleep'⟩ := MainPc.of_alone hpc
  refine h.main rfl rfl ?_ Iff.rfl (.inl rfl) (fun hp => ?_) (fun hp => ?_) (fun hw => absurd hw hwait')
    (fun ha => absurd ha hasleep') (hpc.trans halone.symm) (fun m hm => Option.some.inj (hmask.symm.trans hm))
  · rw [← h.mainHolds, hholds, hholds']
  · cases hpassed'.symm.trans hp
  · cases hpassed.symm.trans hp

theorem lock (h : Inv s) (hpc : s.main = .lock ∨ s.main = .woken) (hfree : s.lock = none) :
    Inv { s with main := .test, lock := some .main } := by
  have hpassed : s.main.passed = false := by rcases hpc with hpc | hpc <;> rw [hpc] <;> rfl
  have halone : s.main.alone = false := by rcases hpc with hpc | hpc <;> rw [hpc] <;> rfl
  have hmask : s.main.mask = some [SIGQUIT, SIGINT] := by rcases hpc with hpc | hpc <;> rw [hpc] <;> rfl
  refine h.main rfl rfl ⟨fun _ => rfl, fun _ => rfl⟩ ?_ (.inl rfl) (fun hp => by cases hp) (fun hp => ?_)
    (fun hw => by cases hw) (fun ha => by cases ha) halone.symm (fun m hm => h.mask m (hmask.trans hm))
  · rw [hfree]
    exact ⟨fun hl => (by cases hl), fun hl => (by cases hl)⟩
  · cases hpassed.symm.trans hp

/-- What `main` finds in `quitflag` is what is there until it releases the mutex. -/
theorem test (h : Inv s) (hpc : s.main = .test) : Inv { s with main := if s.quitflag = 0 then .wait else .unlock } := by
  have hholds := h.mainHolds
  have hmask := h.mask [SIGQUIT, SIGINT] (by rw [hpc]; rfl)
  have hpassed : s.main.passed = false := by rw [hpc]; rfl
  rw [hpc] at hholds
  by_cases hflag : s.quitflag = 0
  · rw [if_pos hflag]
    exact h.main rfl rfl hholds Iff.rfl (.inl rfl) (fun hp => by cases hp) (fun hp => by cases hpassed.symm.trans hp)
      (fun _ => hflag) (fun ha => by cases ha) (by rw [hpc]; rfl) (fun m hm => hmask.trans (Option.some.inj hm))
  · rw [if_neg hflag]
    refine h.main rfl rfl hholds Iff.rfl (.inl rfl) (fun _ => ?_) (fun _ => rfl) (fun hw => by cases hw)
      (fun ha => by cases ha) (by rw [hpc]; rfl) (fun m hm => hmask.trans (Option.some.inj hm))
    rw [← Bool.not_eq_false]
    exact fun hdone => hflag (h.unset hdone)

/-- **`main` goes to sleep before `thr_fn` can set the flag**, so its wake-up is still to come. -/
theorem sleep (h : Inv s) (hpc : s.main = .wait) : Inv { s with main := .asleep, lock := none } := by
  have hlock : s.lock = some .main := h.mainHolds.1 (by rw [hpc]; rfl)
  have hpassed : s.main.passed = false := by rw [hpc]; rfl
  refine h.main rfl rfl ⟨fun hm => (by cases hm), fun hm => (by cases hm)⟩ ?_ (.inl rfl) (fun hp => by cases hp)
    (fun hp => by cases hpassed.symm.trans hp) (fun hw => by cases hw) (fun _ hthr => ?_) (by rw [hpc]; rfl)
    (fun m hm => h.mask m (by rw [hpc]; exact hm))
  · rw [hlock]
    exact ⟨fun hl => (by cases hl), fun hl => (by cases hl)⟩
  · have hset := h.flag (by rw [hthr]; rfl)
    rw [h.wait hpc, hpassed] at hset
    rcases hset with hset | hset <;> cases hset

/-- `main` is past its loop, and goes on. -/
theorem leave (h : Inv s) (hpassed : s.main.passed = true) (hpc : s'.main.passed = true) (hthr : s'.thr = s.thr)
    (hreceived : s'.received = s.received) (hmask : s'.mask = s.mask)
    (hflag : s'.quitflag = s.quitflag ∨ s'.quitflag = 0) (hholds : s'.main.holds = true ↔ s'.lock = some .main)
    (hlock : s'.lock = some .thr ↔ s.lock = some .thr) : Inv s' := by
  obtain ⟨halone, hbuilt, -, -⟩ := MainPc.of_passed hpassed
  obtain ⟨halone', hbuilt', hwait, hasleep⟩ := MainPc.of_passed hpc
  exact h.main hthr hreceived hholds hlock (hflag.imp_right (⟨·, hpc⟩)) (fun _ => h.passed hpassed) (fun _ => hpc)
    (fun hw => absurd hw hwait) (fun ha => absurd ha hasleep) (halone'.trans halone.symm)
    (fun m hm => hmask.trans (h.mask m (hbuilt.trans (hbuilt'.symm.trans hm))))

theorem create (h : Inv s) (hpc : s.main = .create) (thrBlocked : List Nat) :
    Inv { s with main := .lock, thr := .sigwait, thrBlocked := thrBlocked } := by
  have habsent : s.thr = .absent := h.alone.1 (by rw [hpc]; rfl)
  have hmain := h.mainHolds
  have hthr := h.thrHolds
  rw [hpc] at hmain
  rw [habsent] at hthr
  exact ⟨hmain, hthr, fun _ => h.unset (by rw [habsent]; rfl), fun hd => (by cases hd), fun hw => (by cases hw),
    fun ha => (by cases ha), fun hp => (by cases hp), fun n hn => (by cases hn), fun n hn => (by cases hn),
    ⟨fun ha => (by cases ha), fun ha => (by cases ha)⟩, fun m hm => h.mask m (by rw [hpc]; exact hm)⟩

theorem thr (h : Inv s) (hmain : s'.main = s.main) (hmask : s'.mask = s.mask) (habsent : s.thr ≠ .absent)
    (habsent' : s'.thr ≠ .absent) (hholds : s'.thr.holds = true ↔ s'.lock = some .thr)
    (hlock : s'.lock = some .main ↔ s.lock = some .main) (hunset : s'.thr.done = false → s'.quitflag = 0)
    (hflag : s'.thr.done = true → s'.quitflag = 1 ∨ s.main.passed = true) (hwait : s.main = .wait → s'.quitflag = 0)
    (hasleep : s'.thr = .returned → s.main ≠ .asleep) (hkept : s.thr.done = true → s'.thr.done = true)
    (hreceived : ∀ n, s'.thr.cause = some n → n ∈ s'.received)
    (hswitch : ∀ n, s'.thr = .switch n → n = SIGINT ∨ n = SIGQUIT) : Inv s' where
  mainHolds := by rw [hmain, hlock, h.mainHolds]
  thrHolds := hholds
  unset := hunset
  flag := by
    rw [hmain]
    exact hflag
  wait := by
    rw [hmain]
    exact hwait
  asleep := by
    rw [hmain]
    exact fun ha hr => hasleep hr ha
  passed := by
    rw [hmain]
    exact fun hp => hkept (h.passed hp)
  received := hreceived
  switch := hswitch
  alone := by
    rw [hmain, h.alone]
    exact ⟨fun ha => absurd ha habsent, fun ha => absurd ha habsent'⟩
  mask := by
    rw [hmain, hmask]
    exact h.mask

/-- `thr_fn` is in its loop, and the flag is not set. -/
theorem idle (h : Inv s) (hdone : s.thr.done = false) (hholds : s.thr.holds = false) (habsent : s.thr ≠ .absent)
    {pc : ThrPc} (hpc : pc.done = false) (hpcHolds : pc.holds = false) (habsent' : pc ≠ .absent)
    {received : List Nat} (hreceived : ∀ n, pc.cause = some n → n ∈ received)
    (hswitch : ∀ n, pc = .switch n → n = SIGINT ∨ n = SIGQUIT) (pending : List Nat) (out : List String) :
    Inv { s with thr := pc, pending := pending, received := received, out := out } := by
  have hthr := h.thrHolds
  rw [hholds] at hthr
  refine h.thr rfl rfl habsent habsent' ?_ Iff.rfl (fun _ => h.unset hdone) (fun hd => ?_) (fun _ => h.unset hdone)
    (fun hr => ?_) (fun hd => ?_) hreceived hswitch
  · rw [hpcHolds]
    exact hthr
  · cases hpc.symm.trans hd
  · have hr : pc = .returned := hr
    rw [hr] at hpc
    cases hpc
  · cases hdone.symm.trans hd

/-- The thread waits for the two signals. -/
theorem built (h : Inv s) (habsent : s.thr ≠ .absent) : s.mask = [SIGQUIT, SIGINT] := by
  refine h.mask _ (MainPc.of_not_alone ?_)
  rw [Bool.eq_false_iff]
  exact fun halone => habsent (h.alone.1 halone)

theorem wake (h : Inv s) (hpc : s.main = .asleep) : Inv { s with main := .woken } := by
  have hholds := h.mainHolds
  have hmask := h.mask [SIGQUIT, SIGINT] (by rw [hpc]; rfl)
  rw [hpc] at hholds
  exact h.main rfl rfl hholds Iff.rfl (.inl rfl) (fun hp => by cases hp) (by rw [hpc]; exact fun hp => by cases hp)
    (fun hw => by cases hw) (fun ha => by cases ha) (by rw [hpc]; rfl) (fun m hm => hmask.trans (Option.some.inj hm))

theorem thrLock (h : Inv s) (hpc : s.thr = .lock) (hfree : s.lock = none) :
    Inv { s with thr := .set, lock := some .thr } := by
  have hdone : s.thr.done = false := by rw [hpc]; rfl
  have hquit := h.received SIGQUIT (by rw [hpc]; rfl)
  refine h.thr rfl rfl (by rw [hpc]; decide) (fun ha => by cases ha) ⟨fun _ => rfl, fun _ => rfl⟩ ?_
    (fun _ => h.unset hdone) (fun hd => by cases hd) (fun _ => h.unset hdone) (fun hr => by cases hr)
    (fun hd => by cases hdone.symm.trans hd) (fun n hn => Option.some.inj hn ▸ hquit) (fun n hn => by cases hn)
  rw [hfree]
  exact ⟨fun hl => (by cases hl), fun hl => (by cases hl)⟩

/-- **The flag is set while `main` is not between its test and its wait.** -/
theorem set (h : Inv s) (hpc : s.thr = .set) : Inv { s with thr := .unlock, quitflag := 1 } := by
  have hdone : s.thr.done = false := by rw [hpc]; rfl
  have hholds := h.thrHolds
  have hquit := h.received SIGQUIT (by rw [hpc]; rfl)
  rw [hpc] at hholds
  refine h.thr rfl rfl (by rw [hpc]; decide) (fun ha => by cases ha) hholds Iff.rfl (fun hd => by cases hd)
    (fun _ => .inl rfl) (fun hw => ?_) (fun hr => by cases hr) (fun hd => by cases hdone.symm.trans hd)
    (fun n hn => Option.some.inj hn ▸ hquit) (fun n hn => by cases hn)
  have hapart := h.apart (by rw [hw]; rfl)
  rw [hpc] at hapart
  cases hapart

theorem finish (h : Inv s) (hdone : s.thr.done = true) {pc : ThrPc} (hpc : pc.done = true) (hholds : pc.holds = false)
    {lock : Option Thread} (hlock : lock = none ∧ s.thr.holds = true ∨ lock = s.lock ∧ s.thr.holds = false)
    (hasleep : pc = .returned → s.main ≠ .asleep) : Inv { s with thr := pc, lock := lock } := by
  obtain ⟨habsent, hcause⟩ := ThrPc.of_done hdone
  obtain ⟨habsent', hcause'⟩ := ThrPc.of_done hpc
  have hfree : lock ≠ some .thr ∧ (lock = some .main ↔ s.lock = some .main) := by
    rcases hlock with ⟨rfl, hheld⟩ | ⟨rfl, hheld⟩
    · rw [h.thrHolds.1 hheld]
      exact ⟨fun hl => (by cases hl), fun hl => (by cases hl), fun hl => (by cases hl)⟩
    · rw [ne_eq, ← h.thrHolds, hheld]
      exact ⟨Bool.false_ne_true, Iff.rfl⟩
  refine h.thr rfl rfl habsent habsent' ⟨fun hh => ?_, fun hl => absurd hl hfree.1⟩ hfree.2 (fun hd => ?_)
    (fun _ => h.flag hdone) h.wait hasleep (fun _ => hpc) (fun n hn => h.received n ?_) (fun n hn => ?_)
  · cases hholds.symm.trans hh
  · cases hpc.symm.trans hd
  · exact hcause.trans (hcause'.symm.trans hn)
  · have hn : pc = .switch n := hn
    rw [hn] at hpc
    cases hpc

end Inv

theorem mainStep_inv {s s' : State} {ret : Int} (h : Inv s) (hs : mainStep s ret = some s') : Inv s' := by
  unfold mainStep at hs
  cases hpc : s.main with
  | sigemptyset =>
    rw [hpc] at hs
    cases hs
    exact h.setUp (by rw [hpc]; rfl) rfl rfl s.blocked s.oldmask
  | addInt =>
    have hmask := h.mask [] (by rw [hpc]; rfl)
    rw [hpc] at hs
    cases hs
    exact h.setUp (by rw [hpc]; rfl) rfl (by rw [hmask]; rfl) s.blocked s.oldmask
  | addQuit =>
    have hmask := h.mask [SIGINT] (by rw [hpc]; rfl)
    rw [hpc] at hs
    cases hs
    exact h.setUp (by rw [hpc]; rfl) rfl (by rw [hmask]; rfl) s.blocked s.oldmask
  | block =>
    have hmask := h.mask [SIGQUIT, SIGINT] (by rw [hpc]; rfl)
    rw [hpc] at hs
    dsimp only at hs
    split at hs
    · cases hs
      rw [← hpc]
      exact h.outside s.pending s.out _
    · cases hs
      exact h.setUp (by rw [hpc]; rfl) rfl (by rw [hmask]; rfl) _ _
  | create =>
    rw [hpc] at hs
    dsimp only at hs
    split at hs
    · cases hs
      rw [← hpc]
      exact h.outside s.pending s.out _
    · cases hs
      exact h.create hpc s.blocked
  | lock | woken =>
    rw [hpc] at hs
    dsimp only at hs
    split at hs
    · cases hs
    · rename_i hfree
      cases hs
      exact h.lock (by simp [hpc]) (by simpa using hfree)
  | test =>
    rw [hpc] at hs
    cases hs
    exact h.test hpc
  | wait =>
    rw [hpc] at hs
    cases hs
    exact h.sleep hpc
  | asleep =>
    rw [hpc] at hs
    cases hs
  | unlock =>
    have hlock : s.lock = some .main := h.mainHolds.1 (by rw [hpc]; rfl)
    rw [hpc] at hs
    cases hs
    refine h.leave (by rw [hpc]; rfl) rfl rfl rfl rfl (.inl rfl) ⟨fun hm => (by cases hm), fun hm => (by cases hm)⟩ ?_
    rw [hlock]
    exact ⟨fun hl => (by cases hl), fun hl => (by cases hl)⟩
  | clear =>
    have hholds := h.mainHolds
    rw [hpc] at hs hholds
    cases hs
    exact h.leave (by rw [hpc]; rfl) rfl rfl rfl rfl (.inr rfl) hholds Iff.rfl
  | restore =>
    have hholds := h.mainHolds
    rw [hpc] at hs hholds
    dsimp only at hs
    split at hs
    · cases hs
      rw [← hpc]
      exact h.outside s.pending s.out _
    · cases hs
      exact h.leave (by rw [hpc]; rfl) rfl rfl rfl rfl (.inl rfl) hholds Iff.rfl
  | exit =>
    rw [hpc] at hs
    cases hs
    rw [← hpc]
    exact h.outside s.pending s.out _

theorem thrStep_inv {s s' : State} {err : Int} {signo : Nat} (h : Inv s) (hs : thrStep s err signo = some s') :
    Inv s' := by
  unfold thrStep at hs
  cases hpc : s.thr with
  | absent | returned =>
    rw [hpc] at hs
    cases hs
  | sigwait =>
    have hmask := h.built (by rw [hpc]; decide)
    rw [hpc] at hs
    dsimp only at hs
    split at hs
    · cases hs
      rw [← hpc]
      exact h.outside s.pending s.out _
    · split at hs
      · rename_i hgot
        cases hs
        refine h.idle (by rw [hpc]; rfl) (by rw [hpc]; rfl) (by rw [hpc]; decide) rfl rfl (fun ha => by cases ha)
          (fun n hn => ?_) (fun n hn => ?_) _ s.out
        · cases hn
          exact List.mem_append_right _ List.mem_cons_self
        · cases hn
          have hmem := hgot.1
          rw [hmask] at hmem
          simpa [or_comm] using hmem
      · cases hs
  | switch n =>
    have hn := h.received n (by rw [hpc]; rfl)
    have habsent : s.thr ≠ .absent := fun ha => by cases hpc.symm.trans ha
    rw [hpc] at hs
    dsimp only at hs
    split at hs
    · cases hs
      exact h.idle (by rw [hpc]; rfl) (by rw [hpc]; rfl) habsent rfl rfl (fun ha => by cases ha)
        (fun n hn => by cases hn) (fun n hn => by cases hn) s.pending _
    · split at hs
      · rename_i hquit
        cases hs
        refine h.idle (by rw [hpc]; rfl) (by rw [hpc]; rfl) habsent rfl rfl (fun ha => by cases ha)
          (fun m hm => ?_) (fun n hn => by cases hn) s.pending s.out
        rw [← Option.some.inj hm, ← hquit]
        exact hn
      · cases hs
        rw [← hpc]
        exact h.outside s.pending _ _
  | lock =>
    rw [hpc] at hs
    dsimp only at hs
    split at hs
    · cases hs
    · rename_i hfree
      cases hs
      exact h.thrLock hpc (by simpa using hfree)
  | set =>
    rw [hpc] at hs
    cases hs
    exact h.set hpc
  | unlock =>
    rw [hpc] at hs
    cases hs
    exact h.finish (by rw [hpc]; rfl) rfl rfl (.inl ⟨rfl, by rw [hpc]; rfl⟩) (fun hr => by cases hr)
  | signal =>
    have hdone : s.thr.done = true := by rw [hpc]; rfl
    have hholds : s.thr.holds = false := by rw [hpc]; rfl
    rw [hpc] at hs
    cases hs
    by_cases hasleep : s.main = .asleep
    · rw [if_pos hasleep]
      exact (h.wake hasleep).finish hdone rfl rfl (.inr ⟨rfl, hholds⟩) (fun _ ha => by cases ha)
    · rw [if_neg hasleep]
      exact h.finish hdone rfl rfl (.inr ⟨rfl, hholds⟩) (fun _ => hasleep)

theorem step_inv {s s' : State} {a : Act} (h : Inv s) (hs : step s a = some s') : Inv s' := by
  unfold step at hs
  split at hs
  · cases hs
  · cases a with
    | raise signo =>
      cases hs
      exact h.outside _ s.out s.ended
    | deliver signo =>
      dsimp only at hs
      split at hs
      · cases hs
        exact h.outside s.pending s.out _
      · cases hs
    | spurious =>
      dsimp only at hs
      split at hs
      · rename_i hpc
        cases hs
        exact h.wake hpc
      · cases hs
    | main ret => exact mainStep_inv h hs
    | thr err signo => exact thrStep_inv h hs

theorem run_inv_init {blocked pending : List Nat} {as : List Act} {s : State}
    (h : run step as (init blocked pending) = some s) : Inv s :=
  run_inv Inv (fun _ _ _ => step_inv) as _ s (inv_init blocked pending) h

/-- **`main` passes its loop only after `thr_fn` has received SIGQUIT, and when `thr_fn` has returned `main` does not
sleep**, in every run. -/
theorem quit_not_lost (blocked pending : List Nat) (as : List Act) (s : State)
    (h : run step as (init blocked pending) = some s) :
    (s.main.passed = true → SIGQUIT ∈ s.received) ∧ ¬ (s.thr = .returned ∧ s.main = .asleep) := by
  have hinv := run_inv_init h
  exact ⟨fun hpassed => hinv.received SIGQUIT (ThrPc.of_done (hinv.passed hpassed)).2, fun hr => hinv.asleep hr.2 hr.1⟩

/-- SIGINT and SIGQUIT are sent, the first is printed, and `main` wakes up twice, the first time for nothing. -/
def quitRun : List Act :=
  [.main 0, .main 0, .main 0, .main 0, .main 0, .main 0, .main 0, .main 0, .raise SIGINT, .thr 0 SIGINT, .thr 0 0,
    .spurious, .main 0, .main 0, .main 0, .raise SIGQUIT, .thr 0 SIGQUIT, .thr 0 0, .thr 0 0, .thr 0 0, .thr 0 0,
    .thr 0 0, .main 0, .main 0, .main 0]

theorem quitRun_not_lost : ∃ s, run step quitRun (init [] []) = some s ∧ s.main = .clear ∧
    (s.main.passed = true → SIGQUIT ∈ s.received) ∧ ¬ (s.thr = .returned ∧ s.main = .asleep) :=
  ⟨_, rfl, rfl, quit_not_lost [] [] quitRun _ rfl⟩

/-! ## After `thr_fn` has returned -/

/-- The statements that are left to `main`. -/
def MainPc.left : MainPc → Nat
  | .lock | .woken => 6
  | .test => 5
  | .unlock => 4
  | .clear => 3
  | .restore => 2
  | .exit => 1
  | _ => 0

/-- `thr_fn` has returned, and the process has not ended. -/
structure Quitting (s : State) : Prop where
  inv : Inv s
  thr : s.thr = .returned
  ended : s.ended = none

namespace Quitting

variable {s s' : State}

theorem free (h : Quitting s) (hholds : s.main.holds = false) : s.lock = none := by
  have hmain := h.inv.mainHolds
  have hthr := h.inv.thrHolds
  rw [hholds] at hmain
  rw [h.thr] at hthr
  cases hlock : s.lock with
  | none => rfl
  | some t =>
    rw [hlock] at hmain hthr
    cases t with
    | main => cases hmain.2 rfl
    | thr => cases hthr.2 rfl

/-- `main` is past the setting up, not asleep, and not about to be. -/
theorem left_pos (h : Quitting s) : 0 < s.main.left ∧ (s.main = .test → s.quitflag ≠ 0) := by
  have hflag := h.inv.flag (by rw [h.thr]; rfl)
  have halone := h.inv.alone
  have hwait := h.inv.wait
  have hasleep := h.inv.asleep
  rw [h.thr] at halone hasleep
  cases hpc : s.main with
  | sigemptyset | addInt | addQuit | block | create =>
    rw [hpc] at halone
    cases halone.1 rfl
  | wait =>
    rw [hwait hpc, hpc] at hflag
    rcases hflag with hf | hf <;> cases hf
  | asleep => exact absurd rfl (hasleep hpc)
  | test =>
    rw [hpc] at hflag
    refine ⟨by decide, fun _ hzero => ?_⟩
    rw [hzero] at hflag
    rcases hflag with hf | hf <;> cases hf
  | lock | woken | unlock | clear | restore | exit => exact ⟨by decide, fun ht => by cases ht⟩

/-- The next statement of `main` ends the process, or brings `main` nearer to its end. -/
theorem mainStep (h : Quitting s) {ret : Int} (hs : mainStep s ret = some s') :
    s'.ended.isSome = true ∨ (s'.thr = .returned ∧ s'.ended = none) ∧ s'.main.left + 1 = s.main.left := by
  obtain ⟨hpos, htest⟩ := h.left_pos
  have hthr := h.thr
  have hended := h.ended
  unfold Ch12PthreadSignal.mainStep at hs
  cases hpc : s.main with
  | sigemptyset | addInt | addQuit | block | create | wait | asleep =>
    rw [hpc] at hpos
    cases hpos
  | lock | woken =>
    rw [hpc] at hs
    dsimp only at hs
    split at hs
    · cases hs
    · cases hs
      exact .inr ⟨⟨hthr, hended⟩, rfl⟩
  | test =>
    rw [hpc] at hs
    dsimp only at hs
    rw [if_neg (htest hpc)] at hs
    cases hs
    exact .inr ⟨⟨hthr, hended⟩, rfl⟩
  | unlock | clear =>
    rw [hpc] at hs
    cases hs
    exact .inr ⟨⟨hthr, hended⟩, rfl⟩
  | restore =>
    rw [hpc] at hs
    dsimp only at hs
    split at hs
    · cases hs
      exact .inl rfl
    · cases hs
      exact .inr ⟨⟨hthr, hended⟩, rfl⟩
  | exit =>
    rw [hpc] at hs
    cases hs
    exact .inl rfl

theorem live (h : Quitting s) : ∃ s', Ch12PthreadSignal.mainStep s 0 = some s' := by
  obtain ⟨hpos, -⟩ := h.left_pos
  unfold Ch12PthreadSignal.mainStep
  cases hpc : s.main with
  | asleep =>
    rw [hpc] at hpos
    cases hpos
  | lock | woken =>
    rw [h.free (by rw [hpc]; rfl)]
    exact ⟨_, rfl⟩
  | _ => exact ⟨_, rfl⟩

end Quitting

theorem step_main {s : State} (h : s.ended = none) (ret : Int) : step s (.main ret) = mainStep s ret := by
  unfold step
  rw [h]
  rfl

/-- **Once `thr_fn` has returned, `main` comes to the end of the process by statements of its own.** -/
theorem quitting_ends {s : State} (h : Quitting s) :
    Inevitably (fun s ret => step s (.main ret)) (fun s => s.ended.isSome = true) s := by
  refine inevitably_of_measure (fun s => s.main.left) (fun s (hs : Quitting s) _ => ?_) (fun s ret s' hs _ hstep => ?_) s h
  · obtain ⟨s', hlive⟩ := hs.live
    exact ⟨0, s', (step_main hs.ended 0).trans hlive⟩
  · rw [step_main hs.ended] at hstep
    refine (hs.mainStep hstep).imp_right (fun hnear =>
      ⟨⟨mainStep_inv hs.inv hstep, hnear.1.1, hnear.1.2⟩, Nat.lt_of_succ_le (Nat.le_of_eq hnear.2)⟩)

/-- No signal is unexpected. -/
theorem expected {blocked pending : List Nat} {as : List Act} {s : State} {n : Nat}
    (h : run step as (init blocked pending) = some s) (hpc : s.thr = .switch n) : n = SIGINT ∨ n = SIGQUIT :=
  (run_inv_init h).switch n hpc

end Ch12PthreadSignal
end Cc
