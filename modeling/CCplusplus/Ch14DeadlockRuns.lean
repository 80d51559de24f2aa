import CCplusplus.Ch14Deadlock
/-!
# Ch14DeadlockRuns — every run comes to a refused request

Each process has locked its first byte before it tells the other, and asks for the other's byte only when it has been told:
by then the other holds that byte, and gives it back only when it ends.  So one of them waits and the other's request
would close the cycle.  Where no call fails for another reason, no run ends before that (`refused`).
-/
namespace Cc
namespace Ch14Deadlock

open CLib

variable {s s' : State} {who : Who}

/-- No call fails but `fcntl`. -/
def succeeds (_ : State) : Act → Bool
  | .go _ success => success
  | .deliver _ => true

/-- A process stands where its second request has been refused. -/
def Refused (s : State) : Prop := ∃ who, s.pc who = .returned .second (-1)

/-- The other has been told. -/
def told : Pc → Bool
  | .test => true
  | .suspend => true
  | .asleep => true
  | .clear => true
  | .restore => true
  | .lock .second => true
  | .waiting .second => true
  | _ => false

def Holds (s : State) (who : Who) : Prop := s.owner (offset who .first) = some who

/-- What the other has told is pending. -/
def Heard (s : State) (who : Who) : Prop := s.sigflag who = 0 ∧ s.pending who = told (s.pc who.other)

/-- What holds of a process after `fork`, where it stands. -/
def View (s : State) (who : Who) : Prop :=
  match s.pc who with
  | .lock .first => s.owner (offset who .first) = none ∧ Heard s who
  | .returned .first ret => ret = 0 ∧ Holds s who ∧ Heard s who
  | .tell => Holds s who ∧ Heard s who
  | .test => Holds s who ∧ (s.sigflag who ≠ 0 ∧ told (s.pc who.other) = true ∨ Heard s who)
  | .suspend => Holds s who ∧ Heard s who
  | .asleep => Holds s who ∧ Heard s who
  | .clear => Holds s who ∧ told (s.pc who.other) = true
  | .restore => Holds s who ∧ told (s.pc who.other) = true
  | .lock .second => Holds s who ∧ told (s.pc who.other) = true
  | .waiting .second => Holds s who ∧ told (s.pc who.other) = true
  | _ => False

structure Forked (s : State) : Prop where
  view : ∀ who, View s who
  /-- at most one process waits for a lock -/
  apart : ∀ who, s.pc who = .waiting .second → s.pc who.other ≠ .waiting .second

structure Unforked (s : State) : Prop where
  parent : s.pc .parent ∈ [.create, .write, .signalUsr1, .signalUsr2, .block, .fork]
  child : s.pc .child = .unborn
  free : ∀ byte, s.owner byte = none
  none : ∀ who, s.pending who = false ∧ s.sigflag who = 0

@[simp] theorem other_other (who : Who) : who.other.other = who := by cases who <;> rfl

theorem other_ne (who : Who) : who.other ≠ who := by cases who <;> exact fun h => by cases h

theorem offset_second (who : Who) : offset who .second = offset who.other .first := by cases who <;> rfl

theorem offset_ne (who : Who) : offset who.other .first ≠ offset who .first := by cases who <;> decide

theorem eq_or_other (w who : Who) : w = who ∨ w = who.other := by cases w <;> cases who <;> simp [Who.other]

/-- A view depends on the process and on whether the other has told it. -/
theorem View.same (h : View s who) (hpc : s'.pc who = s.pc who) (htold : told (s'.pc who.other) = told (s.pc who.other))
    (howner : s'.owner (offset who .first) = s.owner (offset who .first)) (hpending : s'.pending who = s.pending who)
    (hflag : s'.sigflag who = s.sigflag who) : View s' who := by
  unfold View Holds Heard at h ⊢
  rw [hpc, htold, howner, hpending, hflag]
  exact h

/-- A process holds its byte from its first request on. -/
theorem View.holds (h : View s who) (hpc : s.pc who ≠ .lock .first) : Holds s who := by
  unfold View at h
  cases hw : s.pc who with
  | lock round =>
    cases round with
    | first => exact absurd hw hpc
    | second =>
      simp only [hw] at h
      exact h.1
  | returned round ret =>
    cases round with
    | first =>
      simp only [hw] at h
      exact h.2.1
    | second => simp only [hw] at h
  | waiting round =>
    cases round with
    | first => simp only [hw] at h
    | second =>
      simp only [hw] at h
      exact h.1
  | tell | test | suspend | asleep | clear | restore =>
    simp only [hw] at h
    exact h.1
  | unborn | create | write | signalUsr1 | signalUsr2 | block | fork | exit | ended e => simp only [hw] at h

theorem View.alive (h : View s who) : alive (s.pc who) = true := by
  unfold View at h
  cases hpc : s.pc who with
  | unborn | ended e =>
    rw [hpc] at h
    exact h.elim
  | _ => rfl

theorem View.hear (h : View s who) (hnot : told (s.pc who.other) = false) (hpc : s'.pc who = s.pc who)
    (htold : told (s'.pc who.other) = true) (howner : s'.owner (offset who .first) = s.owner (offset who .first))
    (hpending : s'.pending who = true) (hflag : s'.sigflag who = s.sigflag who) : View s' who := by
  unfold View Holds Heard at h ⊢
  rw [hpc, htold, howner, hpending, hflag]
  rw [hnot] at h
  cases hw : s.pc who with
  | lock round =>
    cases round with
    | first =>
      simp only [hw] at h ⊢
      exact ⟨h.1, h.2.1, trivial⟩
    | second =>
      simp only [hw] at h
      cases h.2
  | returned round ret =>
    cases round with
    | first =>
      simp only [hw] at h ⊢
      exact ⟨h.1, h.2.1, h.2.2.1, trivial⟩
    | second => simp only [hw] at h
  | tell | suspend | asleep =>
    simp only [hw] at h ⊢
    exact ⟨h.1, h.2.1, trivial⟩
  | test =>
    simp only [hw] at h ⊢
    rcases h.2 with ⟨-, hf⟩ | hheard
    · cases hf
    · exact ⟨h.1, .inr ⟨hheard.1, trivial⟩⟩
  | clear | restore =>
    simp only [hw] at h
    cases h.2
  | waiting round =>
    cases round with
    | first => simp only [hw] at h
    | second =>
      simp only [hw] at h
      cases h.2
  | unborn | create | write | signalUsr1 | signalUsr2 | block | fork | exit | ended e => simp only [hw] at h

theorem View.holds_of_told (h : View s who) (ht : told (s.pc who) = true) : Holds s who :=
  h.holds (fun hpc => by rw [hpc] at ht; cases ht)

/-- One process goes on, and the other finds everything as before. -/
theorem Forked.move (h : Forked s) (who : Who) (hpc : ∀ w, w ≠ who → s'.pc w = s.pc w)
    (htold : told (s'.pc who) = told (s.pc who)) (hother : s'.owner (offset who.other .first) = s.owner (offset who.other .first))
    (hpending : s'.pending who.other = s.pending who.other) (hflag : s'.sigflag who.other = s.sigflag who.other)
    (hview : View s' who) (hwait : s'.pc who = .waiting .second → s.pc who.other ≠ .waiting .second) : Forked s' := by
  have hother' : s'.pc who.other = s.pc who.other := hpc _ (other_ne who)
  refine ⟨fun w => ?_, fun w hw => ?_⟩
  · rcases eq_or_other w who with rfl | rfl
    · exact hview
    · exact (h.view who.other).same hother' (by rw [other_other, htold]) hother hpending hflag
  · rcases eq_or_other w who with rfl | rfl
    · rw [hother']
      exact hwait hw
    · rw [other_other]
      rw [hother'] at hw
      intro hself
      exact hwait hself hw

theorem goto_other (s : State) (who : Who) (pc : Pc) : (s.goto who pc).pc who.other = s.pc who.other := by
  rw [goto_pc, if_neg (other_ne who)]

theorem goto_self (s : State) (who : Who) (pc : Pc) : (s.goto who pc).pc who = pc := by
  rw [goto_pc, if_pos rfl]

/-! ## How far the two are from it -/

@[simp] def rank (flag : Int) : Pc → Nat
  | .create => 35
  | .write => 34
  | .signalUsr1 => 33
  | .signalUsr2 => 32
  | .block => 31
  | .fork => 30
  | .lock .first => 12
  | .returned .first _ => 11
  | .tell => 10
  | .test => if flag = 0 then 8 else 4
  | .suspend => 7
  | .asleep => 6
  | .clear => 3
  | .restore => 2
  | .lock .second => 1
  | _ => 0

def leftOf (s : State) (who : Who) : Nat := rank (s.sigflag who) (s.pc who) + if s.pending who then 1 else 0

def left (s : State) : Nat := leftOf s .parent + leftOf s .child

theorem left_eq (s : State) (who : Who) : left s = leftOf s who + leftOf s who.other := by
  cases who with
  | parent => rfl
  | child => exact Nat.add_comm _ _

theorem left_move (hpc : s'.pc who.other = s.pc who.other) (hpending : s'.pending who.other = s.pending who.other)
    (hflag : s'.sigflag who.other = s.sigflag who.other) (hlt : leftOf s' who < leftOf s who) : left s' < left s := by
  rw [left_eq s' who, left_eq s who]
  have hother : leftOf s' who.other = leftOf s who.other := by
    unfold leftOf
    rw [hpc, hpending, hflag]
  omega

theorem left_goto {pc : Pc} (hlt : rank (s.sigflag who) pc < rank (s.sigflag who) (s.pc who)) :
    left (s.goto who pc) < left s := by
  refine left_move (goto_other s who pc) rfl rfl ?_
  unfold leftOf
  rw [goto_self]
  exact Nat.add_lt_add_right hlt _

theorem rank_test (flag : Int) : rank flag .test ≤ 8 := by
  change (if flag = 0 then 8 else 4) ≤ 8
  split
  · exact Nat.le_refl 8
  · decide

theorem left_tell (hpc : s.pc who = .tell) : left ((tell s who).goto who .test) < left s := by
  have htest := rank_test (s.sigflag who)
  have hsame : (tell s who).pc = s.pc ∧ (tell s who).sigflag = s.sigflag ∧ (tell s who).pending who = s.pending who := by
    unfold tell
    split
    · exact ⟨rfl, rfl, Function.update_of_ne (other_ne who).symm _ _⟩
    · exact ⟨rfl, rfl, rfl⟩
  obtain ⟨hpcs, hflag, hpending⟩ := hsame
  have hself : leftOf ((tell s who).goto who .test) who + 2 ≤ leftOf s who := by
    unfold leftOf
    rw [goto_self, hpc]
    change rank ((tell s who).sigflag who) .test + (if (tell s who).pending who = true then 1 else 0) + 2 ≤ _
    rw [hflag, hpending]
    change _ ≤ 10 + _
    omega
  have hother : leftOf ((tell s who).goto who .test) who.other ≤ leftOf s who.other + 1 := by
    unfold leftOf
    rw [goto_other, hpcs]
    change rank ((tell s who).sigflag who.other) _ + (if (tell s who).pending who.other = true then 1 else 0) ≤ _
    rw [hflag]
    split
    · omega
    · omega
  rw [left_eq _ who, left_eq s who]
  omega

/-! ## A step of one of them -/

/-- The two are past `fork` still, and nearer to the refusal. -/
def Nearer (s s' : State) : Prop := Forked s' ∧ left s' < left s

/-- A process comes to a statement behind which it is no more told than before. -/
theorem Forked.goto (h : Forked s) {pc : Pc} (htold : told pc = told (s.pc who)) (hview : View (s.goto who pc) who)
    (hwait : pc ≠ .waiting .second) (hlt : rank (s.sigflag who) pc < rank (s.sigflag who) (s.pc who)) :
    Nearer s (s.goto who pc) := by
  refine ⟨h.move who (fun w hw => by rw [goto_pc, if_neg hw]) (by rw [goto_pc, if_pos rfl, htold]) rfl rfl rfl hview
    (fun hpc => ?_), left_goto hlt⟩
  rw [goto_pc, if_pos rfl] at hpc
  exact absurd hpc hwait

theorem Forked.lock (h : Forked s) (hpc : s.pc who = .lock .first) : Nearer s (setlkw s who .first) := by
  have hview := h.view who
  unfold View at hview
  simp only [hpc] at hview
  unfold setlkw
  rw [hview.1]
  dsimp only
  have hself : (grant s who .first).pc who = .returned .first 0 := goto_self s who _
  have hother : (grant s who .first).pc who.other = s.pc who.other := goto_other s who _
  refine ⟨h.move who (fun w hw => ?_) (by rw [hself, hpc]; rfl) ?_ rfl rfl ?_ (fun he => ?_),
    left_move hother rfl rfl ?_⟩
  · change (s.goto who _).pc w = _
    rw [goto_pc, if_neg hw]
  · exact Function.update_of_ne (offset_ne who) _ _
  · unfold View
    rw [hself]
    refine ⟨rfl, Function.update_self _ _ _, hview.2.1, ?_⟩
    rw [hother]
    exact hview.2.2
  · rw [hself] at he
    cases he
  · unfold leftOf
    rw [hself, hpc]
    exact Nat.add_lt_add_right (by simp) _

theorem Forked.lockabyte (h : Forked s) {ret : Int} (hpc : s.pc who = .returned .first ret) :
    Nearer s (lockabyte s who .first ret) := by
  have hview := h.view who
  unfold View at hview
  simp only [hpc] at hview
  obtain ⟨rfl, hholds, hheard⟩ := hview
  unfold Ch14Deadlock.lockabyte
  rw [if_neg (by decide)]
  have hgo : Nearer s (s.goto who .tell) := by
    refine h.goto (by rw [hpc]; rfl) ?_ (fun he => by cases he) (by rw [hpc]; simp)
    unfold View Heard
    rw [goto_self, goto_other]
    exact ⟨hholds, hheard⟩
  exact ⟨⟨hgo.1.view, hgo.1.apart⟩, hgo.2⟩

theorem Forked.tell (h : Forked s) (hpc : s.pc who = .tell) : Nearer s ((tell s who).goto who .test) := by
  have hview := h.view who
  unfold View at hview
  simp only [hpc] at hview
  refine ⟨?_, left_tell hpc⟩
  have htell : Ch14Deadlock.tell s who = { s with pending := Function.update s.pending who.other true } :=
    if_pos (h.view who.other).alive
  rw [htell]
  refine ⟨fun w => ?_, fun w hw => ?_⟩
  · rcases eq_or_other w who with rfl | rfl
    · unfold View Heard
      rw [goto_self, goto_other]
      exact ⟨hview.1, .inr ⟨hview.2.1, (Function.update_of_ne (other_ne w).symm _ _).trans hview.2.2⟩⟩
    · refine (h.view who.other).hear (by rw [other_other, hpc]; rfl) (goto_other _ _ _) ?_ rfl
        (Function.update_self _ _ _) rfl
      rw [other_other, goto_self]
      rfl
  · rcases eq_or_other w who with rfl | rfl
    · rw [goto_self] at hw
      cases hw
    · rw [other_other, goto_self]
      exact fun he => by cases he

/-- **The second request waits, or it is refused.** -/
theorem Forked.request (h : Forked s) (hpc : s.pc who = .lock .second) :
    Refused (setlkw s who .second) ∨ Nearer s (setlkw s who .second) := by
  have hview := h.view who
  unfold View at hview
  simp only [hpc] at hview
  have hheld : s.owner (offset who .second) = some who.other := by
    rw [offset_second]
    exact (h.view who.other).holds_of_told hview.2
  unfold setlkw
  rw [hheld]
  dsimp only
  rw [if_neg (other_ne who)]
  by_cases hcycle : s.pc who.other = .waiting .second
  · left
    have hwaits : waitsFor s who who.other = true := by
      unfold waitsFor
      rw [hcycle]
      dsimp only
      rw [offset_second, other_other, decide_eq_true_eq]
      exact hview.1
    rw [if_pos hwaits]
    exact ⟨who, goto_self s who _⟩
  · right
    have hwaits : ¬ waitsFor s who who.other = true := by
      intro hw
      unfold waitsFor at hw
      have hother := h.view who.other
      unfold View at hother
      split at hw
      · rename_i round hround
        cases round with
        | first =>
          rw [hround] at hother
          exact hother
        | second => exact hcycle hround
      · cases hw
    rw [if_neg hwaits]
    refine ⟨h.move who (fun w hw => by rw [goto_pc, if_neg hw]) (by rw [goto_self, hpc]; rfl) rfl rfl rfl ?_
      (fun _ => hcycle), left_goto (by rw [hpc]; simp)⟩
    unfold View
    rw [goto_self, goto_other]
    exact hview

theorem Forked.test (h : Forked s) (hpc : s.pc who = .test) :
    Nearer s (s.goto who (if s.sigflag who = 0 then .suspend else .clear)) := by
  have hview := h.view who
  unfold View at hview
  simp only [hpc] at hview
  by_cases hflag : s.sigflag who = 0
  · rw [if_pos hflag]
    refine h.goto (by rw [hpc]; rfl) ?_ (fun he => by cases he) (by rw [hpc, hflag]; decide)
    unfold View Heard
    rw [goto_self, goto_other]
    exact ⟨hview.1, hview.2.resolve_left (fun hn => hn.1 hflag)⟩
  · rw [if_neg hflag]
    refine h.goto (by rw [hpc]; rfl) ?_ (fun he => by cases he) (by rw [hpc]; simp [hflag])
    unfold View
    rw [goto_self, goto_other]
    exact ⟨hview.1, (hview.2.resolve_right (fun hh => hflag hh.1)).2⟩

theorem Forked.clear (h : Forked s) (hpc : s.pc who = .clear) :
    Nearer s ({ s with sigflag := Function.update s.sigflag who 0 }.goto who .restore) := by
  have hview := h.view who
  unfold View at hview
  simp only [hpc] at hview
  have hflag : Function.update s.sigflag who 0 who.other = s.sigflag who.other := Function.update_of_ne (other_ne who) _ _
  refine ⟨h.move who (fun w hw => by rw [goto_pc, if_neg hw]) (by rw [goto_self, hpc]; rfl) rfl rfl hflag ?_
    (fun he => ?_), left_move (goto_other _ _ _) rfl hflag ?_⟩
  · unfold View
    rw [goto_self, goto_other]
    exact hview
  · rw [goto_self] at he
    cases he
  · unfold leftOf
    rw [goto_self, hpc]
    exact Nat.add_lt_add_right (by simp) _

/-- A statement of a process: refused, or the two go on together. -/
theorem Forked.go (h : Forked s) (hs : goStep s who true = some s') : Refused s' ∨ Nearer s s' := by
  have hview := h.view who
  unfold View at hview
  unfold goStep at hs
  cases hpc : s.pc who with
  | lock round =>
    rw [hpc] at hs
    cases hs
    cases round with
    | first => exact .inr (h.lock hpc)
    | second => exact h.request hpc
  | returned round ret =>
    rw [hpc] at hs
    cases hs
    cases round with
    | first => exact .inr (h.lockabyte hpc)
    | second => simp only [hpc] at hview
  | tell =>
    rw [hpc] at hs
    cases hs
    exact .inr (h.tell hpc)
  | test =>
    rw [hpc] at hs
    cases hs
    exact .inr (h.test hpc)
  | suspend =>
    simp only [hpc] at hs hview
    cases hs
    right
    refine h.goto (by rw [hpc]; rfl) ?_ (fun he => by cases he) (by rw [hpc]; simp)
    unfold View Heard
    rw [goto_self, goto_other]
    exact hview
  | clear =>
    rw [hpc] at hs
    cases hs
    exact .inr (h.clear hpc)
  | restore =>
    simp only [hpc] at hs hview
    cases hs
    right
    refine h.goto (by rw [hpc]; rfl) ?_ (fun he => by cases he) (by rw [hpc]; simp)
    unfold View
    rw [goto_self, goto_other]
    exact hview
  | waiting round =>
    cases round with
    | first => simp only [hpc] at hview
    | second =>
      -- the other holds the byte
      simp only [hpc] at hs hview
      rw [offset_second, (h.view who.other).holds_of_told hview.2, if_neg (by simp)] at hs
      cases hs
  | asleep =>
    rw [hpc] at hs
    cases hs
  | unborn | create | write | signalUsr1 | signalUsr2 | block | fork | exit | ended e => simp only [hpc] at hview

/-- A signal that comes late changes nothing. -/
theorem Forked.late (h : Forked s) (hpending : s.pending who = true)
    (hpc : s.pc who = .lock .second ∨ s.pc who = .waiting .second) :
    Nearer s { s with
      pending := Function.update s.pending who false
      sigflag := Function.update s.sigflag who 1 } := by
  have hview := h.view who
  have hkept : Function.update s.pending who false who.other = s.pending who.other :=
    Function.update_of_ne (other_ne who) _ _
  have hflag : Function.update s.sigflag who 1 who.other = s.sigflag who.other := Function.update_of_ne (other_ne who) _ _
  refine ⟨h.move who (fun _ _ => rfl) rfl rfl hkept hflag ?_ (h.apart who), left_move rfl hkept hflag ?_⟩
  · unfold View at hview ⊢
    rcases hpc with hpc | hpc
    · simp only [hpc] at hview ⊢
      exact hview
    · simp only [hpc] at hview ⊢
      exact hview
  · unfold leftOf
    rcases hpc with hpc | hpc
    · simp [hpc, hpending]
    · simp [hpc, hpending]

theorem Forked.wake (h : Forked s) (hpending : s.pending who = true) (hpc : s.pc who = .asleep) :
    Nearer s { s with
      pending := Function.update s.pending who false
      sigflag := Function.update s.sigflag who 1
      pc := Function.update s.pc who .test } := by
  have hview := h.view who
  unfold View at hview
  simp only [hpc] at hview
  have hkept : Function.update s.pending who false who.other = s.pending who.other :=
    Function.update_of_ne (other_ne who) _ _
  have hflag : Function.update s.sigflag who 1 who.other = s.sigflag who.other := Function.update_of_ne (other_ne who) _ _
  refine ⟨h.move who (fun w hw => Function.update_of_ne hw _ _) ?_ rfl hkept hflag ?_ (fun he => ?_),
    left_move (Function.update_of_ne (other_ne who) _ _) hkept hflag ?_⟩
  · dsimp only
    rw [Function.update_self, hpc]
    rfl
  · unfold View
    dsimp only
    rw [Function.update_self, Function.update_of_ne (other_ne who)]
    refine ⟨hview.1, .inl ⟨by rw [Function.update_self]; decide, ?_⟩⟩
    rw [← hview.2.2]
    exact hpending
  · dsimp only at he
    rw [Function.update_self] at he
    cases he
  · simp [leftOf, hpending, hpc]

theorem Forked.deliver (h : Forked s) (hs : deliverStep s who = some s') : Nearer s s' := by
  have hview := h.view who
  unfold View at hview
  unfold deliverStep at hs
  split at hs
  · rename_i hcond
    obtain ⟨hpending, hopen⟩ := Bool.and_eq_true_iff.1 hcond
    cases hs
    cases hpc : s.pc who with
    | asleep =>
      rw [if_pos rfl]
      exact h.wake hpending hpc
    | lock round =>
      cases round with
      | first =>
        rw [hpc] at hopen
        cases hopen
      | second =>
        rw [if_neg (by simp)]
        exact h.late hpending (.inl hpc)
    | waiting round =>
      cases round with
      | first =>
        rw [hpc] at hopen
        cases hopen
      | second =>
        rw [if_neg (by simp)]
        exact h.late hpending (.inr hpc)
    | returned round ret =>
      cases round with
      | first =>
        rw [hpc] at hopen
        cases hopen
      | second => simp only [hpc] at hview
    | exit => simp only [hpc] at hview
    | _ =>
      rw [hpc] at hopen
      cases hopen
  · cases hs

/-! ## All runs -/

/-- Until a request is refused. -/
def Crossing (s : State) : Prop := Unforked s ∨ Forked s

theorem Unforked.goto (h : Unforked s) {pc : Pc} (hpc : pc ∈ [.create, .write, .signalUsr1, .signalUsr2, .block, .fork]) :
    Unforked (s.goto .parent pc) :=
  ⟨by rw [goto_self]; exact hpc, (goto_other s .parent pc).trans h.child, h.free, h.none⟩

theorem Unforked.fork (h : Unforked s) (hpc : s.pc .parent = .fork) :
    Nearer s ((s.goto .parent (.lock .first)).goto .child (.lock .first)) := by
  have hlock : ∀ w, ((s.goto .parent (.lock .first)).goto .child (.lock .first)).pc w = .lock .first := by
    intro w
    cases w with
    | parent => rfl
    | child => rfl
  refine ⟨⟨fun w => ?_, fun w hw => ?_⟩, ?_⟩
  · unfold View Heard
    rw [hlock, hlock]
    exact ⟨h.free _, (h.none w).2, (h.none w).1⟩
  · rw [hlock] at hw
    cases hw
  · unfold left leftOf
    rw [hlock, hlock, hpc, h.child]
    change rank (s.sigflag .parent) _ + (if s.pending .parent then 1 else 0) +
      (rank (s.sigflag .child) _ + (if s.pending .child then 1 else 0)) < _
    simp only [rank]
    omega

theorem Unforked.go (h : Unforked s) (hs : goStep s .parent true = some s') : Crossing s' ∧ left s' < left s := by
  have hparent := h.parent
  unfold goStep at hs
  cases hpc : s.pc .parent with
  | create | write | signalUsr1 | signalUsr2 | block =>
    rw [hpc] at hs
    cases hs
    exact ⟨.inl (h.goto (by simp)), left_goto (by rw [hpc]; simp)⟩
  | fork =>
    rw [hpc] at hs
    cases hs
    exact (h.fork hpc).imp_left .inr
  | _ =>
    rw [hpc] at hparent
    simp at hparent

theorem crossing_step {a : Act} (h : Crossing s) (hs : restrict succeeds step s a = some s') :
    Refused s' ∨ (Crossing s' ∧ left s' < left s) := by
  obtain ⟨hok, hs⟩ := restrict_some hs
  cases a with
  | go who success =>
    obtain rfl : success = true := hok
    rcases h with h | h
    · cases who with
      | parent => exact .inr (h.go hs)
      | child =>
        unfold step goStep at hs
        dsimp only at hs
        rw [h.child] at hs
        cases hs
    · exact (h.go hs).imp_right (fun hn => hn.imp_left .inr)
  | deliver who =>
    rcases h with h | h
    · unfold step deliverStep at hs
      dsimp only at hs
      rw [(h.none who).1] at hs
      cases hs
    · exact .inr ((h.deliver hs).imp_left .inr)

/-- A process that neither sleeps nor waits goes on. -/
theorem View.go (h : View s who) (hasleep : s.pc who ≠ .asleep) (hwait : s.pc who ≠ .waiting .second) :
    ∃ s', goStep s who true = some s' := by
  unfold View at h
  unfold goStep
  cases hpc : s.pc who with
  | lock round | returned round ret | tell | test | suspend | clear | restore | exit => exact ⟨_, rfl⟩
  | asleep => exact absurd hpc hasleep
  | waiting round =>
    cases round with
    | first => simp only [hpc] at h
    | second => exact absurd hpc hwait
  | unborn | create | write | signalUsr1 | signalUsr2 | block | fork | ended e => simp only [hpc] at h

/-- A process that sleeps is woken where the other has told it. -/
theorem View.deliver (h : View s who) (hpc : s.pc who = .asleep) (ht : told (s.pc who.other) = true) :
    ∃ s', deliverStep s who = some s' := by
  unfold View at h
  simp only [hpc] at h
  have hpending : s.pending who = true := h.2.2.trans ht
  unfold deliverStep
  rw [hpending, hpc]
  exact ⟨_, rfl⟩

theorem Forked.live (h : Forked s) : ∃ a s', restrict succeeds step s a = some s' := by
  have hgo : ∀ who, (∃ s', goStep s who true = some s') → ∃ a s', restrict succeeds step s a = some s' :=
    fun who ⟨s', hs⟩ => ⟨.go who true, s', hs⟩
  have hdeliver : ∀ who, (∃ s', deliverStep s who = some s') → ∃ a s', restrict succeeds step s a = some s' :=
    fun who ⟨s', hs⟩ => ⟨.deliver who, s', hs⟩
  have hstuck : ∀ who, (∃ s', goStep s who true = some s') ∨ s.pc who = .asleep ∨ s.pc who = .waiting .second := by
    intro who
    by_cases hasleep : s.pc who = .asleep
    · exact .inr (.inl hasleep)
    · by_cases hwait : s.pc who = .waiting .second
      · exact .inr (.inr hwait)
      · exact .inl ((h.view who).go hasleep hwait)
  rcases hstuck .parent with hp | hp | hp
  · exact hgo _ hp
  · rcases hstuck .child with hc | hc | hc
    · exact hgo _ hc
    · exact hdeliver .parent ((h.view .parent).deliver hp (by change told (s.pc .child) = true; rw [hc]; rfl))
    · exact hdeliver .parent ((h.view .parent).deliver hp (by change told (s.pc .child) = true; rw [hc]; rfl))
  · rcases hstuck .child with hc | hc | hc
    · exact hgo _ hc
    · exact hdeliver .child ((h.view .child).deliver hc (by change told (s.pc .parent) = true; rw [hp]; rfl))
    · exact absurd hc (h.apart .parent hp)

theorem Unforked.live (h : Unforked s) : ∃ a s', restrict succeeds step s a = some s' := by
  refine ⟨.go .parent true, ?_⟩
  change ∃ s', goStep s .parent true = some s'
  have hparent := h.parent
  unfold goStep
  cases hpc : s.pc .parent with
  | create | write | signalUsr1 | signalUsr2 | block | fork => exact ⟨_, rfl⟩
  | _ =>
    rw [hpc] at hparent
    simp at hparent

/-- **Where no other call fails, every run comes to a request that is refused.** -/
theorem refused : Inevitably (restrict succeeds step) Refused init :=
  inevitably_of_measure left (fun _ h _ => h.elim Unforked.live Forked.live)
    (fun _ _ _ h _ hs => crossing_step h hs) init
    (.inl ⟨by decide, rfl, fun _ => rfl, fun _ => ⟨rfl, rfl⟩⟩)

/-- Its process then reports the lock, which it does not hold. -/
theorem Refused.lies (h : Refused s) : ∃ who s', step s (.go who true) = some s' ∧ ¬ Tells s (.go who true) s' := by
  obtain ⟨who, hpc⟩ := h
  refine ⟨who, lockabyte s who .second (-1), returned_step hpc, fun htells => ?_⟩
  obtain ⟨msg, hended⟩ := htells.failed who true .second (-1) rfl hpc (by decide)
  change (s.goto who .exit).pc who = _ at hended
  rw [goto_self] at hended
  cases hended

end Ch14Deadlock
end Cc
