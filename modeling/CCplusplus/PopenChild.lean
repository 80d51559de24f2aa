import CCplusplus.PopenUndone
/-!
# PopenChild — the descriptors of the child at `execl`

The parent opens and closes descriptors of its own among its calls of `popen` and `pclose`; a new descriptor is the lowest
that is free.  A descriptor belongs to a stream from the `popen` that returns it to the `pclose` or `close` of it.  The
child moves the pipe's write end to descriptor 1 and then closes whatever `childpid` records, descriptor 1 with it if it
has a record there.  It comes to `execl` as it should exactly if it has none (`child_ready_iff`).
-/
namespace Cc
namespace Popen

open CLib

structure Parent where
  proc : Process
  /-- the descriptors of the streams that `popen` has returned -/
  owned : Nat → Bool
  /-- the pipes made so far -/
  pipes : Nat

inductive ParentAct where
  | popen (type : Nat → UInt8) (env : Outcomes)
  | pclose (fd : Nat) (how : FcloseOutcome) (waits : List WaitOutcome)
  | opens (fd n : Nat)
  | closes (fd : Nat)

/-- The lowest descriptor that is free. -/
def lowest (fds : Fds) (fd : Nat) : Bool := (fds fd).isNone && (List.range fd).all (fun i => (fds i).isSome)

/-- What the kernel grants: a new pipe on the two lowest descriptors, and a pid. -/
def grants (s : Parent) (env : Outcomes) : Bool :=
  (match env.pipe with
    | .ends pipe pfd0 pfd1 =>
      decide (pipe = s.pipes) && lowest s.proc.fds pfd0 &&
        lowest (Function.update s.proc.fds pfd0 (some (.pipeRead pipe))) pfd1
    | _ => true) &&
  (match env.fork with
    | .ok pid => decide (0 < pid)
    | .error _ => true)

def parentStep (s : Parent) : ParentAct → Option Parent
  | .popen type env =>
    if grants s env then
      let x := popen type env s.proc
      some {
        proc := x.parent
        owned := match x.result with
          | .stream fd => Function.update s.owned fd true
          | .null _ => s.owned
        pipes := s.pipes + 1 }
    else none
  | .pclose fd how waits =>
    match pclose s.proc fd how waits with
    | .ok (some r) => some { s with proc := r.proc, owned := if r.fclosed then Function.update s.owned fd false else s.owned }
    | _ => none
  | .opens fd n =>
    if lowest s.proc.fds fd then
      some { s with proc := { s.proc with fds := Function.update s.proc.fds fd (some (.file n)) } }
    else none
  | .closes fd =>
    some { s with proc := { s.proc with fds := close s.proc.fds fd }, owned := Function.update s.owned fd false }

def Obj.pipe : Obj → Option Nat
  | .pipeRead pipe => some pipe
  | .pipeWrite pipe => some pipe
  | .file _ => none

/-- Descriptor 1 is the write end of the new pipe, no other refers to the pipe, and no other is that of a stream. -/
structure Ready (s : Parent) (pipe : Nat) (child : Fds) : Prop where
  stdout : child STDOUT_FILENO = some (.pipeWrite pipe)
  alone : ∀ fd obj, fd ≠ STDOUT_FILENO → child fd = some obj → obj.pipe ≠ some pipe
  swept : ∀ fd, fd ≠ STDOUT_FILENO → s.owned fd = true → child fd = none

/-! ## The child -/

theorem closeRecorded_apply (childpid : Nat → Nat) (fds : Fds) (fd : Nat) : ∀ maxfd : Nat,
    closeRecorded childpid maxfd fds fd = if fd < maxfd ∧ childpid fd > 0 then none else fds fd
  | 0 => by
    rw [if_neg (fun h => absurd h.1 (Nat.not_lt_zero fd))]
    rfl
  | maxfd + 1 => by
    have ih := closeRecorded_apply childpid fds fd maxfd
    unfold closeRecorded at ih ⊢
    rw [List.range_succ, List.foldl_append, List.foldl_cons, List.foldl_nil]
    by_cases hpos : childpid maxfd > 0
    · rw [if_pos hpos, close_apply, ih]
      by_cases hfd : fd = maxfd
      · rw [if_pos hfd, hfd, if_pos ⟨Nat.lt_succ_self maxfd, hpos⟩]
      · rw [if_neg hfd]
        exact if_congr (and_congr_left' (by omega)) rfl rfl
    · rw [if_neg hpos, ih]
      refine if_congr (and_congr_left (fun h => ?_)) rfl rfl
      have hne : fd ≠ maxfd := fun he => hpos (he ▸ h)
      omega

/-- **The child's descriptors**: the sweep, and below it the pipe's write end at 1. -/
theorem childFds_apply {type : Nat → UInt8} (hread : type 0 = 114) {pfd0 pfd1 : Nat} (hne : pfd0 ≠ pfd1)
    (pipe : Nat) (childpid : Nat → Nat) (maxfd : Nat) (fds : Fds) (fd : Nat) :
    childFds type pfd0 pfd1 childpid maxfd (openPipe fds pipe pfd0 pfd1) fd =
      if fd < maxfd ∧ childpid fd > 0 then none
      else if fd = STDOUT_FILENO then some (.pipeWrite pipe)
      else if fd = pfd0 ∨ fd = pfd1 then none
      else fds fd := by
  unfold childFds
  rw [if_pos hread, closeRecorded_apply]
  refine if_congr Iff.rfl rfl ?_
  have hend : close (openPipe fds pipe pfd0 pfd1) pfd0 pfd1 = some (.pipeWrite pipe) := by
    rw [close_apply, if_neg hne.symm, openPipe_apply hne, if_neg hne.symm, if_pos rfl]
  by_cases hout : pfd1 = STDOUT_FILENO
  · rw [if_neg (fun h => h hout), ← hout]
    by_cases hfd : fd = pfd1
    · rw [hfd, if_pos rfl, hend]
    · rw [if_neg hfd, close_apply, openPipe_apply hne, if_neg hfd]
      by_cases hfd0 : fd = pfd0
      · rw [if_pos hfd0, if_pos (.inl hfd0)]
      · rw [if_neg hfd0, if_neg hfd0, if_neg (fun h => h.elim hfd0 hfd)]
  · rw [if_pos hout, close_apply]
    unfold dup2
    rw [hend]
    dsimp only
    by_cases hfd : fd = STDOUT_FILENO
    · rw [if_neg (fun h => hout (h.symm.trans hfd)), if_pos hfd, hfd, Function.update_self]
    · rw [if_neg hfd, Function.update_of_ne hfd, close_apply, openPipe_apply hne]
      by_cases hfd1 : fd = pfd1
      · rw [if_pos hfd1, if_pos (.inr hfd1)]
      · rw [if_neg hfd1, if_neg hfd1]
        by_cases hfd0 : fd = pfd0
        · rw [if_pos hfd0, if_pos (.inl hfd0)]
        · rw [if_neg hfd0, if_neg hfd0, if_neg (fun h => h.elim hfd0 hfd1)]

/-- A child is forked with both ends of a pipe in range. -/
theorem child_of_popen {type : Nat → UInt8} {env : Outcomes} {p : Process} {child : Fds}
    (h : (popen type env p).child = some child) :
    type 0 = 114 ∧ ∃ childpid pipe pfd0 pfd1, (allocated env p).childpid = some childpid ∧
      env.pipe = .ends pipe pfd0 pfd1 ∧ pfd0 < (allocated env p).maxfd ∧ pfd1 < (allocated env p).maxfd ∧
      child = childFds type pfd0 pfd1 childpid (allocated env p).maxfd (openPipe p.fds pipe pfd0 pfd1) := by
  obtain ⟨hfds, -, -⟩ := allocated_unrecorded env p
  unfold popen popenWith at h
  cases hr : refuses type with
  | true =>
    rw [hr, if_pos rfl] at h
    cases h
  | false =>
    obtain ⟨hread, -⟩ := (refuses_eq_false type).1 hr
    refine ⟨hread, ?_⟩
    rw [hr, if_neg (by decide)] at h
    dsimp only at h
    generalize allocated env p = q at hfds h ⊢
    obtain ⟨fds, childpid, maxfd⟩ := q
    subst hfds
    cases childpid with
    | none => cases h
    | some childpid =>
      cases hp : env.pipe with
      | emfile | enfile =>
        rw [hp] at h
        cases h
      | ends pipe pfd0 pfd1 =>
        simp only [hp, piped] at h
        by_cases hlarge : pfd0 ≥ maxfd ∨ pfd1 ≥ maxfd
        · rw [if_pos hlarge] at h
          cases h
        · rw [if_neg hlarge] at h
          cases hfork : env.fork with
          | error e =>
            rw [hfork] at h
            cases h
          | ok pid =>
            simp only [hfork] at h
            refine ⟨childpid, pipe, pfd0, pfd1, rfl, rfl, Nat.lt_of_not_le (fun hle => hlarge (.inl hle)),
              Nat.lt_of_not_le (fun hle => hlarge (.inr hle)), ?_⟩
            split at h
            · exact (Option.some.inj h).symm
            · exact (Option.some.inj h).symm

/-! ## The parent -/

/-- Every pipe that a descriptor refers to has been made, and every descriptor of a stream is recorded. -/
structure ParentInv (s : Parent) : Prop where
  made : ∀ fd obj pipe, s.proc.fds fd = some obj → obj.pipe = some pipe → pipe < s.pipes
  below : ∀ fd, recorded s.proc fd ≠ 0 → fd < s.proc.maxfd
  tracked : ∀ fd, s.owned fd = true → recorded s.proc fd ≠ 0

/-- At the start no stream has been opened. -/
structure ParentStart (s : Parent) : Prop where
  table : s.proc.childpid = none
  none : ∀ fd, s.owned fd = false
  made : ∀ fd obj pipe, s.proc.fds fd = some obj → obj.pipe = some pipe → pipe < s.pipes

theorem table_of_recorded {p : Process} {fd : Nat} (h : recorded p fd ≠ 0) : p.childpid ≠ none := by
  intro hn
  unfold recorded at h
  rw [hn] at h
  exact h rfl

theorem ParentStart.inv {s : Parent} (h : ParentStart s) : ParentInv s where
  made := h.made
  below := fun fd hrec => absurd h.table (table_of_recorded hrec)
  tracked := fun fd hfd => by
    rw [h.none] at hfd
    cases hfd

theorem fresh_of_grants {s : Parent} {env : Outcomes} (h : grants s env = true) {pipe pfd0 pfd1 : Nat}
    (hp : env.pipe = .ends pipe pfd0 pfd1) :
    pipe = s.pipes ∧ s.proc.fds pfd0 = none ∧ s.proc.fds pfd1 = none ∧ pfd0 ≠ pfd1 := by
  unfold grants lowest at h
  rw [hp] at h
  simp only [Bool.and_eq_true, decide_eq_true_eq, Option.isNone_iff_eq_none] at h
  obtain ⟨⟨⟨hpipe, h0, -⟩, h1, -⟩, -⟩ := h
  have hne : pfd0 ≠ pfd1 := by
    rintro rfl
    rw [Function.update_self] at h1
    cases h1
  rw [Function.update_of_ne hne.symm] at h1
  exact ⟨hpipe, h0, h1, hne⟩

theorem freshPipe_of_grants {s : Parent} {env : Outcomes} (h : grants s env = true) : FreshPipe env s.proc :=
  fun _ _ _ hp => (fresh_of_grants h hp).2

theorem pid_of_grants {s : Parent} {env : Outcomes} (h : grants s env = true) {pid : Nat} (hf : env.fork = .ok pid) :
    pid ≠ 0 := by
  unfold grants at h
  rw [hf] at h
  simp only [Bool.and_eq_true, decide_eq_true_eq] at h
  exact Nat.ne_of_gt h.2

/-- What a descriptor refers to after `popen` it did before, or it is an end of the call's pipe. -/
def FromPipe (env : Outcomes) (fds fds' : Fds) : Prop :=
  ∀ fd obj, fds' fd = some obj →
    fds fd = some obj ∨ ∃ pipe pfd0 pfd1, env.pipe = .ends pipe pfd0 pfd1 ∧ obj.pipe = some pipe

theorem FromPipe.openPipe {env : Outcomes} {pipe pfd0 pfd1 : Nat} (hp : env.pipe = .ends pipe pfd0 pfd1)
    (hne : pfd0 ≠ pfd1) (fds : Fds) : FromPipe env fds (openPipe fds pipe pfd0 pfd1) := by
  intro fd obj h
  rw [openPipe_apply hne] at h
  split at h
  · cases h
    exact .inr ⟨pipe, pfd0, pfd1, hp, rfl⟩
  · split at h
    · cases h
      exact .inr ⟨pipe, pfd0, pfd1, hp, rfl⟩
    · exact .inl h

theorem some_of_close {fds : Fds} {fd fd' : Nat} {obj : Obj} (h : close fds fd' fd = some obj) : fds fd = some obj := by
  rw [close_apply] at h
  split at h
  · cases h
  · exact h

theorem FromPipe.close {env : Outcomes} {fds fds' : Fds} (h : FromPipe env fds fds') (fd' : Nat) :
    FromPipe env fds (close fds' fd') := fun fd obj hfd => h fd obj (some_of_close hfd)

theorem popen_from {type : Nat → UInt8} {env : Outcomes} {p : Process} (hfresh : FreshPipe env p) :
    FromPipe env p.fds (popen type env p).parent.fds := by
  obtain ⟨hfds, -, -⟩ := allocated_unrecorded env p
  have hsame : FromPipe env p.fds p.fds := fun _ _ h => .inl h
  unfold popen popenWith
  cases hr : refuses type with
  | true => exact hsame
  | false =>
    rw [if_neg (by decide)]
    dsimp only
    generalize allocated env p = q at hfds ⊢
    obtain ⟨fds, childpid, maxfd⟩ := q
    subst hfds
    cases childpid with
    | none => exact hsame
    | some childpid =>
      cases hp : env.pipe with
      | emfile | enfile => exact hsame
      | ends pipe pfd0 pfd1 =>
        have hopen := FromPipe.openPipe hp (hfresh pipe pfd0 pfd1 hp).2.2 p.fds
        unfold piped
        dsimp only
        split
        · exact (hopen.close pfd0).close pfd1
        · cases env.fork with
          | error e => exact hopen
          | ok pid =>
            dsimp only
            split
            · exact hopen.close _
            · exact hopen.close _

theorem pclose_fds {p : Process} {fd : Nat} {how : FcloseOutcome} {waits : List WaitOutcome} {r : Pclosed}
    (h : pclose p fd how waits = .ok (some r)) : r.proc.fds = p.fds ∨ r.proc.fds = close p.fds fd := by
  unfold pclose at h
  cases hc : p.childpid with
  | none =>
    rw [hc] at h
    cases h
    exact .inl rfl
  | some childpid =>
    simp only [hc] at h
    split at h
    · cases h
      exact .inl rfl
    · rw [if_neg (by omega), Int.toNat_natCast] at h
      split at h
      · cases h
        exact .inl rfl
      · cases how with
        | eof errno released =>
          cases h
          cases released with
          | true => exact .inr rfl
          | false => exact .inl rfl
        | done =>
          cases hw : waitLoop waits with
          | none =>
            rw [hw] at h
            cases h
          | some o =>
            rw [hw] at h
            cases h
            exact .inr rfl

namespace ParentInv

variable {s s' : Parent}

/-- A call of `popen` that records nothing. -/
theorem unrecorded (hi : ParentInv s) {p : Process} (hp : Unrecorded s.proc p) :
    (∀ fd, recorded p fd ≠ 0 → fd < p.maxfd) ∧ ∀ fd, s.owned fd = true → recorded p fd ≠ 0 := by
  refine ⟨fun fd hrec => ?_, fun fd hfd => ?_⟩
  · rw [hp.table] at hrec
    rw [hp.bound (table_of_recorded hrec)]
    exact hi.below fd hrec
  · rw [hp.table]
    exact hi.tracked fd hfd

theorem popen (hi : ParentInv s) {type : Nat → UInt8} {env : Outcomes} (hs : parentStep s (.popen type env) = some s') :
    ParentInv s' := by
  unfold parentStep at hs
  dsimp only at hs
  split at hs
  · rename_i hgrants
    cases hs
    have hmade : ∀ fd obj pipe, (Popen.popen type env s.proc).parent.fds fd = some obj → obj.pipe = some pipe →
        pipe < s.pipes + 1 := by
      intro fd obj pipe hfd hobj
      rcases popen_from (freshPipe_of_grants hgrants) fd obj hfd with hold | ⟨pipe', _, _, hp, hnew⟩
      · exact Nat.lt_succ_of_lt (hi.made fd obj pipe hold hobj)
      · cases hnew.symm.trans hobj
        rw [(fresh_of_grants hgrants hp).1]
        exact Nat.lt_succ_self _
    have hdoes : PopenDoes env s.proc (Popen.popen type env s.proc) := popen_does (freshPipe_of_grants hgrants)
    rcases hdoes with
      ⟨-, ⟨e, hnull⟩, hun⟩ | ⟨pid, hfork, -, ⟨⟨e, hnull⟩, hun⟩ | ⟨fd', hstream, hrec⟩⟩
    · rw [hnull]
      exact ⟨hmade, (hi.unrecorded hun).1, (hi.unrecorded hun).2⟩
    · rw [hnull]
      exact ⟨hmade, (hi.unrecorded hun).1, (hi.unrecorded hun).2⟩
    · rw [hstream]
      refine ⟨hmade, fun fd hfd => ?_, fun fd hfd => ?_⟩
      · by_cases hne : fd = fd'
        · rw [hne]
          exact hrec.below
        · rw [hrec.table, Function.update_of_ne hne] at hfd
          dsimp only
          rw [hrec.bound (table_of_recorded hfd)]
          exact hi.below fd hfd
      · dsimp only at hfd ⊢
        rw [hrec.table]
        by_cases hne : fd = fd'
        · rw [hne, Function.update_self]
          exact pid_of_grants hgrants hfork
        · rw [Function.update_of_ne hne] at hfd ⊢
          exact hi.tracked fd hfd
  · cases hs

theorem pclose (hi : ParentInv s) {fd : Nat} {how : FcloseOutcome} {waits : List WaitOutcome}
    (hs : parentStep s (.pclose fd how waits) = some s') : ParentInv s' := by
  unfold parentStep at hs
  dsimp only at hs
  split at hs
  · rename_i r hr
    cases hs
    have hmade : ∀ fd' obj pipe, r.proc.fds fd' = some obj → obj.pipe = some pipe → pipe < s.pipes := by
      intro fd' obj pipe hfd hobj
      rcases pclose_fds hr with hfds | hfds
      · rw [hfds] at hfd
        exact hi.made fd' obj pipe hfd hobj
      · rw [hfds] at hfd
        exact hi.made fd' obj pipe (some_of_close hfd) hobj
    by_cases hrec : recorded s.proc fd = 0
    · rw [pclose_unrecorded hrec] at hr
      cases hr
      exact ⟨hi.made, hi.below, hi.tracked⟩
    · obtain ⟨htaken, hclosed, -⟩ := pclose_recorded hrec (hi.below fd hrec) hr
      refine ⟨hmade, fun fd' hfd => ?_, fun fd' hfd => ?_⟩
      · dsimp only at hfd ⊢
        rw [htaken.table] at hfd
        rw [htaken.bound]
        by_cases hne : fd' = fd
        · rw [hne]
          exact hi.below fd hrec
        · rw [Function.update_of_ne hne] at hfd
          exact hi.below fd' hfd
      · dsimp only at hfd ⊢
        rw [hclosed, if_pos rfl] at hfd
        rw [htaken.table]
        by_cases hne : fd' = fd
        · rw [hne, Function.update_self] at hfd
          cases hfd
        · rw [Function.update_of_ne hne] at hfd ⊢
          exact hi.tracked fd' hfd
  · cases hs

theorem step (a : ParentAct) (hi : ParentInv s) (hs : parentStep s a = some s') : ParentInv s' := by
  cases a with
  | popen type env => exact hi.popen hs
  | pclose fd how waits => exact hi.pclose hs
  | opens fd n =>
    unfold parentStep at hs
    dsimp only at hs
    split at hs
    · cases hs
      refine ⟨fun fd' obj pipe hfd hobj => ?_, hi.below, hi.tracked⟩
      dsimp only at hfd
      by_cases hne : fd' = fd
      · rw [hne, Function.update_self] at hfd
        cases hfd
        cases hobj
      · rw [Function.update_of_ne hne] at hfd
        exact hi.made fd' obj pipe hfd hobj
    · cases hs
  | closes fd =>
    cases hs
    refine ⟨fun fd' obj pipe hfd hobj => hi.made fd' obj pipe (some_of_close hfd) hobj, hi.below, fun fd' hfd => ?_⟩
    dsimp only at hfd
    by_cases hne : fd' = fd
    · rw [hne, Function.update_self] at hfd
      cases hfd
    · rw [Function.update_of_ne hne] at hfd
      exact hi.tracked fd' hfd

/-- **The child is as it should be exactly if nothing is recorded at descriptor 1.** -/
theorem ready_iff (hi : ParentInv s) {type : Nat → UInt8} {env : Outcomes} (hgrants : grants s env = true) {child : Fds}
    (hchild : (Popen.popen type env s.proc).child = some child) :
    Ready s s.pipes child ↔ recorded s.proc STDOUT_FILENO = 0 := by
  obtain ⟨hread, childpid, pipe, pfd0, pfd1, htable, hp, hlt0, hlt1, rfl⟩ := child_of_popen hchild
  obtain ⟨rfl, -, -, hne⟩ := fresh_of_grants hgrants hp
  obtain ⟨-, hrec, hbound⟩ := allocated_unrecorded env s.proc
  have hpid : childpid = recorded s.proc := by
    rw [← hrec]
    unfold recorded
    rw [htable]
  have hout : STDOUT_FILENO < (allocated env s.proc).maxfd := by
    unfold STDOUT_FILENO
    omega
  have happly := childFds_apply hread hne s.pipes childpid (allocated env s.proc).maxfd s.proc.fds
  constructor
  · intro hready
    by_contra hpos
    have hstdout := hready.stdout
    rw [happly, if_pos ⟨hout, by rw [hpid]; exact Nat.pos_of_ne_zero hpos⟩] at hstdout
    cases hstdout
  · intro hzero
    refine ⟨?_, fun fd obj hfd hobj => ?_, fun fd hfd howned => ?_⟩
    · rw [happly, if_neg (fun h => by rw [hpid, hzero] at h; exact absurd h.2 (Nat.lt_irrefl 0)), if_pos rfl]
    · rw [happly, if_neg hfd] at hobj
      split at hobj
      · cases hobj
      · split at hobj
        · cases hobj
        · intro hpipe
          exact absurd (hi.made fd obj s.pipes hobj hpipe) (Nat.lt_irrefl _)
    · have hrecd := hi.tracked fd howned
      rw [happly, if_pos]
      refine ⟨?_, by rw [hpid]; exact Nat.pos_of_ne_zero hrecd⟩
      rw [hbound (table_of_recorded hrecd)]
      exact hi.below fd hrecd

end ParentInv

/-- **In every state that is reached, the child of a `popen` is as it should be exactly if `childpid` has no record of
descriptor 1.** -/
theorem child_ready_iff {s₀ s : Parent} (hstart : ParentStart s₀) (as : List ParentAct)
    (h : run parentStep as s₀ = some s) (type : Nat → UInt8) (env : Outcomes) (hgrants : grants s env = true)
    (child : Fds) (hchild : (popen type env s.proc).child = some child) :
    Ready s s.pipes child ↔ recorded s.proc STDOUT_FILENO = 0 :=
  (run_inv ParentInv (fun _ a _ hi hs => hi.step a hs) as s₀ s hstart.inv h).ready_iff hgrants hchild

def startParent : Parent := ⟨startProcess, fun _ => false, 0⟩

theorem parentStart_startParent : ParentStart startParent := by
  refine ⟨rfl, fun _ => rfl, fun fd obj pipe hfd hobj => ?_⟩
  simp only [startParent, startProcess] at hfd
  split at hfd
  · cases hfd
    cases hobj
  · cases hfd

theorem child_ready_start : ∃ child, (popen (mode 114) allGranted startParent.proc).child = some child ∧
    (Ready startParent 0 child ↔ recorded startParent.proc STDOUT_FILENO = 0) :=
  ⟨_, rfl, child_ready_iff parentStart_startParent [] rfl (mode 114) allGranted (by decide) _ rfl⟩

/-- A pipe on descriptors 1 and 3, in a process that may have eight. -/
def onStdout : Outcomes := { allGranted with openMax := 8, pipe := .ends 0 1 3 }

/-- The next one, on 3 and 4. -/
def beside : Outcomes := { onStdout with pipe := .ends 1 3 4, fork := .ok 8 }

/-- **A stream on descriptor 1**: the child of the next `popen` has none. -/
theorem child_unready : ∃ s child, run parentStep [.closes 1, .popen (mode 114) onStdout] startParent = some s ∧
    s.owned 1 = true ∧ grants s beside = true ∧ (popen (mode 114) beside s.proc).child = some child ∧ child 1 = none ∧
    ¬ Ready s s.pipes child := by
  refine ⟨_, _, rfl, rfl, by decide, rfl, rfl, fun h => ?_⟩
  cases h.stdout

end Popen
end Cc
