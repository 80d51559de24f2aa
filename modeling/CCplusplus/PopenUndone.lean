import CCplusplus.PopenRuns
/-!
# PopenUndone — what a `popen` that returns `NULL` leaves behind

Up to `fork` every exit undoes what the call has acquired: the descriptors of a pipe that is out of range are closed.
From `fork` on none does: where `fork` fails both ends of the pipe stay open, and where `fdopen` fails one of them does,
and a child runs that nothing records.  So a `NULL` leaves the parent as it was exactly if it comes before `fork`
(`popen_undone_iff`).
-/
namespace Cc
namespace Popen

/-- Where `NULL` is returned, the descriptors are what they were, and a child that was forked has a record. -/
def Undone (env : Outcomes) (p : Process) (x : Popened) : Prop :=
  (∃ e, x.result = .null e) →
    x.parent.fds = p.fds ∧ (x.child ≠ none → ∀ pid, env.fork = .ok pid → ∃ fd, recorded x.parent fd = pid)

/-- `pipe` succeeds, with both descriptors below `maxfd`. -/
def pipeTaken (env : Outcomes) (maxfd : Nat) : Bool :=
  match env.pipe with
  | .ends _ pfd0 pfd1 => decide (pfd0 < maxfd) && decide (pfd1 < maxfd)
  | _ => false

def failsLate (env : Outcomes) : Bool :=
  match env.fork, env.fdopen with
  | .ok _, .ok () => false
  | _, _ => true

/-- The call comes to `fork` with a pipe, and `fork` fails or `fdopen` does. -/
def stranded (type : Nat → UInt8) (env : Outcomes) (p : Process) : Bool :=
  !refuses type && (allocated env p).childpid.isSome && pipeTaken env (allocated env p).maxfd && failsLate env

theorem openPipe_apply {fds : Fds} {pipe pfd0 pfd1 : Nat} (hne : pfd0 ≠ pfd1) (fd : Nat) :
    openPipe fds pipe pfd0 pfd1 fd =
      if fd = pfd0 then some (.pipeRead pipe) else if fd = pfd1 then some (.pipeWrite pipe) else fds fd := by
  unfold openPipe
  by_cases h1 : fd = pfd1
  · rw [h1, Function.update_self, if_neg hne.symm, if_pos rfl]
  · rw [Function.update_of_ne h1, if_neg h1]
    by_cases h0 : fd = pfd0
    · rw [h0, Function.update_self, if_pos rfl]
    · rw [Function.update_of_ne h0, if_neg h0]

theorem close_apply (fds : Fds) (fd fd' : Nat) : close fds fd fd' = if fd' = fd then none else fds fd' :=
  Function.update_apply fds fd none fd'

theorem close_openPipe {fds : Fds} {pipe pfd0 pfd1 : Nat} (h0 : fds pfd0 = none) (h1 : fds pfd1 = none)
    (hne : pfd0 ≠ pfd1) : close (close (openPipe fds pipe pfd0 pfd1) pfd0) pfd1 = fds := by
  funext fd
  rw [close_apply, close_apply, openPipe_apply hne]
  by_cases hfd1 : fd = pfd1
  · rw [if_pos hfd1, hfd1, h1]
  · rw [if_neg hfd1]
    by_cases hfd0 : fd = pfd0
    · rw [if_pos hfd0, hfd0, h0]
    · rw [if_neg hfd0, if_neg hfd0, if_neg hfd1]

theorem ne_of_open {fds fds' : Fds} {fd : Nat} (h : fds fd = none) (h' : fds' fd ≠ none) : fds' ≠ fds := by
  rintro rfl
  exact h' h

section Piped

variable {type : Nat → UInt8} {env : Outcomes} {p q : Process} {childpid : Nat → Nat} {pipe pfd0 pfd1 : Nat}
  {closes : Nat × Nat → Nat}

/-- **From the pipe on**: nothing is left exactly if a descriptor is out of range or everything succeeds. -/
theorem piped_undone_iff (hread : type 0 = 114) (h0 : p.fds pfd0 = none) (h1 : p.fds pfd1 = none) (hne : pfd0 ≠ pfd1)
    (hfds : q.fds = openPipe p.fds pipe pfd0 pfd1) :
    Undone env p (piped closes type env childpid pfd0 pfd1 q) ↔
      ¬ (pfd0 < q.maxfd ∧ pfd1 < q.maxfd ∧ failsLate env = true) := by
  have hopen : ∀ fds' : Fds, fds' pfd0 = some (.pipeRead pipe) → fds' ≠ p.fds := fun fds' h =>
    ne_of_open h0 (by rw [h]; simp)
  have hread0 : q.fds pfd0 = some (.pipeRead pipe) := by rw [hfds, openPipe_apply hne, if_pos rfl]
  have hclosed0 : close q.fds pfd1 pfd0 = some (.pipeRead pipe) := by rw [close_apply, if_neg hne, hread0]
  unfold piped failsLate
  by_cases hlarge : pfd0 ≥ q.maxfd ∨ pfd1 ≥ q.maxfd
  · rw [if_pos hlarge]
    refine iff_of_true (fun _ => ⟨?_, fun hchild => absurd rfl hchild⟩) (by omega)
    dsimp only
    rw [hfds]
    exact close_openPipe h0 h1 hne
  rw [if_neg hlarge]
  have hrange : pfd0 < q.maxfd ∧ pfd1 < q.maxfd := by omega
  cases hfork : env.fork with
  | error e => exact iff_of_false (fun h => hopen _ hread0 (h ⟨e, rfl⟩).1) (fun h => h ⟨hrange.1, hrange.2, rfl⟩)
  | ok pid =>
    simp only [hread, if_true]
    unfold fdopen
    rw [hclosed0, if_neg (by simp)]
    cases hdopen : env.fdopen with
    | error e => exact iff_of_false (fun h => hopen _ hclosed0 (h ⟨e, rfl⟩).1) (fun h => h ⟨hrange.1, hrange.2, rfl⟩)
    | ok u => exact iff_of_true (fun ⟨e, he⟩ => by cases he) (fun h => by simp at h)

end Piped

/-- **A `popen` that returns `NULL` has undone everything exactly if it did not fail at `fork` or `fdopen`.** -/
theorem popen_undone_iff (type : Nat → UInt8) (env : Outcomes) (p : Process) (hfresh : FreshPipe env p) :
    Undone env p (popen type env p) ↔ stranded type env p = false := by
  obtain ⟨hfds, -, -⟩ := allocated_unrecorded env p
  unfold popen popenWith stranded pipeTaken
  cases hr : refuses type with
  | true => exact iff_of_true (fun _ => ⟨rfl, fun h => absurd rfl h⟩) rfl
  | false =>
    obtain ⟨hread, -⟩ := (refuses_eq_false type).1 hr
    rw [if_neg (by decide)]
    dsimp only
    generalize allocated env p = q at hfds ⊢
    obtain ⟨fds, childpid, maxfd⟩ := q
    subst hfds
    cases childpid with
    | none => exact iff_of_true (fun _ => ⟨rfl, fun h => absurd rfl h⟩) rfl
    | some childpid =>
      cases hp : env.pipe with
      | emfile | enfile => exact iff_of_true (fun _ => ⟨rfl, fun h => absurd rfl h⟩) rfl
      | ends pipe pfd0 pfd1 =>
        obtain ⟨h0, h1, hne⟩ := hfresh pipe pfd0 pfd1 hp
        refine (piped_undone_iff (q := ⟨openPipe p.fds pipe pfd0 pfd1, some childpid, maxfd⟩) hread h0 h1 hne rfl).trans ?_
        simp

/-- The system at its limit of processes: `EAGAIN`. -/
def forkRefused : Outcomes := { allGranted with fork := .error (.other 11) }

theorem popen_undone_granted : Undone allGranted startProcess (popen (mode 114) allGranted startProcess) ↔
    stranded (mode 114) allGranted startProcess = false :=
  popen_undone_iff _ _ _ freshPipe_start

/-- **`fork` fails**: `NULL`, and both ends of the pipe are open. -/
theorem popen_stranded : (popen (mode 114) forkRefused startProcess).result = .null (.other 11) ∧
    (popen (mode 114) forkRefused startProcess).parent.fds 3 = some (.pipeRead 0) ∧
    (popen (mode 114) forkRefused startProcess).parent.fds 4 = some (.pipeWrite 0) ∧
    ¬ Undone forkRefused startProcess (popen (mode 114) forkRefused startProcess) := by
  refine ⟨rfl, rfl, rfl, fun h => ?_⟩
  cases congrFun (h ⟨_, rfl⟩).1 3

end Popen
end Cc
