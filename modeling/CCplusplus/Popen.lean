import CCplusplus.Lib.Exec
import Mathlib.Logic.Function.Basic
/-!
# Popen — `popen` and `pclose` of `ch15_popen_pclose.c`, and `popen` of `lib/popen.c`

A process is its descriptor table, the array `childpid` (`none` while the pointer is `NULL`) and `maxfd`.  What the
system calls answer is given with each call.  The two `popen`s are one function up to the test of `type` and the end of
the pipe that the parent closes when it is to write.  They agree for every `type` but `"w"` (`popen_agrees_iff`).
-/
namespace Cc

open CLib

namespace Popen

inductive Errno where
  | EINVAL
  | EMFILE
  | ENFILE
  | ENOMEM
  | EBADF
  | other (n : Nat)
deriving DecidableEq, Repr

/-- What a descriptor refers to. -/
inductive Obj where
  | pipeRead (pipe : Nat)
  | pipeWrite (pipe : Nat)
  | file (n : Nat)
deriving DecidableEq, Repr

abbrev Fds := Nat → Option Obj

def close (fds : Fds) (fd : Nat) : Fds := Function.update fds fd none

def dup2 (fds : Fds) (fd fd2 : Nat) : Fds :=
  match fds fd with
  | some obj => Function.update fds fd2 (some obj)
  | none => fds

def STDIN_FILENO : Nat := 0
def STDOUT_FILENO : Nat := 1

structure Process where
  fds : Fds
  /-- the recorded child of each descriptor, `0` for none -/
  childpid : Option (Nat → Nat)
  maxfd : Nat

inductive PipeOutcome where
  | emfile
  | enfile
  | ends (pipe pfd0 pfd1 : Nat)

/-- What the system answers during one call of `popen`. -/
structure Outcomes where
  openMax : Nat
  callocFails : Bool
  pipe : PipeOutcome
  fork : Except Errno Nat
  fdopen : Except Errno Unit

inductive Result where
  | null (errno : Errno)
  | stream (fileno : Nat)
deriving DecidableEq, Repr

/-- What a call of `popen` comes to; `child` is the forked child's table before `execl`. -/
structure Popened where
  result : Result
  parent : Process
  child : Option Fds

/-! ## `popen` -/

/-- `for (i = 0; i < maxfd; i++) if (childpid[i] > 0) close(i);` -/
def closeRecorded (childpid : Nat → Nat) (maxfd : Nat) (fds : Fds) : Fds :=
  (List.range maxfd).foldl (fun fds i => if childpid i > 0 then close fds i else fds) fds

/-- The child, from `fork` to `execl`. -/
def childFds (type : Nat → UInt8) (pfd0 pfd1 : Nat) (childpid : Nat → Nat) (maxfd : Nat) (fds : Fds) : Fds :=
  let fds :=
    if type 0 = 114 then
      let fds := close fds pfd0
      if pfd1 ≠ STDOUT_FILENO then close (dup2 fds pfd1 STDOUT_FILENO) pfd1 else fds
    else
      let fds := close fds pfd1
      if pfd0 ≠ STDIN_FILENO then close (dup2 fds pfd0 STDIN_FILENO) pfd0 else fds
  closeRecorded childpid maxfd fds

/-- `fdopen` refuses a descriptor that is not open. -/
def fdopen (outcome : Except Errno Unit) (fds : Fds) (fd : Nat) : Except Errno Unit :=
  if (fds fd).isNone then .error .EBADF else outcome

/-- The first call allocates `childpid`. -/
def allocated (env : Outcomes) (p : Process) : Process :=
  match p.childpid with
  | some _ => p
  | none => { p with maxfd := env.openMax, childpid := if env.callocFails then none else some (fun _ => 0) }

def openPipe (fds : Fds) (pipe pfd0 pfd1 : Nat) : Fds :=
  Function.update (Function.update fds pfd0 (some (.pipeRead pipe))) pfd1 (some (.pipeWrite pipe))

/-- `popen` from the successful `pipe` on; `closes` is the end that the parent closes when it is to write. -/
def piped (closes : Nat × Nat → Nat) (type : Nat → UInt8) (env : Outcomes) (childpid : Nat → Nat) (pfd0 pfd1 : Nat)
    (p : Process) : Popened :=
  if pfd0 ≥ p.maxfd ∨ pfd1 ≥ p.maxfd then ⟨.null .EMFILE, { p with fds := close (close p.fds pfd0) pfd1 }, none⟩
  else
    match env.fork with
    | .error e => ⟨.null e, p, none⟩
    | .ok pid =>
      let child := some (childFds type pfd0 pfd1 childpid p.maxfd p.fds)
      let fd := if type 0 = 114 then pfd0 else pfd1
      let p := { p with fds := close p.fds (if type 0 = 114 then pfd1 else closes (pfd0, pfd1)) }
      match fdopen env.fdopen p.fds fd with
      | .error e => ⟨.null e, p, child⟩
      | .ok () => ⟨.stream fd, { p with childpid := some (Function.update childpid fd pid) }, child⟩

/-- `popen`, for a test of `type` and the end that the parent closes when it is to write. -/
def popenWith (refuses : (Nat → UInt8) → Bool) (closes : Nat × Nat → Nat) (type : Nat → UInt8) (env : Outcomes)
    (p : Process) : Popened :=
  if refuses type then ⟨.null .EINVAL, p, none⟩
  else
    let p := allocated env p
    match p.childpid with
    | none => ⟨.null .ENOMEM, p, none⟩
    | some childpid =>
      match env.pipe with
      | .emfile => ⟨.null .EMFILE, p, none⟩
      | .enfile => ⟨.null .ENFILE, p, none⟩
      | .ends pipe pfd0 pfd1 => piped closes type env childpid pfd0 pfd1 { p with fds := openPipe p.fds pipe pfd0 pfd1 }

/-- `(type[0] != 'r' && type[1] != 'w') || type[1] != 0` -/
def refuses (type : Nat → UInt8) : Bool := (type 0 != 114 && type 1 != 119) || type 1 != 0

/-- `(type[0] != 'r' && type[0] != 'w') || type[1] != 0` -/
def libRefuses (type : Nat → UInt8) : Bool := (type 0 != 114 && type 0 != 119) || type 1 != 0

/-- `popen` of `ch15_popen_pclose.c`; `type` is the memory from the string's first byte on. -/
def popen : (Nat → UInt8) → Outcomes → Process → Popened := popenWith refuses (fun pfd => pfd.2)

/-- `popen` of `lib/popen.c`. -/
def libPopen : (Nat → UInt8) → Outcomes → Process → Popened := popenWith libRefuses (fun pfd => pfd.1)

/-! ## `pclose` -/

inductive FcloseOutcome where
  | done
  /-- `EOF`; the descriptor may be gone or not -/
  | eof (errno : Errno) (released : Bool)

inductive WaitOutcome where
  | eintr
  | fails (errno : Errno)
  /-- `child` says which child was waited for -/
  | reaped (child : Nat) (stat : Int)

/-- What a call of `pclose` comes to. -/
structure Pclosed where
  ret : Int
  errno : Option Errno
  proc : Process
  /-- `fclose(fp)` was called -/
  fclosed : Bool
  /-- the pid given to `waitpid` -/
  asked : Option Nat
  /-- the child that `waitpid` reaped -/
  reaped : Option Nat

/-- The value of the last `waitpid`, its `errno`, and the child it reaped; `none` while the process is in `waitpid`. -/
def waitLoop : List WaitOutcome → Option (Int × Option Errno × Option Nat)
  | [] => none
  | .eintr :: ws => waitLoop ws
  | .fails errno :: _ => some (-1, some errno, none)
  | .reaped child stat :: _ => some (stat, none, some child)

/-- `errno = EINVAL; return (-1);` -/
def invalid (p : Process) : Pclosed := ⟨-1, some .EINVAL, p, false, none, none⟩

/-- `pclose` of a stream whose `fileno` is `fd`; `none` while it has not returned. -/
def pclose (p : Process) (fd : Int) (closed : FcloseOutcome) (waits : List WaitOutcome) : Exec (Option Pclosed) :=
  match p.childpid with
  | none => .ok (some (invalid p))
  | some childpid =>
    if fd ≥ p.maxfd then .ok (some (invalid p))
    else if fd < 0 then .error .outOfBounds
    else
      let pid := childpid fd.toNat
      if pid = 0 then .ok (some (invalid p))
      else
        let p := { p with childpid := some (Function.update childpid fd.toNat 0) }
        match closed with
        | .eof errno released =>
          .ok (some ⟨-1, some errno, { p with fds := if released then close p.fds fd.toNat else p.fds }, true, none, none⟩)
        | .done =>
          .ok ((waitLoop waits).map (fun (ret, errno, reaped) =>
            ⟨ret, errno, { p with fds := close p.fds fd.toNat }, true, some pid, reaped⟩))

/-! ## The two `popen`s -/

/-- The same result, the same descriptors and `childpid` in the parent, the same descriptors in the child. -/
def Agrees (x y : Popened) : Prop :=
  x.result = y.result ∧ x.parent.fds = y.parent.fds ∧ x.parent.childpid = y.parent.childpid ∧ x.child = y.child

/-- `pipe` answers with two descriptors that were not open. -/
def FreshPipe (env : Outcomes) (p : Process) : Prop :=
  ∀ pipe pfd0 pfd1, env.pipe = .ends pipe pfd0 pfd1 → p.fds pfd0 = none ∧ p.fds pfd1 = none ∧ pfd0 ≠ pfd1

theorem refuses_eq_false (type : Nat → UInt8) : refuses type = false ↔ type 0 = 114 ∧ type 1 = 0 := by
  unfold refuses
  simp only [Bool.or_eq_false_iff, Bool.and_eq_false_iff, bne_eq_false_iff_eq]
  constructor
  · rintro ⟨h | h, h1⟩
    · exact ⟨h, h1⟩
    · rw [h1] at h
      exact absurd h (by decide)
  · rintro ⟨h, h1⟩
    exact ⟨.inl h, h1⟩

theorem libRefuses_eq_false (type : Nat → UInt8) :
    libRefuses type = false ↔ (type 0 = 114 ∨ type 0 = 119) ∧ type 1 = 0 := by
  unfold libRefuses
  simp only [Bool.or_eq_false_iff, Bool.and_eq_false_iff, bne_eq_false_iff_eq]

theorem popen_of_refuses {type : Nat → UInt8} (h : refuses type = true) (env : Outcomes) (p : Process) :
    popen type env p = ⟨.null .EINVAL, p, none⟩ := if_pos h

/-- For `"r"` the end that is closed for writing does not matter. -/
theorem popen_eq_of_read {type : Nat → UInt8} (h0 : type 0 = 114) (h1 : type 1 = 0) (env : Outcomes) (p : Process) :
    popen type env p = libPopen type env p := by
  have hr := (refuses_eq_false type).2 ⟨h0, h1⟩
  have hl := (libRefuses_eq_false type).2 ⟨.inl h0, h1⟩
  unfold popen libPopen popenWith piped
  simp only [hr, hl, h0, if_true]

/-- **The library's `popen` never answers `"w"` as a refusal does.** -/
theorem libPopen_write {type : Nat → UInt8} (h0 : type 0 = 119) (h1 : type 1 = 0) {env : Outcomes} {p : Process}
    (hfresh : FreshPipe env p) : ¬ Agrees ⟨.null .EINVAL, p, none⟩ (libPopen type env p) := by
  have hl := (libRefuses_eq_false type).2 ⟨.inr h0, h1⟩
  rintro ⟨hresult, hfds, hchildpid, hchild⟩
  unfold libPopen popenWith at hresult hfds hchildpid hchild
  simp only [hl, Bool.false_eq_true, if_false] at hresult hfds hchildpid hchild
  cases hc : (allocated env p).childpid with
  | none =>
    simp only [hc] at hresult
    cases hresult
  | some childpid =>
    simp only [hc] at hresult hfds hchildpid hchild
    cases hp : env.pipe with
    | emfile =>
      simp only [hp] at hresult
      cases hresult
    | enfile =>
      simp only [hp] at hresult
      cases hresult
    | ends pipe pfd0 pfd1 =>
      obtain ⟨hfree0, -, hne⟩ := hfresh pipe pfd0 pfd1 hp
      simp only [hp, piped] at hresult hfds hchildpid hchild
      split at hresult
      · cases hresult
      · rename_i hsmall
        simp only [if_neg hsmall] at hfds hchild
        cases hf : env.fork with
        | error e =>
          -- the ends of the pipe are left open
          simp only [hf] at hfds
          have h0 := congrFun hfds pfd0
          unfold openPipe at h0
          rw [Function.update_of_ne hne, Function.update_self, hfree0] at h0
          cases h0
        | ok pid =>
          simp only [hf] at hchild
          split at hchild
          · cases hchild
          · cases hchild

/-- **The two `popen`s agree for every `type` but `"w"`.** -/
theorem popen_agrees_iff (type : Nat → UInt8) (env : Outcomes) (p : Process) (hfresh : FreshPipe env p) :
    Agrees (popen type env p) (libPopen type env p) ↔ ¬ (type 0 = 119 ∧ type 1 = 0) := by
  constructor
  · rintro hagree ⟨h0, h1⟩
    have hr : refuses type = true := by
      rw [← Bool.not_eq_false, refuses_eq_false]
      rintro ⟨h, -⟩
      rw [h0] at h
      exact absurd h (by decide)
    rw [popen_of_refuses hr] at hagree
    exact libPopen_write h0 h1 hfresh hagree
  · intro hw
    by_cases hr : refuses type = true
    · have hl : libRefuses type = true := by
        rw [← Bool.not_eq_false, libRefuses_eq_false]
        rintro ⟨h | h, h1⟩
        · exact absurd hr (by rw [(refuses_eq_false type).2 ⟨h, h1⟩]; decide)
        · exact hw ⟨h, h1⟩
      rw [popen_of_refuses hr]
      unfold libPopen popenWith
      rw [if_pos hl]
      exact ⟨rfl, rfl, rfl, rfl⟩
    · obtain ⟨h0, h1⟩ := (refuses_eq_false type).1 (Bool.not_eq_true _ ▸ hr)
      rw [popen_eq_of_read h0 h1]
      exact ⟨rfl, rfl, rfl, rfl⟩

/-- The string `"r"` or `"w"`, by its first byte. -/
def mode (c : UInt8) : Nat → UInt8 := fun i => if i = 0 then c else 0

/-- A process with the three standard descriptors open. -/
def startProcess : Process := ⟨fun fd => if fd < 3 then some (.file fd) else none, none, 0⟩

/-- Everything succeeds: a pipe on descriptors 3 and 4, a child with pid 7. -/
def allGranted : Outcomes := ⟨256, false, .ends 0 3 4, .ok 7, .ok ()⟩

theorem freshPipe_start : FreshPipe allGranted startProcess := by
  rintro pipe pfd0 pfd1 ⟨⟩
  exact ⟨rfl, rfl, by decide⟩

theorem popen_agrees_read :
    Agrees (popen (mode 114) allGranted startProcess) (libPopen (mode 114) allGranted startProcess) :=
  (popen_agrees_iff _ _ _ freshPipe_start).2 (by decide)

/-- **`popen(cmd, "w")`**: refused here, a stream on the write end in the library. -/
theorem popen_disagrees_write : (popen (mode 119) allGranted startProcess).result = .null .EINVAL ∧
    (libPopen (mode 119) allGranted startProcess).result = .stream 4 ∧
    ¬ Agrees (popen (mode 119) allGranted startProcess) (libPopen (mode 119) allGranted startProcess) := by
  refine ⟨rfl, rfl, ?_⟩
  rintro ⟨h, -⟩
  cases h

end Popen
end Cc
