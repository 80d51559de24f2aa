import Mathlib.Logic.Function.Basic
import Mathlib.Tactic.Common
/-!
# Ch10System2 — `system` of `apue/ch10/ch10_system2.c`

A process is what it does with each signal, and its mask.  What the system calls answer is given with the call.
`system` ignores SIGINT and SIGQUIT and blocks SIGCHLD, one after the other; from `fork` on every exit takes the three
back.  The two exits between them take nothing back: they are right only where what they leave was there before
(`system_restores_iff`).
-/
namespace Cc
namespace Ch10System2

abbrev Sigset := BitVec 64

def sigemptyset : Sigset := 0

def sigaddset (set : Sigset) (signo : Nat) : Sigset := set ||| 1 <<< (signo - 1)

def SIGINT : Nat := 2
def SIGQUIT : Nat := 3
def SIGCHLD : Nat := 17

inductive Handler where
  | SIG_DFL
  | SIG_IGN
  | catches (n : Nat)
deriving DecidableEq, Repr

structure Sigaction where
  saHandler : Handler
  saMask : Sigset
  saFlags : Nat
deriving DecidableEq, Repr

structure Process where
  action : Nat → Sigaction
  mask : Sigset

inductive WaitOutcome where
  | eintr
  | fails
  | waited (status : Int)

/-- What the system answers during one call; `true` is success. -/
structure Outcomes where
  ignoreInt : Bool
  ignoreQuit : Bool
  block : Bool
  fork : Option Nat
  waits : List WaitOutcome
  restoreInt : Bool
  restoreQuit : Bool
  restoreMask : Bool

/-- What a call comes to; `child` is the forked child at `execl`, whose own three calls succeed. -/
structure Returned where
  ret : Int
  proc : Process
  child : Option Process

def sigaction (p : Process) (signo : Nat) (act : Sigaction) : Process :=
  { p with action := Function.update p.action signo act }

@[simp] theorem sigaction_self (p : Process) (signo : Nat) (act : Sigaction) :
    (sigaction p signo act).action signo = act := by simp [sigaction]

theorem sigaction_of_ne {signo signo' : Nat} (h : signo' ≠ signo) (p : Process) (act : Sigaction) :
    (sigaction p signo act).action signo' = p.action signo' := by
  simp [sigaction, h]

def ignore : Sigaction := ⟨.SIG_IGN, sigemptyset, 0⟩

def chldmask : Sigset := sigaddset sigemptyset SIGCHLD

/-- `while (waitpid(pid, &status, 0) < 0)`; `none` while the process is in `waitpid`. -/
def waitLoop : List WaitOutcome → Option Int
  | [] => none
  | .eintr :: waits => waitLoop waits
  | .fails :: _ => some (-1)
  | .waited status :: _ => some status

/-- `sigaction(SIGINT, &saveintr, NULL)`, `sigaction(SIGQUIT, &savequit, NULL)` and
`sigprocmask(SIG_SETMASK, &savemask, NULL)`. -/
def putBack (saveintr savequit : Sigaction) (savemask : Sigset) (p : Process) : Process :=
  { sigaction (sigaction p SIGINT saveintr) SIGQUIT savequit with mask := savemask }

/-- From `fork` on. -/
def restore (env : Outcomes) (saveintr savequit : Sigaction) (savemask : Sigset) (status : Int)
    (child : Option Process) (p : Process) : Returned :=
  if !env.restoreInt then ⟨-1, p, child⟩
  else if !env.restoreQuit then ⟨-1, sigaction p SIGINT saveintr, child⟩
  else if !env.restoreMask then ⟨-1, sigaction (sigaction p SIGINT saveintr) SIGQUIT savequit, child⟩
  else ⟨status, putBack saveintr savequit savemask p, child⟩

def system (cmdstring : Option (List UInt8)) (env : Outcomes) (p : Process) : Option Returned :=
  match cmdstring with
  | none => some ⟨1, p, none⟩
  | some _ =>
    if !env.ignoreInt then some ⟨-1, p, none⟩
    else
      let saveintr := p.action SIGINT
      let p := sigaction p SIGINT ignore
      if !env.ignoreQuit then some ⟨-1, p, none⟩
      else
        let savequit := p.action SIGQUIT
        let p := sigaction p SIGQUIT ignore
        if !env.block then some ⟨-1, p, none⟩
        else
          let savemask := p.mask
          let p := { p with mask := p.mask ||| chldmask }
          match env.fork with
          | none => some (restore env saveintr savequit savemask (-1) none p)
          | some _ =>
            let child := putBack saveintr savequit savemask p
            (waitLoop env.waits).map (fun status => restore env saveintr savequit savemask status (some child) p)

/-! ## What the caller finds -/

structure Restored (p p' : Process) : Prop where
  int : p'.action SIGINT = p.action SIGINT
  quit : p'.action SIGQUIT = p.action SIGQUIT
  mask : p'.mask = p.mask

def Outcomes.restores (env : Outcomes) : Bool := env.restoreInt && env.restoreQuit && env.restoreMask

/-- The call changes nothing, or comes to `fork`, or what it has changed was so before. -/
def undoes (cmdstring : Option (List UInt8)) (env : Outcomes) (p : Process) : Bool :=
  cmdstring.isNone || !env.ignoreInt || (env.ignoreQuit && env.block) ||
    (decide (p.action SIGINT = ignore) && (!env.ignoreQuit || decide (p.action SIGQUIT = ignore)))

theorem Restored.refl (p : Process) : Restored p p := ⟨rfl, rfl, rfl⟩

/-- Both dispositions and the mask, put back as they were. -/
theorem putBack_eq (p : Process) (mask : Sigset) :
    putBack (p.action SIGINT) (p.action SIGQUIT) p.mask
      { sigaction (sigaction p SIGINT ignore) SIGQUIT ignore with mask := mask } = p := by
  have haction : Function.update (Function.update (Function.update (Function.update p.action SIGINT ignore) SIGQUIT ignore)
      SIGINT (p.action SIGINT)) SIGQUIT (p.action SIGQUIT) = p.action := by
    funext signo
    simp only [Function.update_apply]
    split
    · rename_i h
      rw [h]
    · split
      · rename_i h
        rw [h]
      · rfl
  exact congrArg (fun action => Process.mk action p.mask) haction

theorem savequit_eq (p : Process) : (sigaction p SIGINT ignore).action SIGQUIT = p.action SIGQUIT :=
  sigaction_of_ne (by decide) p ignore

theorem restore_restores {env : Outcomes} (h : env.restores = true) (saveintr savequit : Sigaction) (savemask : Sigset)
    (status : Int) (child : Option Process) (p : Process) :
    restore env saveintr savequit savemask status child p = ⟨status, putBack saveintr savequit savemask p, child⟩ := by
  unfold Outcomes.restores at h
  simp only [Bool.and_eq_true] at h
  unfold restore
  rw [h.1.1, h.1.2, h.2, if_neg (by decide), if_neg (by decide), if_neg (by decide)]

theorem restored_int_iff (p : Process) : Restored p (sigaction p SIGINT ignore) ↔ p.action SIGINT = ignore := by
  constructor
  · intro h
    rw [← h.int]
    exact sigaction_self p SIGINT ignore
  · intro h
    exact ⟨(sigaction_self p SIGINT ignore).trans h.symm, savequit_eq p, rfl⟩

theorem restored_both_iff (p : Process) : Restored p (sigaction (sigaction p SIGINT ignore) SIGQUIT ignore) ↔
    p.action SIGINT = ignore ∧ p.action SIGQUIT = ignore := by
  have hint : (sigaction (sigaction p SIGINT ignore) SIGQUIT ignore).action SIGINT = ignore :=
    (sigaction_of_ne (by decide) _ _).trans (sigaction_self p SIGINT ignore)
  have hquit : (sigaction (sigaction p SIGINT ignore) SIGQUIT ignore).action SIGQUIT = ignore :=
    sigaction_self _ SIGQUIT ignore
  constructor
  · intro h
    exact ⟨h.int.symm.trans hint, h.quit.symm.trans hquit⟩
  · rintro ⟨h1, h2⟩
    exact ⟨hint.trans h1.symm, hquit.trans h2.symm, rfl⟩

/-- **A call that comes to `fork` leaves the process as it was.** -/
theorem system_forks {cmdstring : List UInt8} {env : Outcomes} {p : Process} {r : Returned}
    (hr : system (some cmdstring) env p = some r) (hrestores : env.restores = true) (hint : env.ignoreInt = true)
    (hquit : env.ignoreQuit = true) (hblock : env.block = true) : r.proc = p := by
  unfold system at hr
  simp only [hint, hquit, hblock, Bool.not_true, Bool.false_eq_true, if_false, savequit_eq,
    restore_restores hrestores] at hr
  cases hfork : env.fork with
  | none =>
    rw [hfork] at hr
    cases hr
    exact putBack_eq p _
  | some pid =>
    rw [hfork] at hr
    obtain ⟨status, -, rfl⟩ := Option.map_eq_some_iff.1 hr
    exact putBack_eq p _

/-- The child has the caller's dispositions and mask at `execl`. -/
theorem system_child {cmdstring : Option (List UInt8)} {env : Outcomes} {p child : Process} {r : Returned}
    (hr : system cmdstring env p = some r) (hrestores : env.restores = true) (hchild : r.child = some child) :
    child = p := by
  unfold system at hr
  cases cmdstring with
  | none =>
    cases hr
    cases hchild
  | some cmdstring =>
    simp only [savequit_eq, restore_restores hrestores] at hr
    split at hr
    · cases hr
      cases hchild
    · split at hr
      · cases hr
        cases hchild
      · split at hr
        · cases hr
          cases hchild
        · cases hfork : env.fork with
          | none =>
            rw [hfork] at hr
            cases hr
            cases hchild
          | some pid =>
            rw [hfork] at hr
            obtain ⟨status, -, rfl⟩ := Option.map_eq_some_iff.1 hr
            cases hchild
            exact putBack_eq p _

/-- **The dispositions of SIGINT and SIGQUIT and the mask are restored exactly if no call fails between the first change
and `fork`**, or if what then stays was so before. -/
theorem system_restores_iff {cmdstring : Option (List UInt8)} {env : Outcomes} {p : Process} {r : Returned}
    (hr : system cmdstring env p = some r) (hrestores : env.restores = true) :
    Restored p r.proc ↔ undoes cmdstring env p = true := by
  cases cmdstring with
  | none =>
    cases hr
    exact iff_of_true (.refl p) rfl
  | some cmdstring =>
    unfold undoes
    cases hint : env.ignoreInt with
    | false =>
      simp only [system, hint, Bool.not_false, if_true] at hr
      cases hr
      exact iff_of_true (.refl p) rfl
    | true =>
      cases hquit : env.ignoreQuit with
      | false =>
        simp only [system, hint, hquit, Bool.not_true, Bool.not_false, Bool.false_eq_true, if_true, if_false] at hr
        cases hr
        simpa using restored_int_iff p
      | true =>
        cases hblock : env.block with
        | false =>
          simp only [system, hint, hquit, hblock, Bool.not_true, Bool.not_false, Bool.false_eq_true, if_true,
            if_false] at hr
          cases hr
          simpa using restored_both_iff p
        | true =>
          rw [system_forks hr hrestores hint hquit hblock]
          exact iff_of_true (.refl p) rfl

/-- A process with every signal at its default action and nothing blocked. -/
def plain : Process := ⟨fun _ => ⟨.SIG_DFL, sigemptyset, 0⟩, sigemptyset⟩

/-- Everything succeeds; `waitpid` is interrupted once. -/
def granted : Outcomes := ⟨true, true, true, some 7, [.eintr, .waited 0], true, true, true⟩

theorem system_restores_granted : ∃ r, system (some [108, 115]) granted plain = some r ∧
    (Restored plain r.proc ↔ undoes (some [108, 115]) granted plain = true) :=
  ⟨_, rfl, system_restores_iff rfl rfl⟩

/-- `sigprocmask(SIG_BLOCK)` fails. -/
def blockFails : Outcomes := { granted with block := false }

/-- **Both signals stay ignored** where SIGCHLD cannot be blocked. -/
theorem system_unrestored : blockFails.restores = true ∧ ∃ r, system (some [108, 115]) blockFails plain = some r ∧
    r.ret = -1 ∧ r.proc.action SIGINT = ignore ∧ r.proc.action SIGQUIT = ignore ∧ ¬ Restored plain r.proc := by
  refine ⟨rfl, _, rfl, rfl, rfl, rfl, fun h => ?_⟩
  cases h.int

end Ch10System2
end Cc
