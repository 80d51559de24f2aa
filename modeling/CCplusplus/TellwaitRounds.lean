import CCplusplus.TellwaitLost
/-!
# TellwaitRounds — two processes that take turns

The parent writes a line, tells the child and waits for it; the child waits, writes its line and tells the parent; and
this for a number of rounds.  In every run of the two alone their lines alternate, and all runs come to the end of the
last round exactly if there is one round only or the inherited mask blocks both signals (`rounds_iff`).
-/
namespace Cc
namespace Tellwait

open CLib

/-- A line, and the other's turn. -/
def speak (line : List Char) (rest : List Stmt) : List Stmt := line.map .put ++ .tell :: rest

/-- What a process does after a turn, with `k` more of them, and a last statement. -/
def turns (line : List Char) (last : List Stmt) : Nat → List Stmt
  | 0 => last
  | k + 1 => .wait :: speak line (turns line last k)

/-- The parent waits for the child once more after the last round. -/
def lastly : Who → List Stmt
  | .parent => [.wait]
  | .child => []

section Rounds

variable (line : Who → List Char)

def rounds : Nat → Who → List Stmt
  | 0, _ => []
  | n + 1, .parent => speak (line .parent) (turns (line .parent) (lastly .parent) n)
  | n + 1, .child => turns (line .child) (lastly .child) (n + 1)

/-- The lines of `n` rounds. -/
def inTurn : Nat → List (Who × Char)
  | 0 => []
  | n + 1 => (line .parent).map (Prod.mk .parent) ++ ((line .child).map (Prod.mk .child) ++ inTurn n)

/-- Both have ended, and their lines are in turn. -/
def Over (n : Nat) (s : State) : Prop :=
  (∀ who, (s.proc who).pc = .ended (.exit 0)) ∧ s.printed = inTurn line n

def System.Over (n : Nat) : System → Prop
  | .forked s => Tellwait.Over line n s
  | _ => False

end Rounds

/-! ## A process in its rounds -/

/-- The process has not been told. -/
structure Quiet (p : Proc) : Prop where
  flag : p.sigflag = 0
  pending : ∀ sig, p.pending sig = false

structure Ready (p : Proc) (script : List Stmt) : Prop extends Quiet p where
  pc : p.pc = .next
  script : p.script = script

/-- A process that waits, with what it does afterwards. -/
structure Idle (p : Proc) (after : List Stmt) : Prop extends Quiet p where
  place : p.pc = .next ∧ p.script = .wait :: after ∨
    (p.pc = .test ∨ p.pc = .suspend ∨ p.pc = .asleep) ∧ p.script = after

structure Finished (p : Proc) : Prop extends Quiet p where
  place : p.pc = .next ∧ p.script = [] ∨ p.pc = .ended (.exit 0)

/-- A process that has been told, and has still to come out of its wait. -/
inductive Told (who : Who) (p : Proc) (after : List Stmt) : Prop where
  | pending (flag : p.sigflag = 0) (pending : ∀ sig, p.pending sig = decide (sig = who.told))
      (place : p.pc = .next ∧ p.script = .wait :: after ∨
        (p.pc = .test ∨ p.pc = .suspend ∨ p.pc = .asleep) ∧ p.script = after)
  | flagged (flag : p.sigflag = 1) (pending : ∀ sig, p.pending sig = false)
      (place : p.pc = .next ∧ p.script = .wait :: after ∨ (p.pc = .test ∨ p.pc = .clear) ∧ p.script = after)
  | cleared (flag : p.sigflag = 0) (pending : ∀ sig, p.pending sig = false) (pc : p.pc = .restore)
      (script : p.script = after)

/-- It waits for its next turn, or has none and has finished. -/
inductive Resting (p : Proc) : List Stmt → Prop where
  | waits {after : List Stmt} : Idle p after → Resting p (.wait :: after)
  | done : Finished p → Resting p []

theorem Ready.idle {p : Proc} {after : List Stmt} (h : Ready p (.wait :: after)) : Idle p after :=
  ⟨h.toQuiet, .inl ⟨h.pc, h.script⟩⟩

theorem Ready.finished {p : Proc} (h : Ready p []) : Finished p := ⟨h.toQuiet, .inl ⟨h.pc, h.script⟩⟩

section Moves

variable {oldmask : Sig → Bool} {p p' : Proc} {e : Option Stmt} {after rest : List Stmt}

theorem Quiet.deliver (h : Quiet p) (sig : Sig) : p.deliver sig = none := by
  unfold Proc.deliver
  rw [h.pending sig]
  simp

theorem Ready.put {c : Char} (h : Ready p (.put c :: rest)) (hgo : p.go oldmask true = some (p', e)) :
    e = some (.put c) ∧ Ready p' rest := by
  simp only [Proc.go, h.pc, h.script] at hgo
  cases hgo
  exact ⟨rfl, ⟨h.flag, h.pending⟩, rfl, rfl⟩

theorem Ready.tell (h : Ready p (.tell :: rest)) (hgo : p.go oldmask true = some (p', e)) :
    e = some .tell ∧ Ready p' rest := by
  simp only [Proc.go, h.pc, h.script] at hgo
  cases hgo
  exact ⟨rfl, ⟨h.flag, h.pending⟩, rfl, rfl⟩

theorem Idle.go (h : Idle p after) (hgo : p.go oldmask true = some (p', e)) : e = none ∧ Idle p' after := by
  have hflag := h.flag
  rcases h.place with ⟨hpc, hscript⟩ | ⟨hpc | hpc | hpc, hscript⟩
  · simp only [Proc.go, hpc, hscript] at hgo
    cases hgo
    exact ⟨rfl, ⟨hflag, h.pending⟩, .inr ⟨.inl rfl, rfl⟩⟩
  · simp only [Proc.go, hpc, hflag, if_pos] at hgo
    cases hgo
    exact ⟨rfl, ⟨rfl, h.pending⟩, .inr ⟨.inr (.inl rfl), hscript⟩⟩
  · simp only [Proc.go, hpc] at hgo
    cases hgo
    exact ⟨rfl, ⟨hflag, h.pending⟩, .inr ⟨.inr (.inr rfl), hscript⟩⟩
  · simp only [Proc.go, hpc] at hgo
    cases hgo

theorem Finished.go (h : Finished p) (hgo : p.go oldmask true = some (p', e)) : e = none ∧ Finished p' := by
  rcases h.place with ⟨hpc, hscript⟩ | hpc
  · simp only [Proc.go, hpc, hscript] at hgo
    cases hgo
    exact ⟨rfl, ⟨h.flag, h.pending⟩, .inr rfl⟩
  · simp only [Proc.go, hpc] at hgo
    cases hgo

theorem Resting.go {script : List Stmt} (h : Resting p script) (hgo : p.go oldmask true = some (p', e)) :
    e = none ∧ Resting p' script := by
  cases h with
  | waits hidle => exact (hidle.go hgo).imp_right .waits
  | done hfinished => exact (hfinished.go hgo).imp_right .done

theorem Resting.quiet {script : List Stmt} (h : Resting p script) : Quiet p := by
  cases h with
  | waits hidle => exact hidle.toQuiet
  | done hfinished => exact hfinished.toQuiet

/-- A process that waits is told. -/
theorem Idle.arrive (h : Idle p after) (who : Who) : Told who (p.arrive who.told) after := by
  have halive : p.pc.alive = true := by
    rcases h.place with ⟨hpc, -⟩ | ⟨hpc | hpc | hpc, -⟩ <;> rw [hpc] <;> rfl
  unfold Proc.arrive
  rw [if_pos halive]
  refine .pending h.flag (fun sig => ?_) h.place
  by_cases hsig : sig = who.told
  · rw [hsig]
    simp
  · simp [hsig, h.pending]

theorem Told.go {who : Who} (h : Told who p after) (hgo : p.go oldmask true = some (p', e)) :
    e = none ∧ (Told who p' after ∨ Ready p' after) := by
  cases h with
  | pending hflag hpending hat =>
    rcases hat with ⟨hpc, hscript⟩ | ⟨hpc | hpc | hpc, hscript⟩
    · simp only [Proc.go, hpc, hscript] at hgo
      cases hgo
      exact ⟨rfl, .inl (.pending hflag hpending (.inr ⟨.inl rfl, rfl⟩))⟩
    · simp only [Proc.go, hpc, hflag, if_pos] at hgo
      cases hgo
      exact ⟨rfl, .inl (.pending rfl hpending (.inr ⟨.inr (.inl rfl), hscript⟩))⟩
    · simp only [Proc.go, hpc] at hgo
      cases hgo
      exact ⟨rfl, .inl (.pending hflag hpending (.inr ⟨.inr (.inr rfl), hscript⟩))⟩
    · simp only [Proc.go, hpc] at hgo
      cases hgo
  | flagged hflag hpending hat =>
    rcases hat with ⟨hpc, hscript⟩ | ⟨hpc | hpc, hscript⟩
    · simp only [Proc.go, hpc, hscript] at hgo
      cases hgo
      exact ⟨rfl, .inl (.flagged hflag hpending (.inr ⟨.inl rfl, rfl⟩))⟩
    · have hne : p.sigflag ≠ 0 := by rw [hflag]; decide
      simp only [Proc.go, hpc, if_neg hne] at hgo
      cases hgo
      exact ⟨rfl, .inl (.flagged hflag hpending (.inr ⟨.inr rfl, hscript⟩))⟩
    · simp only [Proc.go, hpc] at hgo
      cases hgo
      exact ⟨rfl, .inl (.cleared rfl hpending rfl hscript)⟩
  | cleared hflag hpending hpc hscript =>
    simp only [Proc.go, hpc, if_pos] at hgo
    cases hgo
    exact ⟨rfl, .inr ⟨⟨hflag, hpending⟩, rfl, hscript⟩⟩

/-- What is delivered before `sigsuspend` would be lost. -/
theorem Told.deliver {who : Who} {sig : Sig} (h : Told who p after) (hmask : p.pc = .suspend → p.mask sig = true)
    (hd : p.deliver sig = some p') : Told who p' after := by
  unfold Proc.deliver at hd
  split at hd
  · rename_i hok
    cases hd
    simp only [Bool.and_eq_true, Bool.or_eq_true, decide_eq_true_eq, Bool.not_eq_true'] at hok
    obtain ⟨⟨-, hsig⟩, hopen⟩ := hok
    cases h with
    | pending hflag hpending hat =>
      rw [hpending, decide_eq_true_eq] at hsig
      refine .flagged rfl (fun x => ?_) ?_
      · by_cases hx : x = sig
        · rw [hx]
          simp
        · simp only [Function.update_of_ne hx, hpending]
          exact decide_eq_false (hsig ▸ hx)
      · rcases hat with ⟨hpc, hscript⟩ | ⟨hpc | hpc | hpc, hscript⟩
        · exact .inl ⟨by simp [hpc], hscript⟩
        · exact .inr ⟨.inl (by simp [hpc]), hscript⟩
        · rw [hpc, hmask hpc] at hopen
          simp at hopen
        · exact .inr ⟨.inl (by simp [hpc]), hscript⟩
    | flagged hflag hpending hat =>
      rw [hpending] at hsig
      cases hsig
    | cleared hflag hpending hpc hscript =>
      rw [hpending] at hsig
      cases hsig
  · cases hd

theorem go_live (hlive : p.pc.alive = true) (hawake : p.pc ≠ .asleep) : ∃ r, p.go oldmask true = some r := by
  unfold Proc.go
  split
  · split <;> exact ⟨_, rfl⟩
  · exact ⟨_, rfl⟩
  · exact ⟨_, rfl⟩
  · rename_i hpc
    exact absurd hpc hawake
  · exact ⟨_, rfl⟩
  · exact ⟨_, rfl⟩
  · rename_i hpc
    rw [hpc] at hlive
    cases hlive

/-- A process that has been told is not stuck. -/
theorem Told.live (oldmask : Sig → Bool) {who : Who} (h : Told who p after) :
    (∃ r, p.go oldmask true = some r) ∨ ∃ p', p.deliver who.told = some p' := by
  cases h with
  | pending hflag hpending hat =>
    rcases hat with ⟨hpc, hscript⟩ | ⟨hpc | hpc | hpc, hscript⟩
    · exact .inl (go_live (by rw [hpc]; rfl) (by rw [hpc]; decide))
    · exact .inl (go_live (by rw [hpc]; rfl) (by rw [hpc]; decide))
    · exact .inl (go_live (by rw [hpc]; rfl) (by rw [hpc]; decide))
    · refine .inr ⟨_, if_pos ?_⟩
      simp [hpc, hpending, Pc.alive]
  | flagged hflag hpending hat =>
    rcases hat with ⟨hpc, hscript⟩ | ⟨hpc | hpc, hscript⟩
    · exact .inl (go_live (by rw [hpc]; rfl) (by rw [hpc]; decide))
    · exact .inl (go_live (by rw [hpc]; rfl) (by rw [hpc]; decide))
    · exact .inl (go_live (by rw [hpc]; rfl) (by rw [hpc]; decide))
  | cleared hflag hpending hpc hscript => exact .inl (go_live (by rw [hpc]; rfl) (by rw [hpc]; decide))

end Moves

/-! ## Every step brings the two nearer to their ends -/

/-- Where a process is within a statement; a flag that is set leaves out `sigsuspend`. -/
def Proc.within (p : Proc) : Nat :=
  match p.pc with
  | .next => 1
  | .test => if p.sigflag = 0 then 7 else 4
  | .suspend => 6
  | .asleep => 5
  | .clear => 3
  | .restore => 2
  | .ended _ => 0

def Proc.told (p : Proc) : Nat := (p.pending .sigusr1).toNat + (p.pending .sigusr2).toNat

def Proc.rank (p : Proc) : Nat := 8 * p.script.length + p.within + p.told

def State.rank (s : State) : Nat := (s.proc .parent).rank + (s.proc .child).rank

theorem State.rank_who (s : State) (who : Who) : s.rank = (s.proc who).rank + (s.proc who.other).rank := by
  cases who with
  | parent => rfl
  | child => exact Nat.add_comm _ _

theorem Proc.arrive_rank (p : Proc) (sig : Sig) : (p.arrive sig).rank ≤ p.rank + 1 := by
  unfold Proc.arrive
  split
  · have htold : (Function.update p.pending sig true .sigusr1).toNat + (Function.update p.pending sig true .sigusr2).toNat
        ≤ p.told + 1 := by
      unfold Proc.told
      have h1 := Bool.toNat_le (p.pending .sigusr1)
      have h2 := Bool.toNat_le (p.pending .sigusr2)
      cases sig with
      | sigusr1 =>
        rw [Function.update_self, Function.update_of_ne (by decide), Bool.toNat_true]
        omega
      | sigusr2 =>
        rw [Function.update_self, Function.update_of_ne (by decide), Bool.toNat_true]
        omega
    simp only [Proc.rank, Proc.told, Proc.within] at htold ⊢
    omega
  · exact Nat.le_add_right _ 1

theorem Proc.go_rank {oldmask : Sig → Bool} {p p' : Proc} {e : Option Stmt} (hgo : p.go oldmask true = some (p', e)) :
    p'.rank + (if e = some .tell then 1 else 0) < p.rank := by
  unfold Proc.go at hgo
  split at hgo
  · rename_i hpc
    split at hgo
    · cases hgo
      simp [Proc.rank, Proc.within, Proc.told, hpc]
    · rename_i hscript
      cases hgo
      simp [Proc.rank, Proc.within, Proc.told, hpc, hscript]
    · rename_i hscript
      cases hgo
      simp [Proc.rank, Proc.within, Proc.told, hpc, hscript]
      omega
    · rename_i hscript
      cases hgo
      simp [Proc.rank, Proc.within, Proc.told, hpc, hscript]
      split <;> omega
  · rename_i hpc
    cases hgo
    by_cases hflag : p.sigflag = 0
    · simp [Proc.rank, Proc.within, Proc.told, hpc, hflag]
    · simp [Proc.rank, Proc.within, Proc.told, hpc, hflag]
  · rename_i hpc
    cases hgo
    simp [Proc.rank, Proc.within, Proc.told, hpc]
  · cases hgo
  · rename_i hpc
    cases hgo
    simp [Proc.rank, Proc.within, Proc.told, hpc]
  · rename_i hpc
    rw [if_pos rfl] at hgo
    cases hgo
    simp [Proc.rank, Proc.within, Proc.told, hpc]
  · cases hgo

theorem Proc.deliver_rank {p p' : Proc} {sig : Sig} (hd : p.deliver sig = some p') : p'.rank < p.rank := by
  unfold Proc.deliver at hd
  split at hd
  · rename_i hok
    cases hd
    simp only [Bool.and_eq_true] at hok
    have hsig := hok.1.2
    have htold : (Function.update p.pending sig false .sigusr1).toNat + (Function.update p.pending sig false .sigusr2).toNat
        < p.told := by
      unfold Proc.told
      cases sig <;> simp [hsig]
    have hwithin : ∀ pc flag, flag = 1 → pc = (if p.pc = .asleep then Pc.test else p.pc) →
        Proc.within ⟨p.script, pc, p.mask, p.pending, flag⟩ ≤ p.within := by
      rintro pc flag rfl rfl
      cases hpc : p.pc <;> simp [Proc.within, hpc]
      split <;> omega
    have h := hwithin _ 1 rfl rfl
    simp only [Proc.rank, Proc.within, Proc.told] at htold h ⊢
    omega
  · cases hd

theorem step_rank {oldmask : Sig → Bool} {s s' : State} {a : Act} (hcalm : calm s a = true)
    (hs : step oldmask s a = some s') : s'.rank < s.rank := by
  cases a with
  | go who success =>
    cases success with
    | false => cases hcalm
    | true =>
      obtain ⟨⟨p, e⟩, hp, rfl⟩ := Option.map_eq_some_iff.1 hs
      have hrank := Proc.go_rank hp
      rw [State.rank_who _ who, s.rank_who who, State.emit_proc, State.set_proc, State.emit_other, State.set_other]
      by_cases htell : e = some .tell
      · have harrive := (s.proc who.other).arrive_rank who.other.told
        rw [if_pos htell] at hrank ⊢
        dsimp only
        omega
      · rw [if_neg htell] at hrank ⊢
        dsimp only
        omega
  | deliver who sig =>
    obtain ⟨p, hp, rfl⟩ := Option.map_eq_some_iff.1 hs
    have hrank := Proc.deliver_rank hp
    rw [State.rank_who _ who, s.rank_who who, State.set_proc, State.set_other]
    omega
  | signal who sig => cases hcalm

/-! ## Whose turn it is -/

section Turns

variable (line : Who → List Char)

/-- What a process does after a turn, with `k` more of them. -/
def rest (who : Who) (k : Nat) : List Stmt := turns (line who) (lastly who) k

/-- The turns of a process from its next one on, `k` rounds before the end. -/
def own : Who → Nat → Nat
  | .parent, k => k
  | .child, k => k + 1

/-- What is still to be written where a process has its next turn before it. -/
def todo : Who → Nat → List (Who × Char)
  | .parent, k => inTurn line k
  | .child, k => (line .child).map (Prod.mk .child) ++ inTurn line k

/-- One of the two has the turn, or has been told and is about to have it, or both have had all of theirs. -/
inductive Turn (n : Nat) (s : State) : Prop where
  | speaking (who : Who) (k : Nat) (l : List Char) (ready : Ready (s.proc who) (speak l (rest line who k)))
      (resting : Resting (s.proc who.other) (rest line who.other (own who.other k)))
      (printed : s.printed ++ (l.map (Prod.mk who) ++ todo line who.other k) = inTurn line n)
  | told (who : Who) (k : Nat) (after : List Stmt) (cut : rest line who (own who k) = .wait :: after)
      (told : Told who (s.proc who) after) (resting : Resting (s.proc who.other) (rest line who.other k))
      (printed : s.printed ++ todo line who k = inTurn line n)
  | ended (finished : ∀ who, Finished (s.proc who)) (printed : s.printed = inTurn line n)

variable {line} {n : Nat} {oldmask : Sig → Bool}

theorem finished_both {s : State} (who : Who) (h : Finished (s.proc who)) (h' : Finished (s.proc who.other)) (q : Who) :
    Finished (s.proc q) := by
  rcases who.eq_or_other q with rfl | rfl
  · exact h
  · exact h'

theorem turn_start (script : Who → List Stmt) (hscript : script = rounds line n) :
    Turn line n (.start oldmask script) := by
  have hquiet : ∀ who, Quiet ((State.start oldmask script).proc who) := fun who => ⟨rfl, fun _ => rfl⟩
  cases n with
  | zero => exact .ended (fun who => ⟨hquiet who, .inl ⟨rfl, by rw [hscript]; rfl⟩⟩) rfl
  | succ k =>
    refine .speaking .parent k (line .parent) ⟨hquiet .parent, rfl, by rw [hscript]; rfl⟩ ?_ rfl
    exact .waits ⟨hquiet .child, .inl ⟨rfl, by rw [hscript]; rfl⟩⟩

/-- The other is told, at the end of a turn. -/
theorem rest_own (line : Who → List Char) (who : Who) (k : Nat) : ∃ after, rest line who (own who k) = .wait :: after := by
  cases who with
  | parent =>
    cases k with
    | zero => exact ⟨_, rfl⟩
    | succ k => exact ⟨_, rfl⟩
  | child => exact ⟨_, rfl⟩

/-- A process comes out of its wait: to its turn, or to its end. -/
theorem turn_ready {s : State} {who : Who} {k : Nat} {after : List Stmt} (hcut : rest line who (own who k) = .wait :: after)
    (hready : Ready (s.proc who) after) (hresting : Resting (s.proc who.other) (rest line who.other k))
    (hprinted : s.printed ++ todo line who k = inTurn line n) : Turn line n s := by
  cases who with
  | parent =>
    cases k with
    | zero =>
      cases hcut
      cases hresting with
      | done hfinished =>
        exact .ended (finished_both .parent hready.finished hfinished) ((List.append_nil _).symm.trans hprinted)
    | succ k =>
      cases hcut
      exact .speaking .parent k (line .parent) hready hresting hprinted
  | child =>
    cases hcut
    exact .speaking .child k (line .child) hready hresting hprinted

theorem Resting.told {p : Proc} {script after : List Stmt} (h : Resting p script) (hcut : script = .wait :: after)
    (who : Who) : Told who (p.arrive who.told) after := by
  cases h with
  | waits hidle =>
    cases hcut
    exact hidle.arrive who
  | done _ => cases hcut

theorem Ready.resting {p : Proc} {who : Who} {k : Nat} (h : Ready p (rest line who k)) : Resting p (rest line who k) := by
  cases k with
  | zero =>
    cases who with
    | parent => exact .waits h.idle
    | child => exact .done h.finished
  | succ k => exact .waits h.idle

/-- The statement of a process that has no turn. -/
theorem turn_rest {s : State} {who : Who} {script : List Stmt} {p : Proc} {e : Option Stmt}
    (h : Resting (s.proc who) script) (hgo : (s.proc who).go oldmask true = some (p, e)) :
    (s.set who p).emit who e = s.set who p ∧ Resting ((s.set who p).proc who) script := by
  obtain ⟨rfl, hrest⟩ := h.go hgo
  exact ⟨rfl, by rwa [State.set_proc]⟩

theorem turn_go {s : State} {who : Who} {p : Proc} {e : Option Stmt} (h : Turn line n s)
    (hgo : (s.proc who).go oldmask true = some (p, e)) : Turn line n ((s.set who p).emit who e) := by
  cases h with
  | speaking q k l hready hresting hprinted =>
    rcases q.eq_or_other who with rfl | rfl
    · cases l with
      | nil =>
        obtain ⟨rfl, hready'⟩ := hready.tell hgo
        obtain ⟨after, hcut⟩ := rest_own line who.other k
        refine .told who.other k after hcut ?_ ?_ ?_
        · rw [State.emit_other, State.set_other, if_pos rfl]
          exact hresting.told hcut who.other
        · rw [Who.other_other, State.emit_proc, State.set_proc]
          exact hready'.resting
        · rw [State.emit_printed, State.set_printed, List.append_assoc]
          exact hprinted
      | cons c l =>
        obtain ⟨rfl, hready'⟩ := hready.put hgo
        refine .speaking who k l ?_ ?_ ?_
        · rw [State.emit_proc, State.set_proc]
          exact hready'
        · rw [State.emit_other, State.set_other, if_neg (by simp)]
          exact hresting
        · rw [State.emit_printed, State.set_printed, List.append_assoc]
          exact hprinted
    · obtain ⟨hemit, hrest⟩ := turn_rest hresting hgo
      rw [hemit]
      refine .speaking q k l ?_ hrest hprinted
      have hother := State.set_other s q.other p
      rw [Who.other_other] at hother
      rw [hother]
      exact hready
  | told q k after hcut htold hresting hprinted =>
    rcases q.eq_or_other who with rfl | rfl
    · obtain ⟨rfl, htold' | hready⟩ := htold.go hgo
      · exact .told who k after hcut (by rwa [State.emit_proc, State.set_proc])
          (by rw [State.emit_other, State.set_other, if_neg (by simp)]; exact hresting) hprinted
      · exact turn_ready hcut (by rwa [State.emit_proc, State.set_proc])
          (by rw [State.emit_other, State.set_other, if_neg (by simp)]; exact hresting) hprinted
    · obtain ⟨hemit, hrest⟩ := turn_rest hresting hgo
      rw [hemit]
      refine .told q k after hcut ?_ hrest hprinted
      have hother := State.set_other s q.other p
      rw [Who.other_other] at hother
      rw [hother]
      exact htold
  | ended hfinished hprinted =>
    obtain ⟨rfl, hfinished'⟩ := (hfinished who).go hgo
    refine .ended (finished_both who ?_ ?_) hprinted
    · rwa [State.emit_proc, State.set_proc]
    · rw [State.emit_other, State.set_other, if_neg (by simp)]
      exact hfinished who.other

theorem turn_deliver {s : State} {who : Who} {sig : Sig} {p : Proc} (h : Turn line n s)
    (hmask : (s.proc who).pc = .suspend → (s.proc who).mask sig = true) (hd : (s.proc who).deliver sig = some p) :
    Turn line n (s.set who p) := by
  have hnot : ¬ Quiet (s.proc who) := fun hq => by cases hd.symm.trans (hq.deliver sig)
  cases h with
  | speaking q k l hready hresting hprinted =>
    rcases q.eq_or_other who with rfl | rfl
    · exact absurd hready.toQuiet hnot
    · exact absurd hresting.quiet hnot
  | told q k after hcut htold hresting hprinted =>
    rcases q.eq_or_other who with rfl | rfl
    · exact .told who k after hcut (by rw [State.set_proc]; exact htold.deliver hmask hd)
        (by rw [State.set_other]; exact hresting) hprinted
    · exact absurd hresting.quiet hnot
  | ended hfinished hprinted => exact absurd (hfinished who).toQuiet hnot

end Turns

/-! ## All rounds -/

theorem count_speak (line : List Char) (rest : List Stmt) : (speak line rest).count .wait = rest.count .wait := by
  unfold speak
  have hline : Stmt.wait ∉ line.map Stmt.put := by simp
  rw [List.count_append, List.count_eq_zero_of_not_mem hline, Nat.zero_add, List.count_cons_of_ne (by decide)]

theorem count_turns (line : List Char) (last : List Stmt) : ∀ k : Nat,
    (turns line last k).count .wait = k + last.count .wait
  | 0 => (Nat.zero_add _).symm
  | k + 1 => by
    rw [turns, List.count_cons_self, count_speak, count_turns line last k]
    omega

theorem count_rounds (line : Who → List Char) (n : Nat) (who : Who) : (rounds line n who).count .wait = n := by
  cases n with
  | zero => rfl
  | succ k =>
    cases who with
    | parent =>
      rw [rounds, count_speak, count_turns]
      rfl
    | child =>
      rw [rounds, count_turns]
      rfl

theorem stuck {oldmask : Sig → Bool} {s : State}
    (h : ∀ who, (s.proc who).go oldmask true = none ∧ ∀ sig, (s.proc who).deliver sig = none) (a : Act) :
    restrict calm (step oldmask) s a = none := by
  unfold restrict
  split
  · rename_i hcalm
    cases a with
    | go who success =>
      obtain rfl : success = true := hcalm
      exact Option.map_eq_none_iff.2 (h who).1
    | deliver who sig => exact Option.map_eq_none_iff.2 ((h who).2 sig)
    | signal who sig => cases hcalm
  · rfl

theorem over_stuck {line : Who → List Char} {oldmask : Sig → Bool} {n : Nat} {s : State} (h : Over line n s) (a : Act) :
    restrict calm (step oldmask) s a = none :=
  stuck (fun who => ⟨by simp only [Proc.go, h.1 who], fun sig => by simp [Proc.deliver, h.1 who, Pc.alive]⟩) a

theorem live_go {oldmask : Sig → Bool} {s : State} {who : Who} (h : ∃ r, (s.proc who).go oldmask true = some r) :
    ∃ a s', restrict calm (step oldmask) s a = some s' := by
  obtain ⟨r, hr⟩ := h
  exact ⟨.go who true, _, (if_pos rfl).trans (Option.map_eq_some_iff.2 ⟨r, hr, rfl⟩)⟩

theorem turn_live {line : Who → List Char} {oldmask : Sig → Bool} {n : Nat} {s : State} (h : Turn line n s)
    (hover : ¬ Over line n s) : ∃ a s', restrict calm (step oldmask) s a = some s' := by
  cases h with
  | speaking who k l hready hresting hprinted =>
    exact live_go (go_live (by rw [hready.pc]; rfl) (by rw [hready.pc]; decide))
  | told who k after hcut htold hresting hprinted =>
    rcases htold.live oldmask with hgo | ⟨p, hd⟩
    · exact live_go hgo
    · exact ⟨.deliver who who.told, _, (if_pos rfl).trans (Option.map_eq_some_iff.2 ⟨p, hd, rfl⟩)⟩
  | ended hfinished hprinted =>
    obtain ⟨who, hpc⟩ : ∃ who, (s.proc who).pc ≠ .ended (.exit 0) := by
      by_contra hall
      exact hover ⟨fun who => by_contra fun hpc => hall ⟨who, hpc⟩, hprinted⟩
    have hnext : (s.proc who).pc = .next := ((hfinished who).place.resolve_right hpc).1
    have hgo : ∃ r, (s.proc who).go oldmask true = some r := go_live (by rw [hnext]; rfl) (by rw [hnext]; decide)
    exact live_go hgo

def InTurns (line : Who → List Char) (oldmask : Sig → Bool) (n : Nat) (s : State) : Prop :=
  Turn line n s ∧ ∀ who, Masked oldmask n (s.proc who)

/-- The turns are kept where the mask blocks what would be lost. -/
theorem turn_step {line : Who → List Char} {oldmask : Sig → Bool} {n : Nat}
    (hfew : ¬ (2 ≤ n ∧ ∃ sig, oldmask sig = false)) {s s' : State} {a : Act}
    (h : InTurns line oldmask n s) (hs : restrict calm (step oldmask) s a = some s') :
    InTurns line oldmask n s' ∧ s'.rank < s.rank := by
  obtain ⟨hcalm, hstep⟩ := restrict_some hs
  refine ⟨⟨?_, fun who => (h.2 who).step hstep⟩, step_rank hcalm hstep⟩
  cases a with
  | go who success =>
    cases success with
    | false => cases hcalm
    | true =>
      obtain ⟨⟨p, e⟩, hp, rfl⟩ := Option.map_eq_some_iff.1 hstep
      exact turn_go h.1 hp
  | deliver who sig =>
    obtain ⟨p, hp, rfl⟩ := Option.map_eq_some_iff.1 hstep
    exact turn_deliver h.1 (fun hpc => (h.2 who).blocks hfew (by rw [hpc]; rfl) sig) hp
  | signal who sig => cases hcalm

/-! ## A round that is not the first -/

section Hanging

variable (oldmask : Sig → Bool)

/-- A process that nobody has told. -/
def Proc.untold (script : List Stmt) (pc : Pc) (mask : Sig → Bool) : Proc := ⟨script, pc, mask, fun _ => false, 0⟩

/-- The line of a process and its `tell`. -/
theorem reach_speak {who : Who} {rest script : List Stmt} {mask mask' : Sig → Bool} {pc : Pc} (hpc : pc.alive = true) :
    ∀ (l : List Char) (s : State), s.proc who = .untold (speak l rest) .next mask →
      s.proc who.other = .untold script pc mask' →
      ∃ t, Reach (restrict calm (step oldmask)) s t ∧ t.proc who = .untold rest .next mask ∧
        t.proc who.other = ⟨script, pc, mask', Function.update (fun _ => false) who.other.told true, 0⟩
  | [], s, hs, ho => by
    have hgo : (s.proc who).go oldmask true = some (.untold rest .next mask, some .tell) := by
      rw [hs]
      rfl
    refine ⟨_, reach_go oldmask hgo, by rw [State.emit_proc, State.set_proc], ?_⟩
    rw [State.emit_other, State.set_other, if_pos rfl, ho]
    exact if_pos hpc
  | c :: l, s, hs, ho => by
    have hgo : (s.proc who).go oldmask true = some (.untold (speak l rest) .next mask, some (.put c)) := by
      rw [hs]
      rfl
    obtain ⟨t, hreach, hrest⟩ := reach_speak hpc l ((s.set who (.untold (speak l rest) .next mask)).emit who (some (.put c)))
      (by rw [State.emit_proc, State.set_proc]) (by rw [State.emit_other, State.set_other, if_neg (by simp), ho])
    exact ⟨t, (reach_go oldmask hgo).trans hreach, hrest⟩

theorem update_back (sig : Sig) : Function.update (Function.update (fun _ => false) sig true) sig false
    = (fun _ => false : Sig → Bool) := by
  rw [Function.update_idem]
  exact Function.update_eq_self sig (fun _ => false)

/-- A turn passes on to a process that sleeps, and the one that had it comes to where it has tested its flag. -/
theorem reach_turn {who : Who} {l : List Char} {after after' : List Stmt} {mask mask' : Sig → Bool} {s : State}
    (hs : s.proc who = .untold (speak l (.wait :: after)) .next mask)
    (ho : s.proc who.other = .untold after' .asleep mask') :
    ∃ t, Reach (restrict calm (step oldmask)) s t ∧ t.proc who = .untold after .suspend mask ∧
      t.proc who.other = .untold after' .next oldmask := by
  obtain ⟨t₁, hreach₁, hw₁, ho₁⟩ := reach_speak oldmask rfl l s hs ho
  have hreach₂ := reach_woken oldmask (Function.update_self ..) ho₁
  rw [update_back] at hreach₂
  have hw₂ : (t₁.set who.other (.untold after' .next oldmask)).proc who = .untold (.wait :: after) .next mask := by
    have hother := State.set_other t₁ who.other (.untold after' .next oldmask)
    rw [Who.other_other] at hother
    rw [hother, hw₁]
  refine ⟨_, hreach₁.trans (hreach₂.trans (reach_suspend oldmask rfl hw₂)), State.set_proc .., ?_⟩
  rw [State.set_other, State.set_proc]
  rfl

/-- A turn passes on to a process that has tested its flag, and is lost. -/
theorem reach_lose {who : Who} {l : List Char} {rest after' : List Stmt} {mask mask' : Sig → Bool} {s : State}
    (hs : s.proc who = .untold (speak l rest) .next mask)
    (ho : s.proc who.other = .untold after' .suspend mask') (hopen : mask' who.other.told = false) :
    ∃ t, Reach (restrict calm (step oldmask)) s t ∧ t.proc who = .untold rest .next mask ∧
      t.proc who.other = ⟨after', .asleep, mask', fun _ => false, 1⟩ := by
  obtain ⟨t₁, hreach₁, hw₁, ho₁⟩ := reach_speak oldmask rfl l s hs ho
  have hreach₂ := reach_lost oldmask (Function.update_self ..) hopen ho₁
  rw [update_back] at hreach₂
  refine ⟨_, hreach₁.trans hreach₂, ?_, State.set_proc ..⟩
  have hother := State.set_other t₁ who.other ⟨after', .asleep, mask', fun _ => false, 1⟩
  rw [Who.other_other] at hother
  rw [hother, hw₁]

/-- A process without a turn sleeps or ends. -/
theorem reach_rest {line : Who → List Char} {who : Who} {k : Nat} {mask : Sig → Bool} {s : State}
    (hs : s.proc who = .untold (rest line who k) .next mask) :
    ∃ script pc, Reach (restrict calm (step oldmask)) s (s.set who (.untold script pc mask)) ∧
      (pc = .asleep ∨ pc = .ended (.exit 0)) := by
  by_cases hcut : ∃ after, rest line who k = .wait :: after
  · obtain ⟨after, hcut⟩ := hcut
    exact ⟨after, .asleep, reach_then (reach_suspend oldmask hcut hs) rfl, .inl rfl⟩
  · have hnil : rest line who k = [] := by
      cases k with
      | zero =>
        cases who with
        | parent => exact absurd ⟨[], rfl⟩ hcut
        | child => rfl
      | succ k => exact absurd ⟨_, rfl⟩ hcut
    have hgo : (s.proc who).go oldmask true = some (.untold [] (.ended (.exit 0)) mask, none) := by
      rw [hs, hnil]
      rfl
    exact ⟨[], .ended (.exit 0), reach_go oldmask hgo, .inr rfl⟩

/-- A process that sleeps or has ended, with nothing pending, is stuck. -/
theorem untold_stuck {p : Proc} (hpc : p.pc = .asleep ∨ p.pc = .ended (.exit 0)) (hpending : p.pending = fun _ => false) :
    p.go oldmask true = none ∧ ∀ sig, p.deliver sig = none := by
  refine ⟨?_, fun sig => by simp [Proc.deliver, hpending]⟩
  rcases hpc with hpc | hpc
  · simp only [Proc.go, hpc]
  · simp only [Proc.go, hpc]

/-- A turn that is lost leaves one process asleep, and the other one comes to its next wait or to its end. -/
theorem reach_hanging {line : Who → List Char} {who : Who} {k : Nat} {l : List Char} {after' : List Stmt}
    {mask mask' : Sig → Bool} {s : State} (hs : s.proc who = .untold (speak l (rest line who k)) .next mask)
    (ho : s.proc who.other = .untold after' .suspend mask') (hopen : mask' who.other.told = false) :
    ∃ t, Reach (restrict calm (step oldmask)) s t ∧ (t.proc who.other).pc = .asleep ∧
      ∀ a, restrict calm (step oldmask) t a = none := by
  obtain ⟨t, hreach, hw, hlost⟩ := reach_lose oldmask hs ho hopen
  obtain ⟨script, pc, hrest, hpc⟩ := reach_rest oldmask hw
  refine ⟨_, hreach.trans hrest, by rw [State.set_other, hlost], stuck fun q => ?_⟩
  rcases who.eq_or_other q with rfl | rfl
  · rw [State.set_proc]
    exact untold_stuck oldmask hpc rfl
  · rw [State.set_other, hlost]
    exact untold_stuck oldmask (.inl rfl) rfl

theorem reach_asleep {who : Who} {script : List Stmt} {mask : Sig → Bool} {s : State}
    (hs : s.proc who = .untold script .suspend mask) :
    Reach (restrict calm (step oldmask)) s (s.set who (.untold script .asleep mask)) :=
  reach_go oldmask (e := none) (by rw [hs]; rfl)

/-- Two rounds or more, and a signal that the inherited mask lets through. -/
theorem rounds_hang (line : Who → List Char) (m : Nat) {sig : Sig} (hopen : oldmask sig = false) :
    ∃ t, Reach (restrict calm (step oldmask)) (.start oldmask (rounds line (m + 2))) t ∧
      (∀ a, restrict calm (step oldmask) t a = none) ∧ ∃ who, (t.proc who).pc = .asleep := by
  let mask₀ : Sig → Bool := fun sig => newmask sig || oldmask sig
  let s₀ := State.start oldmask (rounds line (m + 2))
  -- the child sleeps before the parent has spoken, and so does the parent before the child has
  have hwait₀ : s₀.proc .child = .untold (.wait :: speak (line .child) (rest line .child (m + 1))) .next mask₀ := rfl
  let s₁ := s₀.set .child (.untold (speak (line .child) (rest line .child (m + 1))) .asleep mask₀)
  have hreach₁ : Reach (restrict calm (step oldmask)) s₀ s₁ := reach_then (reach_suspend oldmask rfl hwait₀) rfl
  have hparent₁ : s₁.proc .parent
      = .untold (speak (line .parent) (.wait :: speak (line .parent) (rest line .parent m))) .next mask₀ := rfl
  obtain ⟨s₂, hreach₂, hparent₂, hchild₂⟩ := reach_turn oldmask hparent₁ (State.set_proc s₀ .child _)
  let s₃ := s₂.set .parent (.untold (speak (line .parent) (rest line .parent m)) .asleep mask₀)
  have hreach₃ : Reach (restrict calm (step oldmask)) s₂ s₃ := reach_asleep oldmask hparent₂
  have hchild₃ : s₃.proc .child
      = .untold (speak (line .child) (.wait :: speak (line .child) (rest line .child m))) .next oldmask :=
    (State.set_other s₂ .parent _).trans hchild₂
  obtain ⟨s₄, hreach₄, hchild₄, hparent₄⟩ := reach_turn oldmask hchild₃ (State.set_proc s₂ .parent _)
  have hround := hreach₁.trans (hreach₂.trans (hreach₃.trans hreach₄))
  cases sig with
  | sigusr1 =>
    -- the child has tested its flag when the parent tells it
    obtain ⟨t, hreach, hasleep, hstuck⟩ := reach_hanging oldmask hparent₄ hchild₄ hopen
    exact ⟨t, hround.trans hreach, hstuck, .child, hasleep⟩
  | sigusr2 =>
    obtain ⟨after, hafter⟩ : ∃ after, rest line .parent m = .wait :: after := rest_own line .parent m
    let s₅ := s₄.set .child (.untold (speak (line .child) (rest line .child m)) .asleep oldmask)
    have hreach₅ : Reach (restrict calm (step oldmask)) s₄ s₅ := reach_asleep oldmask hchild₄
    have hparent₅ : s₅.proc .parent = .untold (speak (line .parent) (.wait :: after)) .next oldmask := by
      rw [← hafter]
      exact (State.set_other s₄ .child _).trans hparent₄
    obtain ⟨s₆, hreach₆, hparent₆, hchild₆⟩ := reach_turn oldmask hparent₅ (State.set_proc s₄ .child _)
    obtain ⟨t, hreach, hasleep, hstuck⟩ := reach_hanging oldmask hchild₆ hparent₆ hopen
    exact ⟨t, hround.trans (hreach₅.trans (hreach₆.trans hreach)), hstuck, .parent, hasleep⟩

end Hanging

/-- All runs of the two from where they start come to the end of the last round. -/
theorem rounds_over (line : Who → List Char) {oldmask : Sig → Bool} {n : Nat}
    (hcond : n ≤ 1 ∨ ∀ sig, oldmask sig = true) :
    Inevitably (restrict calm (step oldmask)) (Over line n) (.start oldmask (rounds line n)) := by
  have hfew : ¬ (2 ≤ n ∧ ∃ sig, oldmask sig = false) := by
    rintro ⟨htwo, sig, hopen⟩
    rcases hcond with hone | hblocked
    · omega
    · rw [hblocked sig] at hopen
      cases hopen
  have hlive : ∀ s, InTurns line oldmask n s → ¬ Over line n s → ∃ a s', restrict calm (step oldmask) s a = some s' :=
    fun s hi hover => turn_live hi.1 hover
  refine inevitably_of_measure State.rank hlive (fun s a s' hi _ hs => .inr (turn_step hfew hi hs)) _
    ⟨turn_start _ rfl, fun who => ?_⟩
  have hmasked := Masked.start oldmask (rounds line n who) (fun _ => false) 0
  rw [count_rounds] at hmasked
  exact hmasked

/-- Else some run leaves a process asleep for ever. -/
theorem rounds_stuck (line : Who → List Char) {oldmask : Sig → Bool} {n : Nat}
    (hcond : ¬ (n ≤ 1 ∨ ∀ sig, oldmask sig = true)) :
    ∃ t, Reach (restrict calm (System.step oldmask (rounds line n))) (init oldmask) (.forked t) ∧
      (∀ a, restrict calm (System.step oldmask (rounds line n)) (.forked t) a = none) ∧
      ∃ who, (t.proc who).pc = .asleep := by
  obtain ⟨m, rfl⟩ : ∃ m, n = m + 2 := ⟨n - 2, by omega⟩
  obtain ⟨sig, hopen⟩ : ∃ sig, oldmask sig = false := by
    by_contra hnone
    exact hcond (.inr fun sig => by simpa using fun h => hnone ⟨sig, h⟩)
  obtain ⟨t, hreach, hstuck, hasleep⟩ := rounds_hang oldmask line m hopen
  refine ⟨t, (System.reach_init oldmask _).trans (System.reach_forked _ hreach), fun a => ?_, hasleep⟩
  rw [System.step_forked, hstuck]
  rfl

/-- **All runs of the two alone come to the end of the last round, with the lines in turn, exactly if there is one round at
most or the inherited mask blocks both signals**; else some run leaves a process asleep for ever. -/
theorem rounds_iff (line : Who → List Char) (oldmask : Sig → Bool) (n : Nat) :
    (Inevitably (restrict calm (System.step oldmask (rounds line n))) (System.Over line n) (init oldmask) ↔
      (n ≤ 1 ∨ ∀ sig, oldmask sig = true)) ∧
    (¬ (n ≤ 1 ∨ ∀ sig, oldmask sig = true) →
      ∃ t, Reach (restrict calm (System.step oldmask (rounds line n))) (init oldmask) (.forked t) ∧
        (∀ a, restrict calm (System.step oldmask (rounds line n)) (.forked t) a = none) ∧
        ∃ who, (t.proc who).pc = .asleep) := by
  refine ⟨⟨fun hall => ?_, fun hcond => ?_⟩, rounds_stuck line⟩
  · by_contra hcond
    obtain ⟨t, hreach, hstuck, who, hasleep⟩ := rounds_stuck line hcond
    have hend : ∀ sys, System.Over line n sys →
        ∀ a, restrict calm (System.step oldmask (rounds line n)) sys a = none := by
      intro sys hover a
      cases sys with
      | forked s =>
        rw [System.step_forked, over_stuck hover]
        rfl
      | setup p => cases hover
      | ended e => cases hover
    have hover : Over line n t := (hall.of_reach hend hreach).of_stuck hstuck
    cases (hover.1 who).symm.trans hasleep
  · exact System.inevitably_init ((rounds_over line hcond).embed System.forked
      (System.step_forked oldmask (rounds line n)) (fun s hover => hover))

end Tellwait
end Cc
