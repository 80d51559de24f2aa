import CCplusplus.TellwaitRounds
/-!
# Ch08Racecondition2 — `apue/ch08/ch08_racecondition2.c`, whose line comes first

The parent writes its line a character at a time and tells the child, which has waited for it before it writes its own.
The child comes after the parent in every run in which nobody else sends a signal too early: to the process in `TELL_WAIT`
before it blocks the two, where the inherited mask does not block that signal, or to the child before the parent's line
is whole.  Any such signal can cost the order (`racecondition2_order`), the first kind since `fork` gives the child the
`sigflag` that it has set.
-/
namespace Cc
namespace Ch08Racecondition2

open CLib Tellwait

def parentLine : List Char := "output from parent\n".toList
def childLine : List Char := "output from child\n".toList

/-- `charatatime` -/
def charatatime (str : List Char) : List Stmt := str.map .put

def script : Who → List Stmt
  | .parent => charatatime parentLine ++ [.tell]
  | .child => .wait :: charatatime childLine

/-- The parent has no character left to write. -/
def whole (s : State) : Bool := (s.proc .parent).script.all (fun stmt => decide (stmt = .tell))

/-- No signal of others comes before the set-up has blocked it, nor to the child before the parent's line is whole. -/
def patient (oldmask : Sig → Bool) : System → Act → Bool
  | .setup p, .signal _ sig => oldmask sig || decide (p.pc = .fork)
  | .forked s, .signal .child _ => whole s
  | _, _ => true

/-- What is printed is the parent's line and then the child's, as far as they have come. -/
def Ordered (sys : System) : Prop :=
  ∃ l m : List Char, sys.printed = l.map (Prod.mk .parent) ++ m.map (Prod.mk .child) ∧ (m ≠ [] → l = parentLine)

/-- Where the parent is still at its line, the child has not been told. -/
structure Speaking (s : State) (l l' : List Char) : Prop where
  line : parentLine = l ++ l'
  pc : (s.proc .parent).pc = .next
  script : (s.proc .parent).script = charatatime l' ++ [.tell]
  child : Idle (s.proc .child) (charatatime childLine)
  printed : s.printed = l.map (Prod.mk .parent)

/-- The parent's line is whole. -/
structure Spoken (s : State) (m m' : List Char) : Prop where
  parent : ∀ stmt ∈ (s.proc .parent).script, stmt = .tell
  line : childLine = m ++ m'
  child : (s.proc .child).script = .wait :: charatatime m' ∨ (s.proc .child).script = charatatime m'
  printed : s.printed = parentLine.map (Prod.mk .parent) ++ m.map (Prod.mk .child)

def Inv (s : State) : Prop := (∃ l l', Speaking s l l') ∨ ∃ m m', Spoken s m m'

/-- The child that a process leaves whose flag is not set. -/
theorem inv_forked {p : Setup} (hflag : p.sigflag = 0) : Inv (p.forked script) :=
  .inl ⟨[], parentLine, rfl, rfl, rfl, ⟨⟨hflag, fun _ => rfl⟩, .inl ⟨rfl, rfl⟩⟩, rfl⟩

theorem Inv.ordered {s : State} : Inv s → Ordered (.forked s)
  | .inl ⟨l, _, h⟩ => ⟨l, [], h.printed.trans (List.append_nil _).symm, fun hne => absurd rfl hne⟩
  | .inr ⟨m, _, h⟩ => ⟨parentLine, m, h.printed, fun _ => rfl⟩

theorem Speaking.whole {s : State} {l l' : List Char} (h : Speaking s l l') : whole s = true ↔ l' = [] := by
  unfold Ch08Racecondition2.whole
  rw [h.script]
  cases l' with
  | nil => simp [charatatime]
  | cons c l' => simp [charatatime]

/-- A line that is whole, with the child still waiting. -/
theorem Speaking.spoken {s : State} {l : List Char} (h : Speaking s l []) : Spoken s [] childLine where
  parent := fun stmt hstmt => by
    rw [h.script] at hstmt
    exact List.mem_singleton.1 hstmt
  line := rfl
  child := h.child.place.imp (fun hat => hat.2) (fun hat => hat.2)
  printed := by rw [h.printed, h.line]; simp

/-- What a statement does to the script. -/
theorem go_script {oldmask : Sig → Bool} {p p' : Proc} {success : Bool} {e : Option Stmt}
    (hgo : p.go oldmask success = some (p', e)) :
    p'.script = p.script ∧ e = none ∨ p.script = .wait :: p'.script ∧ e = none ∨
      ∃ stmt, stmt ≠ .wait ∧ p.script = stmt :: p'.script ∧ e = some stmt := by
  unfold Proc.go at hgo
  split at hgo
  · split at hgo
    · cases hgo
      exact .inl ⟨rfl, rfl⟩
    · rename_i c rest hscript
      cases hgo
      exact .inr (.inr ⟨.put c, nofun, hscript, rfl⟩)
    · rename_i rest hscript
      cases hgo
      exact .inr (.inr ⟨.tell, nofun, hscript, rfl⟩)
    · rename_i rest hscript
      cases hgo
      exact .inr (.inl ⟨hscript, rfl⟩)
  · cases hgo
    exact .inl ⟨rfl, rfl⟩
  · cases hgo
    exact .inl ⟨rfl, rfl⟩
  · cases hgo
  · cases hgo
    exact .inl ⟨rfl, rfl⟩
  · split at hgo <;> cases hgo <;> exact .inl ⟨rfl, rfl⟩
  · cases hgo

theorem deliver_script {p p' : Proc} {sig : Sig} (hd : p.deliver sig = some p') : p'.script = p.script := by
  unfold Proc.deliver at hd
  split at hd
  · cases hd
    rfl
  · cases hd

theorem arrive_script (p : Proc) (sig : Sig) : (p.arrive sig).script = p.script := by
  unfold Proc.arrive
  split <;> rfl

/-- Nothing is written, and the scripts are as they were. -/
theorem Spoken.same {s s' : State} {m m' : List Char} (h : Spoken s m m')
    (hscript : ∀ who, (s'.proc who).script = (s.proc who).script) (hprinted : s'.printed = s.printed) : Spoken s' m m' where
  parent := by
    rw [hscript]
    exact h.parent
  line := h.line
  child := by
    rw [hscript]
    exact h.child
  printed := hprinted.trans h.printed

theorem emit_script (s : State) (who : Who) (e : Option Stmt) :
    ((s.emit who e).proc who.other).script = (s.proc who.other).script := by
  rw [State.emit_other]
  split
  · exact arrive_script _ _
  · rfl

theorem Spoken.go {oldmask : Sig → Bool} {s : State} {m m' : List Char} {who : Who} {success : Bool} {p : Proc}
    {e : Option Stmt} (h : Spoken s m m') (hgo : (s.proc who).go oldmask success = some (p, e)) :
    ∃ m m', Spoken ((s.set who p).emit who e) m m' := by
  have hown : (((s.set who p).emit who e).proc who).script = p.script := by rw [State.emit_proc, State.set_proc]
  have hother : (((s.set who p).emit who e).proc who.other).script = (s.proc who.other).script := by
    rw [emit_script, State.set_other]
  have hprinted := State.emit_printed (s.set who p) who e
  rw [State.set_printed] at hprinted
  cases who with
  | parent =>
    refine ⟨m, m', fun stmt hstmt => ?_, h.line, hother ▸ h.child, ?_⟩
    · rw [hown] at hstmt
      rcases go_script hgo with ⟨hsame, -⟩ | ⟨hcut, -⟩ | ⟨_, -, hcut, -⟩
      · exact h.parent stmt (hsame ▸ hstmt)
      · exact h.parent stmt (hcut ▸ List.mem_cons_of_mem _ hstmt)
      · exact h.parent stmt (hcut ▸ List.mem_cons_of_mem _ hstmt)
    · rw [hprinted, h.printed]
      rcases go_script hgo with ⟨-, rfl⟩ | ⟨-, rfl⟩ | ⟨stmt, -, hcut, rfl⟩
      · exact List.append_nil _
      · exact List.append_nil _
      · obtain rfl := h.parent stmt (hcut ▸ List.mem_cons_self)
        exact List.append_nil _
  | child =>
    have hparent : ∀ stmt ∈ (((s.set .child p).emit .child e).proc .parent).script, stmt = .tell := by
      intro stmt hstmt
      exact h.parent stmt (hother ▸ hstmt)
    rcases go_script hgo with ⟨hsame, rfl⟩ | ⟨hcut, rfl⟩ | ⟨stmt, hne, hcut, rfl⟩
    · exact ⟨m, m', hparent, h.line, by rw [hown, hsame]; exact h.child, by rw [hprinted, h.printed]; exact List.append_nil _⟩
    · refine ⟨m, m', hparent, h.line, .inr ?_, by rw [hprinted, h.printed]; exact List.append_nil _⟩
      rw [hown]
      rcases h.child with hscript | hscript
      · exact (List.cons.inj (hcut.symm.trans hscript)).2
      · cases m' with
        | nil => cases hcut.symm.trans hscript
        | cons c m' => cases hcut.symm.trans hscript
    · rcases h.child with hscript | hscript
      · exact absurd (List.cons.inj (hcut.symm.trans hscript)).1 hne
      · cases m' with
        | nil => cases hcut.symm.trans hscript
        | cons c m' =>
          obtain ⟨rfl, hrest⟩ := List.cons.inj (hcut.symm.trans hscript)
          refine ⟨m ++ [c], m', hparent, ?_, .inr (hown.trans hrest), ?_⟩
          · rw [h.line, List.append_assoc]
            rfl
          · rw [hprinted, h.printed, List.map_append, List.append_assoc]
            rfl

theorem spoken_step {oldmask : Sig → Bool} {s s' : State} {a : Act} {m m' : List Char} (h : Spoken s m m')
    (hs : step oldmask s a = some s') : ∃ m m', Spoken s' m m' := by
  cases a with
  | go who success =>
    obtain ⟨⟨p, e⟩, hp, rfl⟩ := Option.map_eq_some_iff.1 hs
    exact h.go hp
  | deliver who sig =>
    obtain ⟨p, hp, rfl⟩ := Option.map_eq_some_iff.1 hs
    refine ⟨m, m', h.same (fun q => ?_) rfl⟩
    rcases who.eq_or_other q with rfl | rfl
    · rw [State.set_proc, deliver_script hp]
    · rw [State.set_other]
  | signal who sig =>
    cases hs
    refine ⟨m, m', h.same (fun q => ?_) rfl⟩
    rcases who.eq_or_other q with rfl | rfl
    · rw [State.set_proc, arrive_script]
    · rw [State.set_other]

theorem go_success {oldmask : Sig → Bool} {p : Proc} (hpc : p.pc ≠ .restore) (success : Bool) :
    p.go oldmask success = p.go oldmask true := by
  unfold Proc.go
  split
  · rfl
  · rfl
  · rfl
  · rfl
  · rfl
  · rename_i hrestore
    exact absurd hrestore hpc
  · rfl

/-- A signal to the parent changes nothing that matters. -/
theorem Speaking.parent {s : State} {l l' : List Char} {p : Proc} (h : Speaking s l l')
    (hpc : p.pc = (s.proc .parent).pc) (hscript : p.script = (s.proc .parent).script) :
    Speaking (s.set .parent p) l l' where
  line := h.line
  pc := by
    rw [State.set_proc, hpc]
    exact h.pc
  script := by
    rw [State.set_proc, hscript]
    exact h.script
  child := h.child
  printed := h.printed

theorem speaking_step {oldmask : Sig → Bool} {s s' : State} {a : Act} {l l' : List Char} (h : Speaking s l l')
    (hok : patient oldmask (.forked s) a = true) (hs : step oldmask s a = some s') : Inv s' := by
  cases a with
  | go who success =>
    obtain ⟨⟨p, e⟩, hp, rfl⟩ := Option.map_eq_some_iff.1 hs
    cases who with
    | parent =>
      cases l' with
      | nil => exact .inr (h.spoken.go hp)
      | cons c l' =>
        rw [Proc.go, h.pc] at hp
        simp only [h.script, charatatime, List.map_cons, List.cons_append] at hp
        cases hp
        refine .inl ⟨l ++ [c], l', by rw [h.line, List.append_assoc]; rfl, ?_, ?_, h.child, ?_⟩
        · rw [State.emit_proc, State.set_proc]
        · rw [State.emit_proc, State.set_proc]
          rfl
        · rw [State.emit_printed, State.set_printed, h.printed, List.map_append]
          rfl
    | child =>
      have hpc : (s.proc .child).pc ≠ .restore := by
        rcases h.child.place with ⟨hpc, -⟩ | ⟨hpc | hpc | hpc, -⟩ <;> simp [hpc]
      rw [go_success hpc] at hp
      obtain ⟨rfl, hidle⟩ := h.child.go hp
      exact .inl ⟨l, l', h.line, h.pc, h.script, by rwa [State.emit_proc, State.set_proc], h.printed⟩
  | deliver who sig =>
    obtain ⟨p, hp, rfl⟩ := Option.map_eq_some_iff.1 hs
    cases who with
    | parent =>
      refine .inl ⟨l, l', h.parent ?_ (deliver_script hp)⟩
      unfold Proc.deliver at hp
      split at hp
      · cases hp
        exact if_neg (by rw [h.pc]; decide)
      · cases hp
    | child => cases hp.symm.trans (h.child.toQuiet.deliver sig)
  | signal who sig =>
    cases who with
    | parent =>
      cases hs
      refine .inl ⟨l, l', h.parent ?_ (arrive_script _ sig)⟩
      unfold Proc.arrive
      split <;> rfl
    | child =>
      obtain rfl := h.whole.1 hok
      exact .inr (spoken_step h.spoken hs)

/-- Before `fork` no signal has been caught, and none can be. -/
def Held (oldmask : Sig → Bool) : System → Prop
  | .setup p => p.Sound oldmask ∧ p.sigflag = 0 ∧ ∀ sig, p.pending sig = true → p.mask sig = true
  | .forked s => Inv s
  | .ended _ => True

theorem Held.ordered {oldmask : Sig → Bool} {sys : System} (h : Held oldmask sys) : Ordered sys := by
  cases sys with
  | setup p => exact ⟨[], [], rfl, fun hne => absurd rfl hne⟩
  | forked s => exact Inv.ordered h
  | ended e => exact ⟨[], [], rfl, fun hne => absurd rfl hne⟩

theorem held_setup {oldmask : Sig → Bool} {p : Setup} {sys : System} {a : Act} (h : Held oldmask (.setup p))
    (hok : patient oldmask (.setup p) a = true) (hs : System.step oldmask script (.setup p) a = some sys) :
    Held oldmask sys := by
  obtain ⟨hsound, hflag, hblocked⟩ := h
  rcases System.step_setup hs with ⟨success, -, rfl⟩ | ⟨sig, -, hsig, hopen, -⟩ | ⟨sig, rfl, rfl⟩
  · rcases hsound.go script success with ⟨e, hgo⟩ | ⟨p', hgo, hsound', hpending, hflag', hmask⟩ | ⟨-, hgo⟩
    · rw [hgo]
      exact trivial
    · rw [hgo]
      refine ⟨hsound', hflag'.trans hflag, fun sig hsig => hmask sig (hblocked sig ?_)⟩
      rwa [hpending] at hsig
    · rw [hgo]
      exact inv_forked hflag
  · cases (hblocked sig hsig).symm.trans hopen
  · refine ⟨hsound.same rfl rfl rfl, hflag, fun x hx => ?_⟩
    by_cases hsig : x = sig
    · rw [hsig]
      have hmask := congrFun hsound.mask sig
      rcases Bool.or_eq_true_iff.1 hok with hold | hfork
      · exact hmask.trans (by split <;> simp [hold])
      · exact hmask.trans (by rw [if_pos (of_decide_eq_true hfork)]; rfl)
    · have hold : Function.update p.pending sig true x = true := hx
      rw [Function.update_of_ne hsig] at hold
      exact hblocked x hold

/-! ## A signal that comes too early -/

/-- A child that waits and has been sent a signal comes to its line. -/
theorem reach_line (oldmask : Sig → Bool) {s : State} {sig : Sig} {after : List Stmt} {pc : Pc} {script : List Stmt}
    {mask pending : Sig → Bool} (hs : s.proc .child = ⟨script, pc, mask, pending, 0⟩) (hpending : pending sig = true)
    (hat : pc = .next ∧ script = .wait :: after ∨ (pc = .test ∨ pc = .suspend ∨ pc = .asleep) ∧ script = after) :
    ∃ pending', Reach (restrict calm (step oldmask)) s (s.set .child ⟨after, .next, oldmask, pending', 0⟩) := by
  have hasleep : Reach (restrict calm (step oldmask)) s (s.set .child ⟨after, .asleep, mask, pending, 0⟩) := by
    rcases hat with ⟨rfl, rfl⟩ | ⟨rfl | rfl | rfl, rfl⟩
    · exact reach_then (reach_suspend oldmask rfl hs) rfl
    · have hsuspend : Reach (restrict calm (step oldmask)) s (s.set .child ⟨script, .suspend, mask, pending, 0⟩) :=
        reach_go oldmask (e := none) (by rw [hs]; rfl)
      exact reach_then hsuspend rfl
    · exact reach_go oldmask (e := none) (by rw [hs]; rfl)
    · have hself : s.set .child ⟨script, .asleep, mask, pending, 0⟩ = s := by
        rw [← hs]
        simp [State.set]
      rw [hself]
      exact .refl s
  refine ⟨Function.update pending sig false, ?_⟩
  have hwoken := reach_woken oldmask (s := s.set .child ⟨after, .asleep, mask, pending, 0⟩) hpending
    (State.set_proc s .child _)
  rw [State.set_set] at hwoken
  exact hasleep.trans hwoken

/-- A character of the child after a part of the parent's line only. -/
theorem not_ordered {s : State} {l l' : List Char} {c d : Char} (hline : parentLine = l ++ c :: l')
    (hprinted : s.printed = l.map (Prod.mk .parent) ++ [(.child, d)]) : ¬ Ordered (.forked s) := by
  rintro ⟨k, m, hk, hfirst⟩
  replace hk := hprinted.symm.trans hk
  have hm : m ≠ [] := by
    rintro rfl
    have hmem : (Who.child, d) ∈ k.map (Prod.mk Who.parent) := by
      rw [List.map_nil, List.append_nil] at hk
      rw [← hk]
      simp
    simp at hmem
  have hlength := congrArg List.length hk
  have hlong := congrArg List.length hline
  have hsome := List.length_pos_iff.2 hm
  rw [hfirst hm] at hlength
  simp only [List.length_append, List.length_map, List.length_cons, List.length_nil] at hlength hlong
  omega

/-- A child that comes to its line before the parent's is whole writes into it. -/
theorem reach_mixed (oldmask : Sig → Bool) {s : State} {l l' : List Char} {c : Char} {mask pending : Sig → Bool}
    (hchild : s.proc .child = ⟨charatatime childLine, .next, mask, pending, 0⟩) (hline : parentLine = l ++ c :: l')
    (hprinted : s.printed = l.map (Prod.mk .parent)) :
    ∃ t, Reach (restrict calm (step oldmask)) s t ∧ ¬ Ordered (.forked t) := by
  have hput : (s.proc .child).go oldmask true
      = some (⟨charatatime childLine.tail, .next, mask, pending, 0⟩, some (.put 'o')) := by
    rw [hchild]
    rfl
  refine ⟨_, reach_go oldmask hput, not_ordered (d := 'o') hline ?_⟩
  rw [State.emit_printed, State.set_printed, hprinted]
  rfl

theorem early_doomed {oldmask : Sig → Bool} {s s' : State} {a : Act} (h : Inv s) (hs : step oldmask s a = some s')
    (hok : patient oldmask (.forked s) a = false) :
    ∃ t, Reach (restrict calm (step oldmask)) s' t ∧ ¬ Ordered (.forked t) := by
  cases a with
  | go who success => cases hok
  | deliver who sig => cases hok
  | signal who sig =>
    cases who with
    | parent => cases hok
    | child =>
      cases hs
      have hnot : whole s = false := hok
      obtain ⟨l, l', hspeaking⟩ : ∃ l l', Speaking s l l' := by
        refine h.resolve_right ?_
        rintro ⟨m, m', hspoken⟩
        have hwhole : whole s = true := List.all_eq_true.2 fun stmt hstmt => decide_eq_true (hspoken.parent stmt hstmt)
        rw [hwhole] at hnot
        cases hnot
      cases l' with
      | nil =>
        rw [hspeaking.whole.2 rfl] at hnot
        cases hnot
      | cons c l' =>
        have hidle := hspeaking.child
        have halive : (s.proc .child).pc.alive = true := by
          rcases hidle.place with ⟨hpc, -⟩ | ⟨hpc | hpc | hpc, -⟩ <;> rw [hpc] <;> rfl
        have harrive : (s.proc .child).arrive sig = ⟨(s.proc .child).script, (s.proc .child).pc, (s.proc .child).mask,
            Function.update (s.proc .child).pending sig true, 0⟩ := by
          unfold Proc.arrive
          rw [if_pos halive, hidle.flag]
        rw [harrive]
        obtain ⟨pending, hreach⟩ := reach_line oldmask (State.set_proc s .child _) (Function.update_self ..)
          hidle.place
        rw [State.set_set] at hreach
        obtain ⟨t, hmixed, hnot⟩ := reach_mixed oldmask (State.set_proc s .child _) hspeaking.line hspeaking.printed
        exact ⟨t, hreach.trans hmixed, hnot⟩

/-- The set-up goes on to where both handlers are there. -/
theorem reach_block {oldmask : Sig → Bool} {p : Setup} (h : p.Sound oldmask) (hpc : p.pc ≠ .fork) :
    ∃ handled, (∀ sig, handled sig = true) ∧
      Reach (System.step oldmask script) (.setup p) (.setup ⟨.block, handled, p.mask, p.pending, p.sigflag⟩) := by
  have hgo := fun p => (System.reach_setup oldmask script p).of_restrict
  obtain ⟨pc, handled, mask, pending, sigflag⟩ := p
  cases pc with
  | sigusr1 =>
    refine ⟨Function.update (Function.update handled .sigusr1 true) .sigusr2 true, fun sig => ?_, (hgo _).trans (hgo _)⟩
    cases sig <;> simp [Function.update]
  | sigusr2 =>
    refine ⟨Function.update handled .sigusr2 true, fun sig => ?_, hgo _⟩
    have hfirst : handled .sigusr1 = true := h.first (fun hpc => by cases hpc)
    cases sig <;> simp [Function.update, hfirst]
  | block =>
    refine ⟨handled, fun sig => ?_, .refl _⟩
    cases sig with
    | sigusr1 => exact h.first (fun hpc => by cases hpc)
    | sigusr2 => exact h.second (.inl rfl)
  | fork => exact absurd rfl hpc

/-- A child whose flag `fork` has set does not wait. -/
theorem reach_unwaited (oldmask : Sig → Bool) {s : State} {after : List Stmt} {mask pending : Sig → Bool}
    (hs : s.proc .child = ⟨.wait :: after, .next, mask, pending, 1⟩) :
    Reach (restrict calm (step oldmask)) s (s.set .child ⟨after, .next, oldmask, pending, 0⟩) := by
  have htest : Reach (restrict calm (step oldmask)) s (s.set .child ⟨after, .test, mask, pending, 1⟩) :=
    reach_go oldmask (e := none) (by rw [hs]; rfl)
  exact reach_then (reach_then (reach_then htest rfl) rfl) rfl

/-- A signal that the set-up does not block yet is caught before `fork`. -/
theorem setup_doomed {oldmask : Sig → Bool} {p : Setup} {sig : Sig} (h : p.Sound oldmask) (hpc : p.pc ≠ .fork)
    (hsig : oldmask sig = false) :
    ∃ sys, Reach (System.step oldmask script) (.setup (p.arrive sig)) sys ∧ ¬ Ordered sys := by
  have hgo := fun p => (System.reach_setup oldmask script p).of_restrict
  obtain ⟨handled, hall, hblock⟩ := reach_block (p := p.arrive sig) (h.same rfl rfl rfl) hpc
  have hmask : p.mask = oldmask := by
    rw [h.mask, if_neg hpc]
  let caught : Setup := ⟨.block, handled, p.mask, Function.update (p.arrive sig).pending sig false, 1⟩
  have hcaught : Reach (System.step oldmask script) (.setup (p.arrive sig)) (.setup caught) := by
    refine hblock.trans (Reach.of_step (a := .deliver .parent sig) ?_)
    simp [System.step, Setup.deliver, Setup.arrive, hmask, hsig, hall, caught]
  let s : State := Setup.forked { caught with mask := fun sig => newmask sig || p.mask sig, pc := .fork } script
  have hforked : Reach (System.step oldmask script) (.setup caught) (.forked s) := (hgo caught).trans (hgo _)
  have hline : Reach (restrict calm (step oldmask)) s
      (s.set .child ⟨charatatime childLine, .next, oldmask, fun _ => false, 0⟩) := reach_unwaited oldmask rfl
  have hnone : parentLine = [] ++ 'o' :: parentLine.tail := rfl
  obtain ⟨t, hmixed, hnot⟩ := reach_mixed oldmask (State.set_proc s .child _) hnone rfl
  exact ⟨.forked t, hcaught.trans (hforked.trans (System.reach_forked script (hline.trans hmixed)).of_restrict), hnot⟩

/-- **The child's line comes after the parent's as long as nobody else sends a signal before the set-up has blocked it, nor
the child one before the parent's line is whole; after one that comes before, some run mixes the two.** -/
theorem racecondition2_order (oldmask : Sig → Bool) :
    Exact (patient oldmask) (System.step oldmask script) Ordered (init oldmask) := by
  refine exact_of_inv (Held oldmask) ⟨.start oldmask, rfl, fun _ h => by cases h⟩ (fun sys a sys' hi hok hs => ?_)
    (fun sys hi => hi.ordered) (fun sys a sys' hi hs hok => ?_)
  · cases sys with
    | setup p => exact held_setup hi hok hs
    | forked s =>
      obtain ⟨s', hs', rfl⟩ := Option.map_eq_some_iff.1 hs
      rcases hi with ⟨l, l', hspeaking⟩ | ⟨m, m', hspoken⟩
      · exact speaking_step hspeaking hok hs'
      · exact .inr (spoken_step hspoken hs')
    | ended e => cases hs
  · cases sys with
    | setup p =>
      rcases System.step_setup hs with ⟨success, rfl, -⟩ | ⟨sig, rfl, -⟩ | ⟨sig, rfl, rfl⟩
      · cases hok
      · cases hok
      · obtain ⟨hsig, hpc⟩ := Bool.or_eq_false_iff.1 hok
        exact setup_doomed hi.1 (of_decide_eq_false hpc) hsig
    | forked s =>
      obtain ⟨s', hs', rfl⟩ := Option.map_eq_some_iff.1 hs
      obtain ⟨t, hreach, hnot⟩ := early_doomed hi hs' hok
      exact ⟨.forked t, (System.reach_forked script hreach).of_restrict, hnot⟩
    | ended e => cases hs

end Ch08Racecondition2
end Cc
