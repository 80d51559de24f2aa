import CCplusplus.Popen
import CCplusplus.Lib.Machine
/-!
# PopenRuns — sequences of `popen` and `pclose`

The children of a run are numbered in the order they are forked; the stream that `popen` returns for child `n` is
`popened n`.  `fork` gives a child a pid that no child not yet waited for has, `pipe` gives descriptors that were not
open, and the program has other streams on descriptors of their own.  In every state `childpid` records exactly the
children of the streams not yet given to `pclose` (`Inv`).
-/
namespace Cc
namespace Popen

open CLib

inductive Handle where
  | popened (n : Nat)
  | foreign (k : Nat)
deriving DecidableEq, Repr

structure State where
  proc : Process
  /-- the descriptor of each stream that is open -/
  streams : Handle → Option Nat
  forks : Nat
  pidOf : Nat → Nat
  unreaped : Nat → Bool
  /-- the streams given to `pclose` with the child that was waited for, latest first -/
  waits : List (Handle × Nat)

inductive Action where
  | popen (type : Nat → UInt8) (env : Outcomes)
  | pclose (h : Handle) (closed : FcloseOutcome) (waits : List WaitOutcome)
  | fopen (k fd : Nat)
  | fclose (k : Nat)

/-- What the kernel promises of one call of `popen`: new descriptors, and a pid of no child not yet waited for. -/
def promised (s : State) (env : Outcomes) : Bool :=
  (match env.pipe with
    | .ends _ pfd0 pfd1 => (s.proc.fds pfd0).isNone && (s.proc.fds pfd1).isNone && decide (pfd0 ≠ pfd1)
    | _ => true) &&
  (match env.fork with
    | .ok pid => decide (0 < pid) && (List.range s.forks).all (fun n => !(s.unreaped n && s.pidOf n == pid))
    | .error _ => true)

/-- A child that is forked takes the next number. -/
def forked (s : State) (pid : Nat) (result : Result) : State :=
  { s with
    forks := s.forks + 1
    pidOf := Function.update s.pidOf s.forks pid
    unreaped := Function.update s.unreaped s.forks true
    streams := match result with
      | .stream fd => Function.update s.streams (.popened s.forks) (some fd)
      | .null _ => s.streams }

/-- `waitpid(pid)` reaps a child with that pid. -/
def waitable (s : State) (r : Pclosed) : Bool :=
  match r.reaped with
  | none => true
  | some c => s.unreaped c && r.asked == some (s.pidOf c)

def closed (s : State) (h : Handle) (r : Pclosed) : State :=
  { s with
    proc := r.proc
    streams := if r.fclosed then Function.update s.streams h none else s.streams
    unreaped := match r.reaped with
      | some c => Function.update s.unreaped c false
      | none => s.unreaped
    waits := match r.reaped with
      | some c => (h, c) :: s.waits
      | none => s.waits }

def step (s : State) : Action → Option State
  | .popen type env =>
    if promised s env then
      let x := popen type env s.proc
      match x.child, env.fork with
      | some _, .ok pid => some (forked { s with proc := x.parent } pid x.result)
      | _, _ => some { s with proc := x.parent }
    else none
  | .pclose h how waits => do
    let fd ← s.streams h
    match pclose s.proc fd how waits with
    | .ok (some r) => if waitable s r then some (closed s h r) else none
    | _ => none
  | .fopen k fd =>
    if (s.proc.fds fd).isNone ∧ (s.streams (.foreign k)).isNone then
      some { s with
        proc := { s.proc with fds := Function.update s.proc.fds fd (some (.file k)) }
        streams := Function.update s.streams (.foreign k) (some fd) }
    else none
  | .fclose k => do
    let fd ← s.streams (.foreign k)
    some { s with
      proc := { s.proc with fds := close s.proc.fds fd }
      streams := Function.update s.streams (.foreign k) none }

/-- `childpid[fd]` -/
def recorded (p : Process) (fd : Nat) : Nat :=
  match p.childpid with
  | none => 0
  | some childpid => childpid fd

/-! ## What one call does -/

/-- Descriptors that were open are as they were. -/
def Keeps (p p' : Process) : Prop := ∀ fd, p.fds fd ≠ none → p'.fds fd = p.fds fd

/-- A call of `popen` that records no child. -/
structure Unrecorded (p p' : Process) : Prop where
  keeps : Keeps p p'
  table : ∀ fd, recorded p' fd = recorded p fd
  bound : p.childpid ≠ none → p'.maxfd = p.maxfd

/-- A call of `popen` that returns a stream on a new descriptor and records its child there. -/
structure Recorded (p p' : Process) (fd pid : Nat) : Prop where
  keeps : Keeps p p'
  free : p.fds fd = none
  opened : p'.fds fd ≠ none
  table : recorded p' = Function.update (recorded p) fd pid
  below : fd < p'.maxfd
  bound : p.childpid ≠ none → p'.maxfd = p.maxfd

theorem allocated_unrecorded (env : Outcomes) (p : Process) :
    (allocated env p).fds = p.fds ∧ recorded (allocated env p) = recorded p ∧
      (p.childpid ≠ none → (allocated env p).maxfd = p.maxfd) := by
  unfold allocated recorded
  cases h : p.childpid with
  | some childpid => exact ⟨rfl, by rw [h], fun _ => rfl⟩
  | none =>
    refine ⟨rfl, ?_, fun hn => absurd rfl hn⟩
    cases env.callocFails with
    | true => rfl
    | false => rfl

/-- Descriptors other than the two of a pipe. -/
def OffPipe (pfd0 pfd1 : Nat) (fds fds' : Fds) : Prop := ∀ fd, fd ≠ pfd0 → fd ≠ pfd1 → fds' fd = fds fd

theorem OffPipe.openPipe (fds : Fds) (pipe pfd0 pfd1 : Nat) : OffPipe pfd0 pfd1 fds (openPipe fds pipe pfd0 pfd1) :=
  fun _ hn0 hn1 => (Function.update_of_ne hn1 _ _).trans (Function.update_of_ne hn0 _ _)

theorem OffPipe.close {pfd0 pfd1 fd' : Nat} {fds fds' : Fds} (h : OffPipe pfd0 pfd1 fds fds')
    (hor : fd' = pfd0 ∨ fd' = pfd1) : OffPipe pfd0 pfd1 fds (close fds' fd') := by
  intro fd hn0 hn1
  refine (Function.update_of_ne ?_ _ _).trans (h fd hn0 hn1)
  rintro rfl
  rcases hor with rfl | rfl
  · exact hn0 rfl
  · exact hn1 rfl

/-- New descriptors are none of those that were open. -/
theorem OffPipe.keeps {pfd0 pfd1 : Nat} {p : Process} {fds : Fds} (h : OffPipe pfd0 pfd1 p.fds fds)
    (h0 : p.fds pfd0 = none) (h1 : p.fds pfd1 = none) (fd : Nat) (hfd : p.fds fd ≠ none) : fds fd = p.fds fd := by
  refine h fd ?_ ?_
  · rintro rfl
    exact hfd h0
  · rintro rfl
    exact hfd h1

/-- What a call of `popen` comes to: no child, or one that is recorded exactly if a stream is returned. -/
def PopenDoes (env : Outcomes) (p : Process) (x : Popened) : Prop :=
  (x.child = none ∧ (∃ e, x.result = .null e) ∧ Unrecorded p x.parent) ∨
  ∃ pid, env.fork = .ok pid ∧ x.child ≠ none ∧
    (((∃ e, x.result = .null e) ∧ Unrecorded p x.parent) ∨
      ∃ fd, x.result = .stream fd ∧ Recorded p x.parent fd pid)

theorem piped_does {type : Nat → UInt8} (hread : type 0 = 114) {env : Outcomes} {p q : Process}
    {childpid : Nat → Nat} {pipe pfd0 pfd1 : Nat} (h0 : p.fds pfd0 = none) (h1 : p.fds pfd1 = none) (hne : pfd0 ≠ pfd1)
    (hfds : q.fds = openPipe p.fds pipe pfd0 pfd1) (hq : q.childpid = some childpid) (htable : recorded q = recorded p)
    (hbound : p.childpid ≠ none → q.maxfd = p.maxfd) (closes : Nat × Nat → Nat) :
    PopenDoes env p (piped closes type env childpid pfd0 pfd1 q) := by
  have hopen := OffPipe.openPipe p.fds pipe pfd0 pfd1
  rw [← hfds] at hopen
  unfold piped
  by_cases hlarge : pfd0 ≥ q.maxfd ∨ pfd1 ≥ q.maxfd
  · rw [if_pos hlarge]
    exact .inl ⟨rfl, ⟨_, rfl⟩, ((hopen.close (.inl rfl)).close (.inr rfl)).keeps h0 h1, fun fd => congrFun htable fd,
      hbound⟩
  rw [if_neg hlarge]
  cases hf : env.fork with
  | error e => exact .inl ⟨rfl, ⟨_, rfl⟩, hopen.keeps h0 h1, fun fd => congrFun htable fd, hbound⟩
  | ok pid =>
    refine .inr ⟨pid, hf, ?_⟩
    simp only [hread, if_true]
    cases hd : fdopen env.fdopen (close q.fds pfd1) pfd0 with
    | error e =>
      exact ⟨by simp, .inl ⟨⟨_, rfl⟩, (hopen.close (.inr rfl)).keeps h0 h1, fun fd => congrFun htable fd, hbound⟩⟩
    | ok u =>
      refine ⟨by simp, .inr ⟨pfd0, rfl, (hopen.close (.inr rfl)).keeps h0 h1, h0, ?_, ?_, by simp only; omega, hbound⟩⟩
      · have hkept : close q.fds pfd1 pfd0 = some (.pipeRead pipe) := by
          rw [hfds]
          exact (Function.update_of_ne hne _ _).trans
            ((Function.update_of_ne hne _ _).trans (Function.update_self _ _ _))
        show close q.fds pfd1 pfd0 ≠ none
        rw [hkept]
        simp
      · rw [← htable]
        unfold recorded
        rw [hq]

/-- **What `popen` does.** -/
theorem popen_does {type : Nat → UInt8} {env : Outcomes} {p : Process} (hfresh : FreshPipe env p) :
    PopenDoes env p (popen type env p) := by
  obtain ⟨hfds, htable, hbound⟩ := allocated_unrecorded env p
  by_cases hr : refuses type = true
  · rw [popen_of_refuses hr]
    exact .inl ⟨rfl, ⟨_, rfl⟩, fun _ _ => rfl, fun _ => rfl, fun _ => rfl⟩
  obtain ⟨hread, -⟩ := (refuses_eq_false type).1 (Bool.not_eq_true _ ▸ hr)
  unfold popen popenWith
  rw [if_neg hr]
  dsimp only
  generalize allocated env p = q at hfds htable hbound ⊢
  have hunchanged : Unrecorded p q := ⟨fun fd _ => by rw [hfds], fun fd => by rw [htable], hbound⟩
  obtain ⟨fds, childpid, maxfd⟩ := q
  subst hfds
  cases childpid with
  | none => exact .inl ⟨rfl, ⟨_, rfl⟩, hunchanged⟩
  | some childpid =>
    cases hp : env.pipe with
    | emfile => exact .inl ⟨rfl, ⟨_, rfl⟩, hunchanged⟩
    | enfile => exact .inl ⟨rfl, ⟨_, rfl⟩, hunchanged⟩
    | ends pipe pfd0 pfd1 =>
      obtain ⟨h0, h1, hne⟩ := hfresh pipe pfd0 pfd1 hp
      exact piped_does (q := ⟨openPipe p.fds pipe pfd0 pfd1, some childpid, maxfd⟩) hread h0 h1 hne rfl rfl htable
        hbound _

/-- **A descriptor without a record** is refused, and nothing changes. -/
theorem pclose_unrecorded {p : Process} {fd : Nat} (h : recorded p fd = 0) (how : FcloseOutcome)
    (waits : List WaitOutcome) : pclose p fd how waits = .ok (some (invalid p)) := by
  unfold pclose
  unfold recorded at h
  cases hc : p.childpid with
  | none => rfl
  | some childpid =>
    simp only [hc] at h
    dsimp only
    split
    · rfl
    · rw [if_neg (by omega), Int.toNat_natCast, if_pos h]

/-- What `pclose` leaves of a process whose record at `fd` it takes. -/
structure Taken (p p' : Process) (fd : Nat) : Prop where
  others : ∀ fd', fd' ≠ fd → p'.fds fd' = p.fds fd'
  table : recorded p' = Function.update (recorded p) fd 0
  bound : p'.maxfd = p.maxfd

/-- **A recorded descriptor**: the record is taken, and the recorded child is the one waited for, unless `fclose`
fails. -/
theorem pclose_recorded {p : Process} {fd : Nat} (h : recorded p fd ≠ 0) (hfd : fd < p.maxfd) {how : FcloseOutcome}
    {waits : List WaitOutcome} {r : Pclosed} (hr : pclose p fd how waits = .ok (some r)) :
    Taken p r.proc fd ∧ r.fclosed = true ∧
      ((how = .done ∧ r.asked = some (recorded p fd)) ∨
        ((∃ e released, how = .eof e released) ∧ r.ret = -1 ∧ r.asked = none ∧ r.reaped = none)) := by
  unfold pclose at hr
  unfold recorded at h ⊢
  cases hc : p.childpid with
  | none =>
    rw [hc] at h
    exact absurd rfl h
  | some childpid =>
    simp only [hc] at h hr ⊢
    rw [if_neg (by omega), if_neg (by omega), Int.toNat_natCast, if_neg h] at hr
    cases how with
    | done =>
      cases hw : waitLoop waits with
      | none =>
        simp only [hw, Option.map_none] at hr
        cases hr
      | some o =>
        simp only [hw, Option.map_some] at hr
        cases hr
        refine ⟨⟨fun fd' hne => Function.update_of_ne hne _ _, ?_, rfl⟩, rfl, .inl ⟨rfl, rfl⟩⟩
        unfold recorded
        rw [hc]
    | eof e released =>
      cases hr
      refine ⟨⟨fun fd' hne => ?_, ?_, rfl⟩, rfl, .inr ⟨⟨_, _, rfl⟩, rfl, rfl, rfl⟩⟩
      · cases released with
        | false => rfl
        | true => exact Function.update_of_ne hne _ _
      · unfold recorded
        rw [hc]

/-! ## Streams on descriptors of their own -/

/-- Every stream has an open descriptor of its own. -/
structure Owned (fds : Fds) (streams : Handle → Option Nat) : Prop where
  opened : ∀ h fd, streams h = some fd → fds fd ≠ none
  alone : ∀ h h' fd, streams h = some fd → streams h' = some fd → h = h'

theorem of_update_none {streams : Handle → Option Nat} {h g : Handle} {fd : Nat}
    (hs : Function.update streams h none g = some fd) : g ≠ h ∧ streams g = some fd := by
  by_cases hg : g = h
  · rw [hg, Function.update_self] at hs
    cases hs
  · exact ⟨hg, (Function.update_of_ne hg _ _).symm.trans hs⟩

theorem of_update_some {streams : Handle → Option Nat} {h g : Handle} {fd fd' : Nat}
    (hs : Function.update streams h (some fd) g = some fd') : g = h ∧ fd' = fd ∨ g ≠ h ∧ streams g = some fd' := by
  by_cases hg : g = h
  · rw [hg, Function.update_self] at hs
    exact .inl ⟨hg, (Option.some.inj hs).symm⟩
  · exact .inr ⟨hg, (Function.update_of_ne hg _ _).symm.trans hs⟩

namespace Owned

variable {fds fds' : Fds} {streams : Handle → Option Nat}

theorem keep (ho : Owned fds streams) (hk : ∀ fd, fds fd ≠ none → fds' fd = fds fd) : Owned fds' streams :=
  ⟨fun h fd hs => hk fd (ho.opened h fd hs) ▸ ho.opened h fd hs, ho.alone⟩

/-- A stream is opened on a new descriptor. -/
theorem add (ho : Owned fds streams) {h : Handle} {fd : Nat} (hfree : fds fd = none) (hnew : fds' fd ≠ none)
    (hk : ∀ fd, fds fd ≠ none → fds' fd = fds fd) : Owned fds' (Function.update streams h (some fd)) where
  opened := fun g fd' hs => by
    rcases of_update_some hs with ⟨-, he⟩ | ⟨-, hg⟩
    · exact he ▸ hnew
    · exact (ho.keep hk).opened g fd' hg
  alone := fun g g' fd' hs hs' => by
    rcases of_update_some hs with ⟨hg, he⟩ | ⟨-, hg⟩
    · rcases of_update_some hs' with ⟨hg', -⟩ | ⟨-, hg'⟩
      · rw [hg, hg']
      · exact absurd hfree (he ▸ ho.opened g' fd' hg')
    · rcases of_update_some hs' with ⟨-, he'⟩ | ⟨-, hg'⟩
      · exact absurd hfree (he' ▸ ho.opened g fd' hg)
      · exact ho.alone g g' fd' hg hg'

/-- A stream is closed, whatever becomes of its descriptor. -/
theorem remove (ho : Owned fds streams) {h : Handle} {fd : Nat} (hs : streams h = some fd)
    (hk : ∀ fd', fd' ≠ fd → fds' fd' = fds fd') : Owned fds' (Function.update streams h none) where
  opened := fun g fd' hg => by
    obtain ⟨hne, hg⟩ := of_update_none hg
    rw [hk fd' (fun he => hne (ho.alone g h fd (he ▸ hg) hs))]
    exact ho.opened g fd' hg
  alone := fun g g' fd' hg hg' => ho.alone g g' fd' (of_update_none hg).2 (of_update_none hg').2

end Owned

/-! ## Every state of a run -/

/-- `childpid` records the children of the open streams of `popen`, and every child waited for was its stream's. -/
structure Inv (s : State) : Prop where
  owned : Owned s.proc.fds s.streams
  owner : ∀ fd, recorded s.proc fd ≠ 0 → ∃ n, s.streams (.popened n) = some fd
  child : ∀ n fd, s.streams (.popened n) = some fd → recorded s.proc fd = s.pidOf n ∧ s.unreaped n = true ∧
    fd < s.proc.maxfd
  born : ∀ n, s.unreaped n = true → n < s.forks ∧ 0 < s.pidOf n
  pids : ∀ n n', s.unreaped n = true → s.unreaped n' = true → s.pidOf n = s.pidOf n' → n = n'
  waited : ∀ h c, (h, c) ∈ s.waits → h = .popened c ∧ s.unreaped c = false ∧ c < s.forks
  once : (s.waits.map (fun w => w.2)).Nodup

namespace Inv

variable {s : State}

theorem late (hi : Inv s) (n : Nat) (hn : s.forks ≤ n) : s.streams (.popened n) = none := by
  cases h : s.streams (.popened n) with
  | none => rfl
  | some fd =>
    have := (hi.born n (hi.child n fd h).2.1).1
    omega

theorem recorded_pos (hi : Inv s) {n fd : Nat} (h : s.streams (.popened n) = some fd) : recorded s.proc fd ≠ 0 := by
  obtain ⟨hrec, hun, -⟩ := hi.child n fd h
  have := (hi.born n hun).2
  omega

/-- A process that has records has its table, so `maxfd` is fixed. -/
theorem table_of_stream (hi : Inv s) {n fd : Nat} (h : s.streams (.popened n) = some fd) : s.proc.childpid ≠ none := by
  intro hnone
  have := hi.recorded_pos h
  unfold recorded at this
  rw [hnone] at this
  exact this rfl

/-- A stream that is not `popen`'s has no record. -/
theorem foreign_unrecorded (hi : Inv s) {k fd : Nat} (h : s.streams (.foreign k) = some fd) :
    recorded s.proc fd = 0 := by
  by_contra hne
  obtain ⟨n, hn⟩ := hi.owner fd hne
  have := hi.owned.alone _ _ fd h hn
  cases this

/-- The process goes on with its records as they were. -/
theorem unrecorded (hi : Inv s) {p : Process} (hp : Unrecorded s.proc p) : Inv { s with proc := p } where
  owned := hi.owned.keep hp.keeps
  owner := fun fd hfd => hi.owner fd (hp.table fd ▸ hfd)
  child := fun n fd h => by
    obtain ⟨hrec, hun, hlt⟩ := hi.child n fd h
    exact ⟨(hp.table fd).trans hrec, hun, (hp.bound (hi.table_of_stream h)).symm ▸ hlt⟩
  born := hi.born
  pids := hi.pids
  waited := hi.waited
  once := hi.once

/-- A child is forked that no stream is returned for. -/
theorem forkedNull (hi : Inv s) {pid : Nat} (hpos : 0 < pid) (hnew : ∀ n, s.unreaped n = true → s.pidOf n ≠ pid)
    (e : Errno) : Inv (forked s pid (.null e)) where
  owned := hi.owned
  owner := hi.owner
  child := fun n fd h => by
    obtain ⟨hrec, hun, hlt⟩ := hi.child n fd h
    have hne : n ≠ s.forks := Nat.ne_of_lt (hi.born n hun).1
    simp only [forked, Function.update_of_ne hne]
    exact ⟨hrec, hun, hlt⟩
  born := fun n hun => by
    simp only [forked] at hun ⊢
    by_cases hn : n = s.forks
    · subst hn
      rw [Function.update_self]
      exact ⟨by omega, hpos⟩
    · rw [Function.update_of_ne hn] at hun ⊢
      have := hi.born n hun
      exact ⟨by omega, this.2⟩
  pids := fun n n' hun hun' hpid => by
    simp only [forked] at hun hun' hpid
    by_cases hn : n = s.forks
    · by_cases hn' : n' = s.forks
      · rw [hn, hn']
      · subst hn
        rw [Function.update_of_ne hn'] at hun' hpid
        rw [Function.update_self] at hpid
        exact absurd hpid.symm (hnew n' hun')
    · rw [Function.update_of_ne hn] at hun hpid
      by_cases hn' : n' = s.forks
      · subst hn'
        rw [Function.update_self] at hpid
        exact absurd hpid (hnew n hun)
      · rw [Function.update_of_ne hn'] at hun' hpid
        exact hi.pids n n' hun hun' hpid
  waited := fun h c hw => by
    obtain ⟨hh, hun, hc⟩ := hi.waited h c hw
    refine ⟨hh, ?_, Nat.lt_succ_of_lt hc⟩
    simp only [forked, Function.update_of_ne (Nat.ne_of_lt hc)]
    exact hun
  once := hi.once

/-- A stream is returned for a child, and the child recorded. -/
theorem record (hi : Inv s) {n fd : Nat} {p : Process} (hun : s.unreaped n = true)
    (hnone : s.streams (.popened n) = none) (hp : Recorded s.proc p fd (s.pidOf n)) :
    Inv { s with proc := p, streams := Function.update s.streams (.popened n) (some fd) } where
  owned := hi.owned.add hp.free hp.opened hp.keeps
  owner := fun fd' hfd => by
    simp only [hp.table] at hfd
    by_cases hf : fd' = fd
    · subst hf
      exact ⟨n, Function.update_self _ _ _⟩
    · rw [Function.update_of_ne hf] at hfd
      obtain ⟨k, hk⟩ := hi.owner fd' hfd
      refine ⟨k, (Function.update_of_ne ?_ _ _).trans hk⟩
      rintro ⟨⟩
      rw [hnone] at hk
      cases hk
  child := fun k fd' hs => by
    simp only [hp.table]
    rcases of_update_some hs with ⟨hk, rfl⟩ | ⟨-, hs⟩
    · cases hk
      exact ⟨Function.update_self _ _ _, hun, hp.below⟩
    · obtain ⟨hrec, hk, hlt⟩ := hi.child k fd' hs
      have hne : fd' ≠ fd := fun he => hi.owned.opened _ _ hs (he ▸ hp.free)
      exact ⟨(Function.update_of_ne hne _ _).trans hrec, hk, (hp.bound (hi.table_of_stream hs)).symm ▸ hlt⟩
  born := hi.born
  pids := hi.pids
  waited := hi.waited
  once := hi.once

/-- A stream of `popen` is given up with its record. -/
theorem taken (hi : Inv s) {n fd : Nat} {p : Process} (h : s.streams (.popened n) = some fd) (hp : Taken s.proc p fd) :
    Inv { s with proc := p, streams := Function.update s.streams (.popened n) none } where
  owned := hi.owned.remove h hp.others
  owner := fun fd' hfd => by
    simp only [hp.table] at hfd
    have hf : fd' ≠ fd := by
      rintro rfl
      exact hfd (Function.update_self _ _ _)
    rw [Function.update_of_ne hf] at hfd
    obtain ⟨k, hk⟩ := hi.owner fd' hfd
    refine ⟨k, (Function.update_of_ne ?_ _ _).trans hk⟩
    rintro ⟨⟩
    rw [h] at hk
    exact hf (Option.some.inj hk).symm
  child := fun k fd' hs => by
    obtain ⟨hk, hs⟩ := of_update_none hs
    have hf : fd' ≠ fd := fun he => hk (hi.owned.alone _ _ fd (he ▸ hs) h)
    obtain ⟨hrec, hun, hlt⟩ := hi.child k fd' hs
    refine ⟨?_, hun, ?_⟩
    · simp only [hp.table]
      rwa [Function.update_of_ne hf]
    · simp only [hp.bound]
      exact hlt
  born := hi.born
  pids := hi.pids
  waited := hi.waited
  once := hi.once

/-- A child whose stream is gone is waited for. -/
theorem reap (hi : Inv s) {c : Nat} (hun : s.unreaped c = true) (hgone : s.streams (.popened c) = none) :
    Inv { s with unreaped := Function.update s.unreaped c false, waits := (.popened c, c) :: s.waits } := by
  have hkeep : ∀ {k : Nat}, Function.update s.unreaped c false k = true → s.unreaped k = true := fun {k} hk => by
    by_cases hne : k = c
    · rw [hne]
      exact hun
    · rwa [Function.update_of_ne hne] at hk
  refine ⟨hi.owned, hi.owner, fun n fd h => ?_, fun n hn => hi.born n (hkeep hn),
    fun n n' hn hn' => hi.pids n n' (hkeep hn) (hkeep hn'), fun h k hw => ?_, ?_⟩
  · obtain ⟨hrec, hn, hlt⟩ := hi.child n fd h
    have hne : n ≠ c := by
      rintro rfl
      rw [hgone] at h
      cases h
    exact ⟨hrec, (Function.update_of_ne hne _ _).trans hn, hlt⟩
  · rcases List.mem_cons.1 hw with hw | hw
    · cases hw
      exact ⟨rfl, Function.update_self _ _ _, (hi.born c hun).1⟩
    · obtain ⟨hh, hk, hlt⟩ := hi.waited h k hw
      refine ⟨hh, ?_, hlt⟩
      by_cases hne : k = c
      · subst hne
        exact Function.update_self _ _ _
      · exact (Function.update_of_ne hne _ _).trans hk
  · rw [List.map_cons, List.nodup_cons]
    refine ⟨fun hm => ?_, hi.once⟩
    obtain ⟨⟨h, k⟩, hw, hk⟩ := List.mem_map.1 hm
    have hdone := (hi.waited h k hw).2.1
    rw [show k = c from hk, hun] at hdone
    cases hdone

/-- A stream of another kind is opened or closed. -/
theorem foreign (hi : Inv s) {k : Nat} {o : Option Nat} {fds : Fds}
    (ho : Owned fds (Function.update s.streams (.foreign k) o)) :
    Inv { s with proc := { s.proc with fds }, streams := Function.update s.streams (.foreign k) o } := by
  have hpop : ∀ n, Function.update s.streams (.foreign k) o (.popened n) = s.streams (.popened n) :=
    fun n => Function.update_of_ne (by simp) _ _
  refine ⟨ho, fun fd hfd => ?_, fun n fd hs => hi.child n fd ((hpop n).symm.trans hs), hi.born, hi.pids, hi.waited,
    hi.once⟩
  obtain ⟨n, hn⟩ := hi.owner fd hfd
  exact ⟨n, (hpop n).trans hn⟩

end Inv

/-! ## The run -/

theorem freshPipe_of_promised {s : State} {env : Outcomes} (h : promised s env = true) : FreshPipe env s.proc := by
  intro pipe pfd0 pfd1 hp
  unfold promised at h
  simp only [hp, Bool.and_eq_true, Option.isNone_iff_eq_none, decide_eq_true_eq] at h
  exact ⟨h.1.1.1, h.1.1.2, h.1.2⟩

theorem newPid_of_promised {s : State} {env : Outcomes} (h : promised s env = true) {pid : Nat}
    (hf : env.fork = .ok pid) : 0 < pid ∧ ∀ n, n < s.forks → s.unreaped n = true → s.pidOf n ≠ pid := by
  unfold promised at h
  simp only [hf, Bool.and_eq_true, decide_eq_true_eq, List.all_eq_true, List.mem_range] at h
  refine ⟨h.2.1, fun n hn hun hpid => ?_⟩
  have := h.2.2 n hn
  rw [hun, hpid] at this
  simp at this

theorem popen_inv {s s' : State} (hi : Inv s) {type : Nat → UInt8} {env : Outcomes}
    (h : step s (.popen type env) = some s') : Inv s' := by
  simp only [step] at h
  split at h
  · rename_i hprom
    rcases @popen_does type _ _ (freshPipe_of_promised hprom) with ⟨hchild, -, hun⟩ | ⟨pid, hfork, hchild, hdoes⟩
    · rw [hchild] at h
      cases h
      exact hi.unrecorded hun
    · obtain ⟨hpos, hnew⟩ := newPid_of_promised hprom hfork
      have hnew' : ∀ n, s.unreaped n = true → s.pidOf n ≠ pid := fun n hn => hnew n (hi.born n hn).1 hn
      obtain ⟨child, hc⟩ := Option.ne_none_iff_exists'.1 hchild
      rw [hc, hfork] at h
      cases h
      rcases hdoes with ⟨⟨e, he⟩, hun⟩ | ⟨fd, hfd, hrec⟩
      · rw [he]
        exact (hi.unrecorded hun).forkedNull hpos hnew' e
      · rw [hfd]
        have hnull := hi.forkedNull hpos hnew' .EINVAL
        have hpid : (forked s pid (.null .EINVAL)).pidOf s.forks = pid := Function.update_self _ _ _
        exact hnull.record (Function.update_self _ _ _) (hi.late _ (Nat.le_refl _)) (hpid.symm ▸ hrec)
  · cases h

theorem pclose_inv {s s' : State} (hi : Inv s) {h : Handle} {how : FcloseOutcome} {waits : List WaitOutcome}
    (hstep : step s (.pclose h how waits) = some s') : Inv s' := by
  simp only [step] at hstep
  cases hs : s.streams h with
  | none =>
    rw [hs] at hstep
    cases hstep
  | some fd =>
    rw [hs] at hstep
    simp only [Option.bind_eq_bind, Option.bind_some] at hstep
    cases h with
    | foreign k =>
      rw [pclose_unrecorded (hi.foreign_unrecorded hs)] at hstep
      cases hstep
      exact hi
    | popened n =>
      obtain ⟨hrec, hun, hlt⟩ := hi.child n fd hs
      cases hp : pclose s.proc fd how waits with
      | error e =>
        rw [hp] at hstep
        cases hstep
      | ok o =>
        cases o with
        | none =>
          rw [hp] at hstep
          cases hstep
        | some r =>
          obtain ⟨htaken, hclosed, hasked⟩ := pclose_recorded (hi.recorded_pos hs) hlt hp
          rw [hp] at hstep
          dsimp only at hstep
          split at hstep
          · rename_i hwait
            cases hstep
            have htake := hi.taken hs htaken
            unfold closed
            rw [hclosed, if_pos rfl]
            cases hr : r.reaped with
            | none => exact htake
            | some c =>
              unfold waitable at hwait
              simp only [hr, Bool.and_eq_true, beq_iff_eq] at hwait
              rcases hasked with ⟨-, hpid⟩ | ⟨-, -, -, hnone⟩
              · rw [hpid, hrec] at hwait
                obtain rfl := hi.pids n c hun hwait.1 (Option.some.inj hwait.2)
                exact htake.reap hwait.1 (Function.update_self _ _ _)
              · rw [hnone] at hr
                cases hr
          · cases hstep

theorem step_inv (s : State) (a : Action) (s' : State) (hi : Inv s) (h : step s a = some s') : Inv s' := by
  cases a with
  | popen type env => exact popen_inv hi h
  | pclose g how waits => exact pclose_inv hi h
  | fopen k fd =>
    simp only [step] at h
    split at h
    · rename_i hfree
      cases h
      have hnone : s.proc.fds fd = none := Option.isNone_iff_eq_none.1 hfree.1
      refine hi.foreign (hi.owned.add hnone ?_ (fun fd' hfd => Function.update_of_ne ?_ _ _))
      · rw [Function.update_self]
        simp
      · rintro rfl
        exact hfd hnone
    · cases h
  | fclose k =>
    simp only [step] at h
    cases hs : s.streams (.foreign k) with
    | none =>
      rw [hs] at h
      cases h
    | some fd =>
      rw [hs] at h
      cases h
      exact hi.foreign (hi.owned.remove hs (fun fd' hne => Function.update_of_ne hne _ _))

/-- Before the first call of `popen`. -/
structure Start (s : State) : Prop where
  childpid : s.proc.childpid = none
  owned : Owned s.proc.fds s.streams
  none_popened : ∀ n, s.streams (.popened n) = none
  none_unreaped : ∀ n, s.unreaped n = false
  waits : s.waits = []

theorem Start.inv {s : State} (h : Start s) : Inv s where
  owned := h.owned
  owner := fun fd hfd => by
    unfold recorded at hfd
    rw [h.childpid] at hfd
    exact absurd rfl hfd
  child := fun n fd hs => by
    rw [h.none_popened n] at hs
    cases hs
  born := fun n hn => by
    rw [h.none_unreaped n] at hn
    cases hn
  pids := fun n _ hn => by
    rw [h.none_unreaped n] at hn
    cases hn
  waited := fun g c hw => by
    rw [h.waits] at hw
    cases hw
  once := by
    rw [h.waits]
    exact List.nodup_nil

/-- What `childpid` tells of the streams, and what each of them gets from `pclose`. -/
structure Tracked (s : State) : Prop where
  /-- the descriptors with a record are those of the open streams of `popen` -/
  recorded_iff : ∀ fd, recorded s.proc fd ≠ 0 ↔ ∃ n, s.streams (.popened n) = some fd
  distinct : ∀ fd fd', recorded s.proc fd ≠ 0 → recorded s.proc fd = recorded s.proc fd' → fd = fd'
  /-- `pclose` has waited for the children of its streams alone, and for none of them twice -/
  own : ∀ h c, (h, c) ∈ s.waits → h = .popened c
  once : (s.waits.map (fun w => w.2)).Nodup
  /-- the next `pclose` of a stream of `popen` asks for its child, which is not waited for yet, unless `fclose` fails -/
  waitsFor : ∀ n fd how waits r, s.streams (.popened n) = some fd → pclose s.proc fd how waits = .ok (some r) →
    (how = .done ∧ r.asked = some (s.pidOf n) ∧ s.unreaped n = true ∧
      ∀ c, s.unreaped c = true → s.pidOf c = s.pidOf n → c = n) ∨
    ((∃ e released, how = .eof e released) ∧ r.ret = -1 ∧ r.asked = none)
  /-- any other stream is refused -/
  refused : ∀ k fd how waits, s.streams (.foreign k) = some fd →
    pclose s.proc fd how waits = .ok (some (invalid s.proc))

theorem Inv.tracked {s : State} (hi : Inv s) : Tracked s where
  recorded_iff := fun fd => ⟨hi.owner fd, fun ⟨_, hn⟩ => hi.recorded_pos hn⟩
  distinct := fun fd fd' hfd heq => by
    obtain ⟨n, hn⟩ := hi.owner fd hfd
    obtain ⟨n', hn'⟩ := hi.owner fd' (heq ▸ hfd)
    obtain ⟨hrec, hun, -⟩ := hi.child n fd hn
    obtain ⟨hrec', hun', -⟩ := hi.child n' fd' hn'
    obtain rfl := hi.pids n n' hun hun' (by rw [← hrec, heq, hrec'])
    rw [hn] at hn'
    exact Option.some.inj hn'
  own := fun h c hw => (hi.waited h c hw).1
  once := hi.once
  waitsFor := fun n fd how waits r hs hr => by
    obtain ⟨hrec, hun, hlt⟩ := hi.child n fd hs
    obtain ⟨-, -, ⟨hdone, hasked⟩ | ⟨heof, hret, hasked, -⟩⟩ := pclose_recorded (hi.recorded_pos hs) hlt hr
    · rw [hrec] at hasked
      exact .inl ⟨hdone, hasked, hun, fun c hc hpid => hi.pids c n hc hun hpid⟩
    · exact .inr ⟨heof, hret, hasked⟩
  refused := fun k fd how waits hs => pclose_unrecorded (hi.foreign_unrecorded hs) how waits

/-- **In every state of a run** `childpid` records the open streams of `popen`, and `pclose` waits for the child of its
stream. -/
theorem children_tracked {s₀ s : State} (hstart : Start s₀) (as : List Action) (h : run step as s₀ = some s) :
    Tracked s := (run_inv Inv step_inv as s₀ s hstart.inv h).tracked

/-- The three standard streams are open. -/
def startState : State :=
  { proc := startProcess
    streams := fun h => match h with
      | .foreign k => if k < 3 then some k else none
      | .popened _ => none
    forks := 0
    pidOf := fun _ => 0
    unreaped := fun _ => false
    waits := [] }

theorem start_startState : Start startState where
  childpid := rfl
  owned := by
    constructor
    · intro h fd hs
      cases h with
      | popened n => cases hs
      | foreign k =>
        simp only [startState] at hs ⊢
        split at hs
        · rename_i hk
          cases hs
          simp [startProcess, hk]
        · cases hs
    · intro h h' fd hs hs'
      cases h with
      | popened n => cases hs
      | foreign k =>
        cases h' with
        | popened n => cases hs'
        | foreign k' =>
          simp only [startState, Option.ite_none_right_eq_some] at hs hs'
          rw [Option.some.inj hs.2, Option.some.inj hs'.2]
  none_popened := fun _ => rfl
  none_unreaped := fun _ => rfl
  waits := rfl

/-- A second child takes the descriptor, and the pid, of the first. -/
def reuseRun : List Action :=
  [.popen (mode 114) allGranted, .pclose (.popened 0) .done [.eintr, .reaped 0 256], .fopen 5 4,
    .popen (mode 114) ⟨256, false, .ends 1 3 5, .ok 7, .ok ()⟩, .pclose (.foreign 5) .done [],
    .pclose (.popened 1) .done [.reaped 1 0]]

theorem children_tracked_reuse : ∃ s, run step reuseRun startState = some s ∧ s.waits = [(.popened 1, 1), (.popened 0, 0)] ∧
    Tracked s := ⟨_, rfl, rfl, children_tracked start_startState reuseRun rfl⟩

/-- **Two calls that do not wait or refuse**: `fclose` fails on a stream of `popen`, whose child then is never waited
for; and a stream without a descriptor is looked up before the start of `childpid`. -/
theorem children_untracked : ∃ s, run step [.popen (mode 114) allGranted] startState = some s ∧
    s.streams (.popened 0) = some 3 ∧
    (∃ r, pclose s.proc 3 (.eof (.other 5) true) [.reaped 0 0] = .ok (some r) ∧ r.ret = -1 ∧ r.asked = none ∧
      recorded r.proc 3 = 0) ∧
    (∃ s', step s (.pclose (.popened 0) (.eof (.other 5) true) [.reaped 0 0]) = some s' ∧ s'.waits = [] ∧
      s'.unreaped 0 = true ∧ s'.streams (.popened 0) = none) ∧
    pclose s.proc (-1) .done [] = .error .outOfBounds :=
  ⟨_, rfl, rfl, ⟨_, rfl, rfl, rfl, rfl⟩, ⟨_, rfl, rfl, rfl, rfl⟩, rfl⟩

end Popen
end Cc
