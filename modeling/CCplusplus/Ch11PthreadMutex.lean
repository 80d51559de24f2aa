import CCplusplus.Lib.Exec
import CCplusplus.Lib.Machine
import Mathlib.Logic.Function.Basic
/-!
# Ch11PthreadMutex — the reference count of `apue/ch11/ch11_pthread_mutex.c` among threads

An action is a call, or the next touch of the object by a thread that is in a call: a lock or unlock of `f_lock`, a read
or write of `f_count`, the destruction of the mutex, `free`.  A thread calls `foo_hold` and `foo_rele` only while it owns
a reference, and may hand one to another thread.  A reference counts as outstanding from the write in `foo_hold` to the
write in `foo_rele`.  A touch that the object does not allow is recorded as a fault.
-/
namespace Cc
namespace Ch11PthreadMutex

open CLib

inductive Touch where
  | lock
  | unlock
  | read
  | write
  | destroy
  | free
deriving DecidableEq, Repr

inductive Life where
  | absent
  | live
  /-- `f_lock` is destroyed -/
  | destroyed
  | freed
deriving DecidableEq, Repr

/-- What a thread does next; `v` is the value of `f_count` that it read. -/
inductive Pc where
  | idle
  | holdLock
  | holdRead
  | holdWrite (v : Int)
  | holdUnlock
  | releLock
  | releRead
  | releWrite (v : Int)
  | releUnlock
  | lastUnlock
  | lastDestroy
  | lastFree
deriving DecidableEq, Repr

/-- `struct foo`, its references and the threads. -/
structure State where
  life : Life
  fCount : Int
  fLock : Option Nat
  fId : Int
  /-- the owner of each outstanding reference -/
  owners : List Nat
  pc : Nat → Pc
  /-- the thread whose `foo_rele` left no reference -/
  last : Option Nat
  /-- every touch, latest first -/
  log : List (Nat × Touch)
  fault : Bool

inductive AllocOutcome where
  | granted
  | mallocFails
  | initFails
deriving DecidableEq, Repr

inductive Action where
  | fooAlloc (t : Nat) (id : Int) (outcome : AllocOutcome)
  | fooHold (t : Nat)
  | fooRele (t : Nat)
  /-- `t` hands a reference of its own to `u` -/
  | give (t u : Nat)
  | go (t : Nat)
deriving DecidableEq, Repr

def allows (s : State) (t : Nat) : Touch → Bool
  | .lock => s.life == .live
  | .unlock => s.life == .live && s.fLock == some t
  | .read => s.life == .live || s.life == .destroyed
  | .write => s.life == .live || s.life == .destroyed
  | .destroy => s.life == .live && s.fLock == none
  | .free => s.life == .live || s.life == .destroyed

/-- `t` touches the object and goes on to `s'`. -/
def touch (s : State) (t : Nat) (e : Touch) (s' : State) : State :=
  if allows s t e then { s' with log := (t, e) :: s.log } else { s with fault := true }

def State.goto (s : State) (t : Nat) (pc : Pc) : State := { s with pc := Function.update s.pc t pc }

/-- The object as `foo_alloc` returns it, and `NULL` if it cannot. -/
def fooAlloc (s : State) (t : Nat) (id : Int) : AllocOutcome → State
  | .granted => { s with life := .live, fCount := 1, fId := id, fLock := none, owners := [t] }
  | .mallocFails => s
  | .initFails => s

/-- `pthread_mutex_lock` waits while another thread has the lock. -/
def lock (s : State) (t : Nat) (next : Pc) : Option State :=
  if s.fLock.isSome then none else some (touch s t .lock { s.goto t next with fLock := some t })

def unlock (s : State) (t : Nat) (next : Pc) : Option State :=
  some (touch s t .unlock { s.goto t next with fLock := none })

/-- The next touch of the object in `foo_hold` or `foo_rele`. -/
def go (s : State) (t : Nat) : Option State :=
  match s.pc t with
  | .idle => none
  | .holdLock => lock s t .holdRead
  | .holdRead => some (touch s t .read (s.goto t (.holdWrite s.fCount)))
  | .holdWrite v =>
    some (touch s t .write { s.goto t .holdUnlock with fCount := intAdd v 1, owners := t :: s.owners })
  | .holdUnlock => unlock s t .idle
  | .releLock => lock s t .releRead
  | .releRead => some (touch s t .read (s.goto t (.releWrite s.fCount)))
  | .releWrite v =>
    some (touch s t .write { s.goto t (if intAdd v (-1) = 0 then .lastUnlock else .releUnlock) with
      fCount := intAdd v (-1)
      owners := s.owners.erase t
      last := if s.owners.erase t = [] then some t else s.last })
  | .releUnlock => unlock s t .idle
  | .lastUnlock => unlock s t .lastDestroy
  | .lastDestroy => some (touch s t .destroy { s.goto t .lastFree with life := .destroyed })
  | .lastFree => some (touch s t .free { s.goto t .idle with life := .freed })

def step (s : State) : Action → Option State
  | .fooAlloc t id outcome => if s.life = .absent then some (fooAlloc s t id outcome) else none
  | .fooHold t => if s.pc t = .idle ∧ t ∈ s.owners then some (s.goto t .holdLock) else none
  | .fooRele t => if s.pc t = .idle ∧ t ∈ s.owners then some (s.goto t .releLock) else none
  | .give t u => if s.pc t = .idle ∧ t ∈ s.owners then some { s with owners := u :: s.owners.erase t } else none
  | .go t => go s t

def init : State := ⟨.absent, 0, none, 0, [], fun _ => .idle, none, [], false⟩

/-- At most `INT_MAX` references are outstanding after the step. -/
def countable (s : State) (a : Action) : Bool := (step s a).all (fun s' => decide ((s'.owners.length : Int) ≤ INT_MAX))

/-! ## The invariant -/

/-- In a critical section. -/
def Pc.inside : Pc → Bool
  | .holdRead | .holdWrite _ | .holdUnlock | .releRead | .releWrite _ | .releUnlock | .lastUnlock => true
  | _ => false

/-- In a call, with a reference of its own. -/
def Pc.caller : Pc → Bool
  | .holdLock | .holdRead | .holdWrite _ | .holdUnlock | .releLock | .releRead | .releWrite _ => true
  | _ => false

def Pc.final : Pc → Bool
  | .lastUnlock | .lastDestroy | .lastFree => true
  | _ => false

/-- The value of `f_count` that was read. -/
def Pc.value : Pc → Option Int
  | .holdWrite v | .releWrite v => some v
  | _ => none

/-- No touch yet that ends the object. -/
def Unended (log : List (Nat × Touch)) : Prop := ∀ x ∈ log, x.2 ≠ .destroy ∧ x.2 ≠ .free

theorem Unended.cons {log : List (Nat × Touch)} (h : Unended log) {t : Nat} {e : Touch} (hd : e ≠ .destroy)
    (hf : e ≠ .free) : Unended ((t, e) :: log) := by
  intro x hx
  rcases List.mem_cons.1 hx with rfl | hx
  · exact ⟨hd, hf⟩
  · exact h x hx

structure Absent (s : State) : Prop where
  life : s.life = .absent
  owners : s.owners = []
  idle : ∀ t, s.pc t = .idle
  last : s.last = none
  log : s.log = []
  fault : s.fault = false
  counted : s.fCount = 0

/-- References are outstanding. -/
structure Shared (s : State) : Prop where
  life : s.life = .live
  owners : s.owners ≠ []
  fault : s.fault = false
  last : s.last = none
  log : Unended s.log
  counted : s.fCount = s.owners.length
  early : ∀ t, (s.pc t).final = false
  inside : ∀ t, (s.pc t).inside = true → s.fLock = some t
  caller : ∀ t, (s.pc t).caller = true → t ∈ s.owners
  value : ∀ t v, (s.pc t).value = some v → v = s.fCount

/-- How far the thread that gave up the last reference is. -/
inductive Ending (s : State) (t : Nat) : Prop where
  | unlock (hpc : s.pc t = .lastUnlock) (life : s.life = .live) (lock : s.fLock = some t) (log : Unended s.log)
  | destroy (hpc : s.pc t = .lastDestroy) (life : s.life = .live) (lock : s.fLock = none) (log : Unended s.log)
  | free (hpc : s.pc t = .lastFree) (life : s.life = .destroyed) (rest : List (Nat × Touch))
      (log : s.log = (t, .destroy) :: rest) (unended : Unended rest)
  | done (hpc : s.pc t = .idle) (life : s.life = .freed) (rest : List (Nat × Touch))
      (log : s.log = (t, .free) :: (t, .destroy) :: rest) (unended : Unended rest)

/-- The last reference is given up. -/
structure Final (s : State) (t : Nat) : Prop where
  owners : s.owners = []
  fault : s.fault = false
  last : s.last = some t
  counted : s.fCount = 0
  alone : ∀ u, u ≠ t → s.pc u = .idle
  ending : Ending s t

def Inv (s : State) : Prop := Absent s ∨ Shared s ∨ ∃ t, Final s t

theorem touch_eq {s : State} {t : Nat} {e : Touch} (h : allows s t e = true) (s' : State) :
    touch s t e s' = { s' with log := (t, e) :: s.log } := if_pos h

theorem lock_some {s s' : State} {t : Nat} {next : Pc} (h : lock s t next = some s') :
    s.fLock = none ∧ s' = touch s t .lock { s.goto t next with fLock := some t } := by
  unfold lock at h
  split at h
  · cases h
  · rename_i hfree
    exact ⟨by simpa using hfree, (Option.some.inj h).symm⟩

theorem Pc.inside_of_value {p : Pc} {v : Int} (h : p.value = some v) : p.inside = true := by
  cases p with
  | holdWrite v => rfl
  | releWrite v => rfl
  | _ => cases h

theorem Pc.eq_idle {p : Pc} (hcaller : p.caller = false) (hinside : p.inside = false) (hfinal : p.final = false) :
    p = .idle := by
  revert hcaller hinside hfinal
  cases p <;> simp [Pc.caller, Pc.inside, Pc.final]

namespace Shared

variable {s : State}

/-- One thread goes on and all others see the object as before. -/
theorem move (h : Shared s) {t : Nat} {p : Pc} {s' : State} (hpc : s'.pc = Function.update s.pc t p)
    (hlife : s'.life = s.life) (hfault : s'.fault = s.fault) (hlast : s'.last = s.last) (hlog : Unended s'.log)
    (hcount : s'.fCount = s'.owners.length) (hne : s'.owners ≠ [])
    (hothers : ∀ u, u ≠ t → (s.pc u).inside = true → s'.fLock = some u ∧ s'.fCount = s.fCount)
    (howners : ∀ u, u ≠ t → u ∈ s.owners → u ∈ s'.owners)
    (hearly : p.final = false) (hinside : p.inside = true → s'.fLock = some t)
    (hcaller : p.caller = true → t ∈ s'.owners) (hvalue : ∀ v, p.value = some v → v = s'.fCount) : Shared s' := by
  have hself : s'.pc t = p := by rw [hpc, Function.update_self]
  have hother : ∀ u, u ≠ t → s'.pc u = s.pc u := fun u hu => by rw [hpc, Function.update_of_ne hu]
  refine ⟨hlife.trans h.life, hne, hfault.trans h.fault, hlast.trans h.last, hlog, hcount, fun u => ?_, fun u hu => ?_,
    fun u hu => ?_, fun u v hv => ?_⟩
  · by_cases hut : u = t
    · rw [hut, hself]
      exact hearly
    · rw [hother u hut]
      exact h.early u
  · by_cases hut : u = t
    · rw [hut] at hu ⊢
      exact hinside (hself ▸ hu)
    · rw [hother u hut] at hu
      exact (hothers u hut hu).1
  · by_cases hut : u = t
    · rw [hut] at hu ⊢
      exact hcaller (hself ▸ hu)
    · rw [hother u hut] at hu
      exact howners u hut (h.caller u hu)
  · by_cases hut : u = t
    · rw [hut, hself] at hv
      exact hvalue v hv
    · rw [hother u hut] at hv
      rw [(hothers u hut (Pc.inside_of_value hv)).2]
      exact h.value u v hv

/-- Only the thread that has the lock is in a critical section. -/
theorem alone (h : Shared s) {t u : Nat} (ht : (s.pc t).inside = true) (hu : (s.pc u).inside = true) : u = t := by
  have hlock := (h.inside t ht).symm.trans (h.inside u hu)
  exact (Option.some.inj hlock).symm

/-- A step that leaves the object as it is. -/
theorem goto (h : Shared s) {t : Nat} {p : Pc} (hearly : p.final = false) (hinside : p.inside = true → s.fLock = some t)
    (hcaller : p.caller = true → t ∈ s.owners) (hvalue : ∀ v, p.value = some v → v = s.fCount) :
    Shared (s.goto t p) :=
  h.move rfl rfl rfl rfl h.log h.counted h.owners (fun u _ hu => ⟨h.inside u hu, rfl⟩) (fun _ _ hu => hu) hearly hinside
    hcaller hvalue

/-- A thread that owns a reference calls `foo_hold` or `foo_rele`. -/
theorem call (h : Shared s) {t : Nat} (ht : t ∈ s.owners) {p : Pc} (hearly : p.final = false)
    (hinside : p.inside = false) (hvalue : p.value = none) : Shared (s.goto t p) := by
  refine h.goto hearly (fun hp => ?_) (fun _ => ht) (fun v hv => ?_)
  · rw [hinside] at hp
    cases hp
  · rw [hvalue] at hv
    cases hv

theorem touched {s s' : State} {t : Nat} {e : Touch} (hallows : allows s t e = true) (hd : e ≠ .destroy)
    (hf : e ≠ .free) (h : Shared s') (hlog : s'.log = s.log) : Shared (touch s t e s') := by
  rw [touch_eq hallows, ← hlog]
  exact ⟨h.life, h.owners, h.fault, h.last, h.log.cons hd hf, h.counted, h.early, h.inside, h.caller, h.value⟩

theorem give (h : Shared s) {t u : Nat} (hidle : s.pc t = .idle) (ht : t ∈ s.owners) :
    Shared { s with owners := u :: s.owners.erase t } := by
  have hlen : (u :: s.owners.erase t).length = s.owners.length := by
    have := List.length_pos_of_mem ht
    rw [List.length_cons, List.length_erase_of_mem ht]
    omega
  refine ⟨h.life, List.cons_ne_nil _ _, h.fault, h.last, h.log, h.counted.trans (by rw [hlen]), h.early, h.inside,
    fun k hk => ?_, h.value⟩
  have hkt : k ≠ t := by
    rintro rfl
    rw [hidle] at hk
    cases hk
  exact List.mem_cons_of_mem _ ((List.mem_erase_of_ne hkt).2 (h.caller k hk))

theorem lock (h : Shared s) {t : Nat} {p : Pc} (hfree : s.fLock = none) (ht : t ∈ s.owners) (hearly : p.final = false)
    (hvalue : p.value = none) : Shared (touch s t .lock { s.goto t p with fLock := some t }) := by
  have hgo : Shared { s.goto t p with fLock := some t } := by
    refine h.move rfl rfl rfl rfl h.log h.counted h.owners (fun u _ hu => ?_) (fun _ _ hu => hu) hearly (fun _ => rfl)
      (fun _ => ht) (fun v hv => ?_)
    · rw [h.inside u hu] at hfree
      cases hfree
    · rw [hvalue] at hv
      cases hv
  exact touched (by simp [allows, h.life]) (by simp) (by simp) hgo rfl

theorem unlock (h : Shared s) {t : Nat} (ht : (s.pc t).inside = true) :
    Shared (touch s t .unlock { s.goto t .idle with fLock := none }) := by
  have hgo : Shared { s.goto t .idle with fLock := none } := by
    refine h.move (t := t) (p := .idle) rfl rfl rfl rfl h.log h.counted h.owners (fun u hne hu => ?_)
      (fun _ _ hu => hu) rfl (fun hp => by cases hp) (fun hp => by cases hp) (fun v hv => by cases hv)
    exact absurd (h.alone ht hu) hne
  exact touched (by simp [allows, h.life, h.inside t ht]) (by simp) (by simp) hgo rfl

theorem read (h : Shared s) {t : Nat} {p : Pc} (ht : (s.pc t).inside = true) (hcaller : t ∈ s.owners)
    (hearly : p.final = false) (hvalue : ∀ v, p.value = some v → v = s.fCount) : Shared (touch s t .read (s.goto t p)) :=
  touched (by simp [allows, h.life]) (by simp) (by simp)
    (h.goto hearly (fun _ => h.inside t ht) (fun _ => hcaller) hvalue) rfl

/-- The write of `foo_hold`. -/
theorem holdWrite (h : Shared s) {t : Nat} {v : Int} (hpc : s.pc t = .holdWrite v)
    (hmax : (s.owners.length + 1 : Int) ≤ INT_MAX) :
    Shared (touch s t .write { s.goto t .holdUnlock with fCount := intAdd v 1, owners := t :: s.owners }) := by
  have ht : (s.pc t).inside = true := by rw [hpc]; rfl
  have hv : v = s.owners.length := (h.value t v (by rw [hpc]; rfl)).trans h.counted
  have hgo : Shared { s.goto t .holdUnlock with fCount := intAdd v 1, owners := t :: s.owners } := by
    refine h.move (t := t) (p := .holdUnlock) rfl rfl rfl rfl h.log ?_ (List.cons_ne_nil _ _) (fun u hne hu => ?_)
      (fun u _ hu => List.mem_cons_of_mem _ hu) rfl (fun _ => h.inside t ht) (fun _ => List.mem_cons_self)
      (fun w hw => by cases hw)
    · show intAdd v 1 = ((t :: s.owners).length : Int)
      rw [hv, intAdd_eq (by omega) hmax, List.length_cons]
      omega
    · exact absurd (h.alone ht hu) hne
  exact touched (by simp [allows, h.life]) (by simp) (by simp) hgo rfl

/-- The value that the write of `foo_rele` leaves. -/
theorem releValue (h : Shared s) {t : Nat} {v : Int} (hpc : s.pc t = .releWrite v)
    (hmax : ((s.owners.erase t).length : Int) ≤ INT_MAX) : t ∈ s.owners ∧ intAdd v (-1) = (s.owners.erase t).length := by
  have ht : t ∈ s.owners := h.caller t (by rw [hpc]; rfl)
  have hv : v = s.owners.length := (h.value t v (by rw [hpc]; rfl)).trans h.counted
  have hpos := List.length_pos_of_mem ht
  rw [List.length_erase_of_mem ht] at hmax ⊢
  refine ⟨ht, ?_⟩
  rw [hv, intAdd_eq (by omega) (by omega)]
  omega

/-- The write of `foo_rele` while other references are outstanding. -/
theorem releWrite (h : Shared s) {t : Nat} {v : Int} (hpc : s.pc t = .releWrite v)
    (hmax : ((s.owners.erase t).length : Int) ≤ INT_MAX) (hne : s.owners.erase t ≠ []) :
    Shared (touch s t .write { s.goto t .releUnlock with fCount := intAdd v (-1), owners := s.owners.erase t }) := by
  have ht : (s.pc t).inside = true := by rw [hpc]; rfl
  have hgo : Shared { s.goto t .releUnlock with fCount := intAdd v (-1), owners := s.owners.erase t } := by
    refine h.move (t := t) (p := .releUnlock) rfl rfl rfl rfl h.log (h.releValue hpc hmax).2 hne (fun u hne hu => ?_)
      (fun u hne hu => (List.mem_erase_of_ne hne).2 hu) rfl (fun _ => h.inside t ht) (fun hp => by cases hp)
      (fun w hw => by cases hw)
    exact absurd (h.alone ht hu) hne
  exact touched (by simp [allows, h.life]) (by simp) (by simp) hgo rfl

/-- **The last reference**: no other thread is in a call. -/
theorem releLast (h : Shared s) {t : Nat} {v : Int} (hpc : s.pc t = .releWrite v)
    (hmax : ((s.owners.erase t).length : Int) ≤ INT_MAX) (he : s.owners.erase t = []) :
    Final (touch s t .write { s.goto t .lastUnlock with
      fCount := intAdd v (-1), owners := s.owners.erase t, last := some t }) t := by
  have ht : (s.pc t).inside = true := by rw [hpc]; rfl
  rw [touch_eq (by simp [allows, h.life])]
  refine ⟨he, h.fault, rfl, ?_, fun u hu => (Function.update_of_ne hu _ _).trans ?_,
    .unlock (Function.update_self _ _ _) h.life (h.inside t ht) (h.log.cons (by simp) (by simp))⟩
  · show intAdd v (-1) = 0
    rw [(h.releValue hpc hmax).2, he]
    rfl
  · refine Pc.eq_idle (Bool.eq_false_iff.2 (fun hc => ?_)) (Bool.eq_false_iff.2 (fun hi => hu (h.alone ht hi)))
      (h.early u)
    have hmem := (List.mem_erase_of_ne hu).2 (h.caller u hc)
    rw [he] at hmem
    cases hmem

theorem go_inv (h : Shared s) {t : Nat} {s' : State} (hgo : go s t = some s')
    (hmax : (s'.owners.length : Int) ≤ INT_MAX) : Inv s' := by
  have hcaller := h.caller t
  have hinside := h.inside t
  have hearly := h.early t
  have hwrite : allows s t .write = true := by simp [allows, h.life]
  unfold go at hgo
  cases hpc : s.pc t with
  | idle =>
    rw [hpc] at hgo
    cases hgo
  | holdLock =>
    rw [hpc] at hgo hcaller
    obtain ⟨hfree, rfl⟩ := lock_some hgo
    exact .inr (.inl (h.lock hfree (hcaller rfl) rfl rfl))
  | holdRead =>
    rw [hpc] at hgo hcaller
    cases hgo
    refine .inr (.inl (h.read (by rw [hpc]; rfl) (hcaller rfl) rfl (fun v hv => ?_)))
    exact (Option.some.inj hv).symm
  | holdWrite v =>
    rw [hpc] at hgo
    cases hgo
    rw [touch_eq hwrite] at hmax
    refine .inr (.inl (h.holdWrite hpc ?_))
    simpa using hmax
  | holdUnlock =>
    rw [hpc] at hgo
    cases hgo
    exact .inr (.inl (h.unlock (by rw [hpc]; rfl)))
  | releLock =>
    rw [hpc] at hgo hcaller
    obtain ⟨hfree, rfl⟩ := lock_some hgo
    exact .inr (.inl (h.lock hfree (hcaller rfl) rfl rfl))
  | releRead =>
    rw [hpc] at hgo hcaller
    cases hgo
    refine .inr (.inl (h.read (by rw [hpc]; rfl) (hcaller rfl) rfl (fun v hv => ?_)))
    exact (Option.some.inj hv).symm
  | releWrite v =>
    rw [hpc] at hgo
    cases hgo
    rw [touch_eq hwrite] at hmax
    have hcount := (h.releValue hpc hmax).2
    by_cases he : s.owners.erase t = []
    · have hzero : intAdd v (-1) = 0 := by rw [hcount, he]; rfl
      rw [if_pos hzero, if_pos he]
      exact .inr (.inr ⟨t, h.releLast hpc hmax he⟩)
    · have hpos := List.length_pos_iff.2 he
      rw [if_neg (show intAdd v (-1) ≠ 0 by omega), if_neg he]
      exact .inr (.inl (h.releWrite hpc hmax he))
  | releUnlock =>
    rw [hpc] at hgo
    cases hgo
    exact .inr (.inl (h.unlock (by rw [hpc]; rfl)))
  | _ =>
    rw [hpc] at hearly
    cases hearly

end Shared

namespace Final

variable {s : State} {t : Nat}

theorem present (h : Final s t) : s.life ≠ .absent := by
  cases h.ending with
  | unlock _ hlife => simp [hlife]
  | destroy _ hlife => simp [hlife]
  | free _ hlife => simp [hlife]
  | done _ hlife => simp [hlife]

/-- Only the last thread goes on. -/
theorem go_eq (h : Final s t) {u : Nat} {s' : State} (hgo : go s u = some s') : u = t := by
  by_contra hu
  unfold go at hgo
  rw [h.alone u hu] at hgo
  cases hgo

theorem alone_goto (h : Final s t) (p : Pc) (u : Nat) (hu : u ≠ t) : Function.update s.pc t p u = .idle :=
  (Function.update_of_ne hu _ _).trans (h.alone u hu)

theorem go_inv (h : Final s t) {s' : State} (hgo : go s t = some s') : Final s' t := by
  unfold go at hgo
  cases h.ending with
  | unlock hpc hlife hlock hlog =>
    rw [hpc] at hgo
    cases hgo
    rw [touch_eq (by simp [allows, hlife, hlock])]
    exact ⟨h.owners, h.fault, h.last, h.counted, h.alone_goto _,
      .destroy (Function.update_self _ _ _) hlife rfl (hlog.cons (by simp) (by simp))⟩
  | destroy hpc hlife hlock hlog =>
    rw [hpc] at hgo
    cases hgo
    rw [touch_eq (by simp [allows, hlife, hlock])]
    exact ⟨h.owners, h.fault, h.last, h.counted, h.alone_goto _, .free (Function.update_self _ _ _) rfl s.log rfl hlog⟩
  | free hpc hlife rest hlog hrest =>
    rw [hpc] at hgo
    cases hgo
    rw [touch_eq (by simp [allows, hlife])]
    exact ⟨h.owners, h.fault, h.last, h.counted, h.alone_goto _,
      .done (Function.update_self _ _ _) rfl rest (by rw [hlog]) hrest⟩
  | done hpc hlife rest hlog hrest =>
    rw [hpc] at hgo
    cases hgo

end Final

/-! ## Every state of a run -/

theorem absent_init : Absent init := ⟨rfl, rfl, fun _ => rfl, rfl, rfl, rfl, rfl⟩

/-- `foo_alloc` gives its caller the one reference. -/
theorem Absent.fooAlloc {s : State} (h : Absent s) (t : Nat) (id : Int) (outcome : AllocOutcome) :
    Inv (fooAlloc s t id outcome) := by
  cases outcome with
  | granted =>
    have hidle : ∀ u, (Ch11PthreadMutex.fooAlloc s t id .granted).pc u = .idle := h.idle
    have hlog : (Ch11PthreadMutex.fooAlloc s t id .granted).log = [] := h.log
    refine .inr (.inl ⟨rfl, List.cons_ne_nil _ _, h.fault, h.last, fun x hx => ?_, rfl, fun u => ?_, fun u hu => ?_,
      fun u hu => ?_, fun u v hv => ?_⟩)
    · rw [hlog] at hx
      cases hx
    · rw [hidle u]
      rfl
    · rw [hidle u] at hu
      cases hu
    · rw [hidle u] at hu
      cases hu
    · rw [hidle u] at hv
      cases hv
  | mallocFails => exact .inl h
  | initFails => exact .inl h

theorem Inv.shared {s : State} (h : Inv s) {t : Nat} (ht : t ∈ s.owners) : Shared s := by
  rcases h with h | h | ⟨u, h⟩
  · rw [h.owners] at ht
    cases ht
  · exact h
  · rw [h.owners] at ht
    cases ht

theorem step_inv (s : State) (a : Action) (s' : State) (h : Inv s) (hok : countable s a = true)
    (hstep : step s a = some s') : Inv s' := by
  unfold countable at hok
  rw [hstep, Option.all_some, decide_eq_true_eq] at hok
  cases a with
  | fooAlloc t id outcome =>
    simp only [step] at hstep
    split at hstep
    · rename_i hlife
      cases hstep
      rcases h with h | h | ⟨u, h⟩
      · exact h.fooAlloc t id outcome
      · rw [h.life] at hlife
        cases hlife
      · exact absurd hlife h.present
    · cases hstep
  | fooHold t =>
    simp only [step] at hstep
    split at hstep
    · rename_i hcall
      cases hstep
      exact .inr (.inl ((h.shared hcall.2).call hcall.2 rfl rfl rfl))
    · cases hstep
  | fooRele t =>
    simp only [step] at hstep
    split at hstep
    · rename_i hcall
      cases hstep
      exact .inr (.inl ((h.shared hcall.2).call hcall.2 rfl rfl rfl))
    · cases hstep
  | give t u =>
    simp only [step] at hstep
    split at hstep
    · rename_i hcall
      cases hstep
      exact .inr (.inl ((h.shared hcall.2).give hcall.1 hcall.2))
    · cases hstep
  | go t =>
    simp only [step] at hstep
    rcases h with h | h | ⟨u, h⟩
    · unfold go at hstep
      rw [h.idle t] at hstep
      cases hstep
    · exact h.go_inv hstep hok
    · obtain rfl := h.go_eq hstep
      exact .inr (.inr ⟨t, h.go_inv hstep⟩)

/-- What holds of the object in every state. -/
structure Safe (s : State) : Prop where
  counted : s.fCount = s.owners.length
  /-- no touch that the object does not allow, so none after it is freed -/
  intact : s.fault = false
  /-- the last reference is given up once -/
  last : ∀ t, s.last = some t → s.owners = []
  /-- the touches that end the object come once, from the thread that gave up the last reference, and no touch after -/
  ending : Unended s.log ∨ ∃ t rest, s.last = some t ∧ Unended rest ∧
    (s.log = (t, .destroy) :: rest ∨ s.log = (t, .free) :: (t, .destroy) :: rest)
  /-- that thread never waits -/
  goes : ∀ t, s.last = some t → s.pc t ≠ .idle → (go s t).isSome = true
  /-- without references and calls there is no object -/
  ended : s.owners = [] → (∀ t, s.pc t = .idle) → s.life = .absent ∨
    s.life = .freed ∧ ∃ t rest, s.last = some t ∧ s.log = (t, .free) :: (t, .destroy) :: rest

theorem Absent.safe {s : State} (h : Absent s) : Safe s where
  counted := by rw [h.counted, h.owners]; rfl
  intact := h.fault
  last := fun _ _ => h.owners
  ending := .inl (fun x hx => by rw [h.log] at hx; cases hx)
  goes := fun t ht => by rw [h.last] at ht; cases ht
  ended := fun _ _ => .inl h.life

theorem Shared.safe {s : State} (h : Shared s) : Safe s where
  counted := h.counted
  intact := h.fault
  last := fun t ht => by rw [h.last] at ht; cases ht
  ending := .inl h.log
  goes := fun t ht => by rw [h.last] at ht; cases ht
  ended := fun he => absurd he h.owners

theorem Final.safe {s : State} {t : Nat} (h : Final s t) : Safe s where
  counted := by rw [h.counted, h.owners]; rfl
  intact := h.fault
  last := fun _ _ => h.owners
  ending := by
    cases h.ending with
    | unlock _ _ _ hlog => exact .inl hlog
    | destroy _ _ _ hlog => exact .inl hlog
    | free _ _ rest hlog hrest => exact .inr ⟨t, rest, h.last, hrest, .inl hlog⟩
    | done _ _ rest hlog hrest => exact .inr ⟨t, rest, h.last, hrest, .inr hlog⟩
  goes := fun u hu hpc => by
    rw [h.last] at hu
    obtain rfl := Option.some.inj hu
    unfold go
    cases h.ending with
    | unlock hp => rw [hp]; rfl
    | destroy hp => rw [hp]; rfl
    | free hp => rw [hp]; rfl
    | done hp => exact absurd hp hpc
  ended := fun _ hidle => by
    cases h.ending with
    | unlock hp => rw [hidle t] at hp; cases hp
    | destroy hp => rw [hidle t] at hp; cases hp
    | free hp => rw [hidle t] at hp; cases hp
    | done _ hlife rest hlog _ => exact .inr ⟨hlife, t, rest, h.last, hlog⟩

theorem Inv.safe {s : State} (h : Inv s) : Safe s := by
  rcases h with h | h | ⟨t, h⟩
  · exact h.safe
  · exact h.safe
  · exact h.safe

/-- **The object is counted, and freed once**, by the `foo_rele` that gives up the last reference, in every order of the
threads' steps. -/
theorem foo_counted (as : List Action) (s : State) (h : run (restrict countable step) as init = some s) : Safe s :=
  (restrict_inv Inv step_inv as init s (.inl absent_init) h).safe

/-- Two threads: one takes a second reference for the other, and both release. -/
def twoThreads : List Action :=
  [.fooAlloc 0 7 .granted, .fooHold 0, .go 0, .go 0, .go 0, .go 0, .give 0 1, .fooRele 1, .fooRele 0, .go 1, .go 1,
    .go 1, .go 1, .go 0, .go 0, .go 0, .go 0, .go 0, .go 0]

theorem foo_counted_twoThreads : ∃ s, run (restrict countable step) twoThreads init = some s ∧ s.life = .freed ∧ Safe s :=
  ⟨_, rfl, rfl, foo_counted twoThreads _ rfl⟩

/-! ## More references than an `int` counts -/

/-- `k` in an `int`. -/
def wrapped (k : Nat) : Int := (k : Int).bmod 4294967296

theorem intAdd_wrapped (k : Nat) : intAdd (wrapped k) 1 = wrapped (k + 1) := by
  unfold intAdd wrapped
  rw [Int.bmod_add_bmod, Int.natCast_add]
  rfl

/-- All threads outside calls. -/
def quiet (id c : Int) (owners : List Nat) (log : List (Nat × Touch)) : State :=
  ⟨.live, c, none, id, owners, fun _ => .idle, none, log, false⟩

/-- One more call of `foo_hold`. -/
theorem hold_once (id c : Int) {owners : List Nat} (h : 0 ∈ owners) (log : List (Nat × Touch)) :
    ∃ log', Reach step (quiet id c owners log) (quiet id (intAdd c 1) (0 :: owners) log') := by
  refine ⟨(0, .unlock) :: (0, .write) :: (0, .read) :: (0, .lock) :: log,
    [.fooHold 0, .go 0, .go 0, .go 0, .go 0], ?_⟩
  generalize hc : intAdd c 1 = c'
  simp [run, step, quiet, State.goto, go, lock, unlock, touch, allows, h, hc]

theorem holds (id : Int) : ∀ k, ∃ log, Reach step init (quiet id (wrapped (k + 1)) (List.replicate (k + 1) 0) log)
  | 0 => ⟨[], .of_step (a := .fooAlloc 0 id .granted) rfl⟩
  | k + 1 => by
    obtain ⟨log, h⟩ := holds id k
    obtain ⟨log', h'⟩ := hold_once id (wrapped (k + 1)) (List.mem_replicate.2 ⟨Nat.succ_ne_zero k, rfl⟩) log
    rw [intAdd_wrapped] at h'
    exact ⟨log', h.trans h'⟩

/-- **The reference after the last that an `int` counts**: `f_count` is negative. -/
theorem foo_miscounted : ∃ as s, run step as init = some s ∧ s.fLock = none ∧ (∀ t, s.pc t = .idle) ∧
    s.owners.length = 2147483648 ∧ s.fCount = -2147483648 := by
  obtain ⟨log, as, h⟩ := holds 0 2147483647
  have hwrapped : wrapped (2147483647 + 1) = -2147483648 := by decide
  exact ⟨as, _, h, rfl, fun _ => rfl, List.length_replicate, hwrapped⟩

end Ch11PthreadMutex
end Cc
