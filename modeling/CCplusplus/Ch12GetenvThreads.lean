import Mathlib.Data.List.Nodup
import Mathlib.Logic.Function.Basic
import CCplusplus.Lib.Machine
import CCplusplus.Ch12Getenv
/-!
# Ch12GetenvThreads — the buffers of `getenv`, thread by thread

An action is the next step of a thread in `getenv`, the start of a call, the end of a thread, or what the program does
with its memory.  `getenv` looks for the thread's buffer under `key` and never puts one there.  A block that `malloc`
gives to a call is lost when the call comes back: the next call of the thread asks for another one, and the destructor
of `key` is not called.  So the threads own their buffers exactly as long as no call has come back with one
(`getenv_owned_iff`), and a block that is lost is never freed (`run_leaks`).
-/
namespace Cc
namespace Ch12Getenv

open CLib

inductive Pc where
  | idle
  | once (name : CStr)
  | lock (name : CStr)
  | getspecific (name : CStr)
  | search (name : CStr) (envbuf : Ptr)
  | ended

structure Threads where
  world : World
  /-- the state of `init_done` -/
  created : Bool
  pc : Nat → Pc
  /-- what `malloc` gave to calls, and to which threads -/
  allocs : List (Nat × Ptr)
  /-- what the destructor was called with, and for which threads -/
  freed : List (Nat × Ptr)

def Threads.goto (s : Threads) (t : Nat) (pc : Pc) : Threads := { s with pc := Function.update s.pc t pc }

inductive Act where
  | call (t : Nat) (name : CStr)
  | go (t : Nat) (environ : List CStr)
  | exit (t : Nat)
  /-- the rest of the program goes on, and does not free what it does not own -/
  | use (m : Mem)

/-- The next step of a thread in `getenv`, in the environment of that time. -/
def go (s : Threads) (t : Nat) (environ : List CStr) : Option Threads :=
  match s.pc t with
  | .idle | .ended => none
  | .once name =>
    if s.created then some (s.goto t (.lock name))
    else some { s.goto t (.lock name) with created := true, world := { s.world with specific := fun _ => none } }
  | .lock name =>
    match Ch12Getenv.lock s.world with
    | .ok w => some { s.goto t (.getspecific name) with world := w }
    | .error _ => none
  | .getspecific name =>
    match s.world.specific t with
    | some envbuf => some (s.goto t (.search name envbuf))
    | none =>
      match s.world.mem.malloc MAXSTRINGSZ with
      | (none, m) => some { s.goto t .idle with world := unlock { s.world with mem := m } }
      | (some envbuf, m) =>
        some { s.goto t (.search name envbuf) with
          world := { s.world with mem := m }
          allocs := (t, envbuf) :: s.allocs }
  | .search name envbuf =>
    match getenvFrom s.world envbuf name.val (asInt name.val.length) environ 0 with
    | .ok (w, _) => some { s.goto t .idle with world := w }
    | .error _ => none

/-- A thread ends, and the destructor of `key` is called with the thread's value if there is one. -/
def exit (s : Threads) (t : Nat) : Option Threads :=
  match s.world.specific t with
  | none => some (s.goto t .ended)
  | some p =>
    match s.world.mem.free p with
    | .ok m =>
      some { s.goto t .ended with
        world := { s.world with mem := m, specific := Function.update s.world.specific t none }
        freed := (t, p) :: s.freed }
    | .error _ => none

def step (s : Threads) : Act → Option Threads
  | .call t name =>
    match s.pc t with
    | .idle => some (s.goto t (.once name))
    | _ => none
  | .go t environ => go s t environ
  | .exit t =>
    match s.pc t with
    | .idle => exit s t
    | _ => none
  | .use m =>
    if ∀ a ∈ s.allocs, m.size a.2.block = s.world.mem.size a.2.block then
      some { s with world := { s.world with mem := m } }
    else none

def start (m : Mem) : Threads := ⟨⟨m, false, fun _ => none⟩, false, fun _ => .idle, [], []⟩

/-- **The buffers are the threads' own**: a thread is given one at most, which is its value of `key` once the call that
was given it has come back, calls work on the thread's buffer, no two threads have the same, and it is freed when the
thread ends. -/
structure Owned (s : Threads) : Prop where
  once : (s.allocs.map Prod.fst).Nodup
  key : ∀ t p, (t, p) ∈ s.allocs → (∀ name, s.pc t ≠ .search name p) → s.pc t ≠ .ended → s.world.specific t = some p
  reuse : ∀ t p q name, (t, p) ∈ s.allocs → s.pc t = .search name q → q = p
  apart : ∀ t u p, (t, p) ∈ s.allocs → (u, p) ∈ s.allocs → t = u
  freed : ∀ t p, (t, p) ∈ s.allocs → s.pc t = .ended → (t, p) ∈ s.freed

/-- The step is no return of a call that works on a buffer. -/
def keeps (s : Threads) : Act → Bool
  | .go t _ =>
    match s.pc t with
    | .search _ _ => false
    | _ => true
  | _ => true

/-! ## What a step can do -/

def Pc.searching : Pc → Bool
  | .search _ _ => true
  | _ => false

/-- No thread's key is set, and the blocks that were given to calls are all there, each a block of its own. -/
structure Inv (s : Threads) : Prop where
  unset : ∀ t, s.world.specific t = none
  live : ∀ a ∈ s.allocs, a.2.off = 0 ∧ s.world.mem.size a.2.block = some MAXSTRINGSZ
  search : ∀ t name p, s.pc t = .search name p → (t, p) ∈ s.allocs
  nodup : (s.allocs.map (fun a => a.2.block)).Nodup
  freed : s.freed = []

/-- No call is given a block, and none comes back with one. -/
structure Quiet (s s' : Threads) : Prop where
  allocs : s'.allocs = s.allocs
  freed : s'.freed = s.freed
  unset : ∀ t, s'.world.specific t = none
  live : ∀ a ∈ s.allocs, s'.world.mem.size a.2.block = s.world.mem.size a.2.block
  pc : ∀ u, s'.pc u = s.pc u ∨ ((s.pc u).searching = false ∧ (s'.pc u).searching = false)

structure Granted (s s' : Threads) (t : Nat) (p : Ptr) : Prop where
  searching : (s.pc t).searching = false
  allocs : s'.allocs = (t, p) :: s.allocs
  freed : s'.freed = s.freed
  unset : ∀ t, s'.world.specific t = none
  new : p.off = 0 ∧ s.world.mem.size p.block = none ∧ s'.world.mem.size p.block = some MAXSTRINGSZ
  live : ∀ a ∈ s.allocs, a.2.block ≠ p.block → s'.world.mem.size a.2.block = s.world.mem.size a.2.block
  pc : ∃ name, s'.pc = Function.update s.pc t (.search name p)

/-- A call comes back that has worked on a block. -/
structure Returned (s s' : Threads) (t : Nat) (p : Ptr) : Prop where
  was : ∃ name, s.pc t = .search name p
  allocs : s'.allocs = s.allocs
  freed : s'.freed = s.freed
  unset : ∀ t, s'.world.specific t = none
  live : s'.world.mem.size = s.world.mem.size
  pc : s'.pc = Function.update s.pc t .idle

section Step

variable {s s' : Threads} {t : Nat} {environ : List CStr}

theorem quiet_goto {pc : Pc} (hwas : (s.pc t).searching = false)
    (hpc : pc.searching = false) (hs : s'.pc = Function.update s.pc t pc) (hallocs : s'.allocs = s.allocs)
    (hfreed : s'.freed = s.freed) (hunset : ∀ t, s'.world.specific t = none)
    (hlive : ∀ a ∈ s.allocs, s'.world.mem.size a.2.block = s.world.mem.size a.2.block) : Quiet s s' := by
  refine ⟨hallocs, hfreed, hunset, hlive, fun u => ?_⟩
  rw [hs]
  by_cases hut : u = t
  · rw [hut, Function.update_self]
    exact .inr ⟨hwas, hpc⟩
  · rw [Function.update_of_ne hut]
    exact .inl rfl

theorem getenvFrom_size {w : World} {envbuf : Ptr} {name : List UInt8} (len : Int)
    (hvalid : w.mem.valid envbuf (MAXSTRINGSZ - 1) = true) : ∀ (environ : List CStr) (i : Int) {w' : World}
    {r : Option Ptr}, getenvFrom w envbuf name len environ i = .ok (w', r) → w'.mem.size = w.mem.size
  | [], _, _, _, h => by
    cases h
    rfl
  | entry :: environ, i, w', r, h => by
    unfold getenvFrom at h
    cases hentry : isEntryOf name len entry.val with
    | error e =>
      rw [hentry] at h
      cases h
    | ok found =>
      rw [hentry, ok_bind] at h
      split at h
      · cases hvalue : stringAt entry.val (intAdd len 1) with
        | error e =>
          rw [hvalue] at h
          cases h
        | ok value =>
          obtain ⟨m, hcpy, -, hsame⟩ := Mem.strncpy_ok (s := value) hvalid
          rw [hvalue, ok_bind, hcpy, ok_bind] at h
          cases h
          exact hsame.size
      · split at h
        · exact getenvFrom_size len hvalid environ (i + 1) h
        · cases h

theorem go_cases (h : Inv s) (hs : go s t environ = some s') :
    Quiet s s' ∧ (s.pc t).searching = false ∨ (∃ p, Granted s s' t p) ∨ ∃ p, Returned s s' t p := by
  have hunset := h.unset
  unfold go at hs
  cases hpc : s.pc t with
  | idle | ended =>
    rw [hpc] at hs
    cases hs
  | once name =>
    rw [hpc] at hs
    dsimp only at hs
    have hwas : (s.pc t).searching = false := by rw [hpc]; rfl
    split at hs
    · cases hs
      exact .inl ⟨quiet_goto hwas rfl rfl rfl rfl hunset (fun _ _ => rfl), rfl⟩
    · cases hs
      exact .inl ⟨quiet_goto hwas rfl rfl rfl rfl (fun _ => rfl) (fun _ _ => rfl), rfl⟩
  | lock name =>
    rw [hpc] at hs
    unfold Ch12Getenv.lock at hs
    have hwas : (s.pc t).searching = false := by rw [hpc]; rfl
    by_cases hlocked : s.world.locked = true
    · simp only [if_pos hlocked] at hs
      cases hs
    · simp only [if_neg hlocked] at hs
      cases hs
      exact .inl ⟨quiet_goto hwas rfl rfl rfl rfl hunset (fun _ _ => rfl), rfl⟩
  | getspecific name =>
    rw [hpc] at hs
    dsimp only at hs
    rw [hunset t] at hs
    have hwas : (s.pc t).searching = false := by rw [hpc]; rfl
    cases hos : s.world.mem.os s.world.mem.next with
    | refuse =>
      simp only [Mem.malloc, hos] at hs
      cases hs
      exact .inl ⟨quiet_goto hwas rfl rfl rfl rfl hunset (fun _ _ => rfl), rfl⟩
    | grant junk inPlace =>
      obtain ⟨m, hm, halloc, -⟩ := Mem.malloc_grant hos MAXSTRINGSZ
      simp only [hm] at hs
      cases hs
      exact .inr (.inl ⟨_, hwas, rfl, rfl, hunset,
        ⟨rfl, s.world.mem.fresh _ (Nat.le_refl _), halloc.new⟩, fun a _ hne => halloc.old _ hne, name, rfl⟩)
  | search name p =>
    obtain ⟨hoff, hsize⟩ := h.live (t, p) (h.search t name p hpc)
    have hvalid : s.world.mem.valid p (MAXSTRINGSZ - 1) = true :=
      (Mem.valid_iff _ _ _).2 ⟨_, hsize, Int.le_of_eq hoff.symm, by rw [hoff]; decide⟩
    rw [hpc] at hs
    dsimp only at hs
    split at hs
    · rename_i w r hrun
      cases hs
      exact .inr (.inr ⟨p, ⟨name, hpc⟩, rfl, rfl, fun u => (congrFun (getenvFrom_kept _ environ 0 hrun).2 u).trans (hunset u),
        getenvFrom_size _ hvalid environ 0 hrun, rfl⟩)
    · cases hs

/-- **What a step can do**: one of the three, and it is a return exactly if it is not one that keeps the buffers. -/
theorem step_cases {a : Act} (h : Inv s) (hs : step s a = some s') :
    (Quiet s s' ∧ keeps s a = true) ∨ (∃ t p, Granted s s' t p ∧ keeps s a = true) ∨
      ∃ t p, Returned s s' t p ∧ keeps s a = false := by
  have hkeeps : ∀ {t : Nat} {environ : List CStr}, keeps s (.go t environ) = !(s.pc t).searching := by
    intro t environ
    unfold keeps Pc.searching
    dsimp only
    split <;> rfl
  cases a with
  | call t name =>
    unfold step at hs
    dsimp only at hs
    split at hs
    · rename_i hpc
      cases hs
      exact .inl ⟨quiet_goto (by rw [hpc]; rfl) rfl rfl rfl rfl h.unset (fun _ _ => rfl), rfl⟩
    · cases hs
  | go t environ =>
    rw [hkeeps]
    rcases go_cases h hs with ⟨hquiet, hwas⟩ | ⟨p, hgranted⟩ | ⟨p, hreturned⟩
    · exact .inl ⟨hquiet, by rw [hwas]; rfl⟩
    · exact .inr (.inl ⟨t, p, hgranted, by rw [hgranted.searching]; rfl⟩)
    · obtain ⟨name, hwas⟩ := hreturned.was
      exact .inr (.inr ⟨t, p, hreturned, by rw [hwas]; rfl⟩)
  | exit t =>
    unfold step exit at hs
    dsimp only at hs
    split at hs
    · rename_i hpc
      rw [h.unset t] at hs
      cases hs
      exact .inl ⟨quiet_goto (by rw [hpc]; rfl) rfl rfl rfl rfl h.unset (fun _ _ => rfl), rfl⟩
    · cases hs
  | use m =>
    unfold step at hs
    dsimp only at hs
    split at hs
    · rename_i hm
      cases hs
      exact .inl ⟨⟨rfl, rfl, h.unset, hm, fun _ => .inl rfl⟩, rfl⟩
    · cases hs

end Step

/-! ## Runs -/

theorem inv_start (m : Mem) : Inv (start m) where
  unset := fun _ => rfl
  live := fun a ha => by cases ha
  search := fun t name p h => by cases h
  nodup := .nil
  freed := rfl

section Run

variable {s s' : Threads} {t : Nat} {p : Ptr}

theorem Inv.quiet (h : Inv s) (hq : Quiet s s') : Inv s' where
  unset := hq.unset
  live := by
    intro a ha
    rw [hq.allocs] at ha
    rw [hq.live a ha]
    exact h.live a ha
  search := by
    intro u name q hpc
    rw [hq.allocs]
    rcases hq.pc u with hsame | ⟨-, hnot⟩
    · exact h.search u name q (hsame.symm.trans hpc)
    · rw [hpc] at hnot
      cases hnot
  nodup := by
    rw [hq.allocs]
    exact h.nodup
  freed := hq.freed.trans h.freed

theorem Inv.granted (h : Inv s) (hg : Granted s s' t p) : Inv s' := by
  obtain ⟨name, hpc⟩ := hg.pc
  have hne : ∀ a ∈ s.allocs, a.2.block ≠ p.block := by
    intro a ha hblock
    have hsize := (h.live a ha).2
    rw [hblock, hg.new.2.1] at hsize
    cases hsize
  refine ⟨hg.unset, fun a ha => ?_, fun u name' q hu => ?_, ?_, hg.freed.trans h.freed⟩
  · rw [hg.allocs] at ha
    rcases List.mem_cons.1 ha with rfl | ha
    · exact ⟨hg.new.1, hg.new.2.2⟩
    · rw [hg.live a ha (hne a ha)]
      exact h.live a ha
  · rw [hpc] at hu
    rw [hg.allocs]
    by_cases hut : u = t
    · rw [hut, Function.update_self] at hu
      cases hu
      rw [hut]
      exact List.mem_cons_self
    · rw [Function.update_of_ne hut] at hu
      exact List.mem_cons_of_mem _ (h.search u name' q hu)
  · rw [hg.allocs, List.map_cons, List.nodup_cons]
    refine ⟨fun hmem => ?_, h.nodup⟩
    obtain ⟨a, ha, hblock⟩ := List.mem_map.1 hmem
    exact hne a ha hblock

theorem Inv.returned (h : Inv s) (hr : Returned s s' t p) : Inv s' := by
  refine ⟨hr.unset, fun a ha => ?_, fun u name q hu => ?_, ?_, hr.freed.trans h.freed⟩
  · rw [hr.allocs] at ha
    rw [hr.live]
    exact h.live a ha
  · rw [hr.pc] at hu
    rw [hr.allocs]
    by_cases hut : u = t
    · rw [hut, Function.update_self] at hu
      cases hu
    · rw [Function.update_of_ne hut] at hu
      exact h.search u name q hu
  · rw [hr.allocs]
    exact h.nodup

theorem step_inv {a : Act} (h : Inv s) (hs : step s a = some s') : Inv s' := by
  rcases step_cases h hs with ⟨hq, -⟩ | ⟨t, p, hg, -⟩ | ⟨t, p, hr, -⟩
  · exact h.quiet hq
  · exact h.granted hg
  · exact h.returned hr

/-- Every block that was given to a call is one that the call still works on. -/
def Held (s : Threads) : Prop := ∀ t p, (t, p) ∈ s.allocs → ∃ name, s.pc t = .search name p

/-- **The buffers are owned exactly where none has come back.** -/
theorem Inv.owned_iff (h : Inv s) : Owned s ↔ Held s := by
  constructor
  · intro howned t p ha
    by_contra hnot
    have hsearch : ∀ name, s.pc t ≠ .search name p := fun name hpc => hnot ⟨name, hpc⟩
    by_cases hended : s.pc t = .ended
    · have hfreed := howned.freed t p ha hended
      rw [h.freed] at hfreed
      cases hfreed
    · cases (h.unset t).symm.trans (howned.key t p ha hsearch hended)
  · intro hheld
    refine ⟨?_, fun t p ha hsearch => ?_, fun t p q name ha hpc => ?_, fun t u p ht hu => ?_, fun t p ha hended => ?_⟩
    · refine List.pairwise_map.2 (List.Pairwise.imp_of_mem (fun {a b} ha hb hne hab => ?_) (List.pairwise_map.1 h.nodup))
      obtain ⟨name, hpc⟩ := hheld a.1 a.2 ha
      obtain ⟨name', hpc'⟩ := hheld b.1 b.2 hb
      rw [hab, hpc'] at hpc
      exact hne (congrArg Ptr.block (Pc.search.inj hpc).2.symm)
    · obtain ⟨name, hpc⟩ := hheld t p ha
      exact absurd hpc (hsearch name)
    · obtain ⟨name', hpc'⟩ := hheld t p ha
      cases hpc.symm.trans hpc'
      rfl
    · exact congrArg Prod.fst (List.inj_on_of_nodup_map h.nodup ht hu rfl)
    · obtain ⟨name, hpc⟩ := hheld t p ha
      cases hended.symm.trans hpc

theorem held_step {a : Act} (h : Inv s) (hheld : Held s) (hs : step s a = some s') : Held s' ↔ keeps s a = true := by
  rcases step_cases h hs with ⟨hq, hkeeps⟩ | ⟨t, p, hg, hkeeps⟩ | ⟨t, p, hr, hkeeps⟩
  · refine ⟨fun _ => hkeeps, fun _ u q ha => ?_⟩
    rw [hq.allocs] at ha
    obtain ⟨name, hpc⟩ := hheld u q ha
    rcases hq.pc u with hsame | ⟨hnot, -⟩
    · exact ⟨name, hsame.trans hpc⟩
    · rw [hpc] at hnot
      cases hnot
  · obtain ⟨name, hpc⟩ := hg.pc
    refine ⟨fun _ => hkeeps, fun _ u q ha => ?_⟩
    rw [hg.allocs] at ha
    rw [hpc]
    rcases List.mem_cons.1 ha with heq | ha
    · cases heq
      exact ⟨name, Function.update_self t _ _⟩
    · obtain ⟨name', hpc'⟩ := hheld u q ha
      have hut : u ≠ t := by
        rintro rfl
        have hnot := hg.searching
        rw [hpc'] at hnot
        cases hnot
      exact ⟨name', (Function.update_of_ne hut _ _).trans hpc'⟩
  · rw [hkeeps]
    obtain ⟨name, hwas⟩ := hr.was
    refine ⟨fun hheld' => ?_, fun hfalse => by cases hfalse⟩
    obtain ⟨name', hpc⟩ := hheld' t p (by rw [hr.allocs]; exact h.search t name p hwas)
    rw [hr.pc, Function.update_self] at hpc
    cases hpc

/-- A block that has come back once is held no more. -/
theorem lost_step {a : Act} (h : Inv s) (hlost : ¬ Held s) (hs : step s a = some s') : ¬ Held s' := by
  refine fun hheld' => hlost (fun u q ha => ?_)
  rcases step_cases h hs with ⟨hq, -⟩ | ⟨t, p, hg, -⟩ | ⟨t, p, hr, -⟩
  · obtain ⟨name, hpc⟩ := hheld' u q (by rw [hq.allocs]; exact ha)
    rcases hq.pc u with hsame | ⟨-, hnot⟩
    · exact ⟨name, hsame.symm.trans hpc⟩
    · rw [hpc] at hnot
      cases hnot
  · obtain ⟨name, hpc⟩ := hheld' u q (by rw [hg.allocs]; exact List.mem_cons_of_mem _ ha)
    obtain ⟨name', hnew⟩ := hg.pc
    rw [hnew] at hpc
    by_cases hut : u = t
    · -- the new block would be an old one
      rw [hut, Function.update_self] at hpc
      cases hpc
      cases hg.new.2.1.symm.trans (h.live (u, q) ha).2
    · rw [Function.update_of_ne hut] at hpc
      exact ⟨name, hpc⟩
  · obtain ⟨name, hpc⟩ := hheld' u q (by rw [hr.allocs]; exact ha)
    rw [hr.pc] at hpc
    by_cases hut : u = t
    · rw [hut, Function.update_self] at hpc
      cases hpc
    · rw [Function.update_of_ne hut] at hpc
      exact ⟨name, hpc⟩

end Run

theorem held_start (m : Mem) : Held (start m) := fun t p ha => by cases ha

/-- **In every run the threads own their buffers exactly as long as no call has come back that worked on one.** -/
theorem getenv_owned_iff (m : Mem) (as : List Act) (s : Threads) (h : run step as (start m) = some s) :
    Owned s ↔ run (restrict keeps step) as (start m) = some s := by
  have hinv : Inv s := run_inv Inv (fun _ _ _ => step_inv) as _ s (inv_start m) h
  rw [hinv.owned_iff]
  exact restrict_iff (fun _ _ _ => step_inv) (fun _ _ _ => held_step) (fun _ _ _ => lost_step) as _ s (inv_start m)
    (held_start m) h

/-- **Nothing that was given to a call is ever freed.** -/
theorem run_leaks {m : Mem} {as : List Act} {s : Threads} (h : run step as (start m) = some s) :
    s.freed = [] ∧ ∀ a ∈ s.allocs, s.world.mem.size a.2.block = some MAXSTRINGSZ := by
  have hinv : Inv s := run_inv Inv (fun _ _ _ => step_inv) as _ s (inv_start m) h
  exact ⟨hinv.freed, fun a ha => (hinv.live a ha).2⟩

/-- A call by a thread for the name `A`, in an environment without it. -/
def callFor (t : Nat) : List Act := [.call t ⟨[65], by decide⟩, .go t [], .go t [], .go t [], .go t []]

/-- Two threads in the loop, one that `malloc` has given a block and one that waits for the mutex. -/
def twoCalls : List Act :=
  [.call 0 ⟨[65], by decide⟩, .call 1 ⟨[65], by decide⟩, .go 0 [], .go 1 [], .go 0 [], .go 0 []]

theorem getenv_owned_twoCalls : ∃ s, run step twoCalls (start filled) = some s ∧ s.allocs = [(0, ⟨1, 0⟩)] ∧
    (Owned s ↔ run (restrict keeps step) twoCalls (start filled) = some s) :=
  ⟨_, rfl, rfl, getenv_owned_iff filled twoCalls _ rfl⟩

/-- **Two calls and the end of a thread**: two blocks, and none of them freed. -/
theorem getenv_disowned : ∃ s, run step (callFor 0 ++ callFor 0 ++ [.exit 0]) (start filled) = some s ∧
    s.allocs = [(0, ⟨2, 0⟩), (0, ⟨1, 0⟩)] ∧ s.freed = [] ∧ ¬ Owned s :=
  ⟨_, rfl, rfl, rfl, fun h => absurd h.once (by decide)⟩

end Ch12Getenv
end Cc
