import CCplusplus.Semaph
/-!
# SemaphCounts — the lock and the counter of a semaphore

What the processes would give back of the lock and of the counter says who holds the lock and who has the semaphore open,
so the totals of the set, which every `semop` and the end of every process keep, tie the two members to the processes
(`Counted`).  In every run that closes only what is open, and in which fewer than `BIGCOUNT` are open at a time, one
process at most is behind the lock, and the counter says how many have the semaphore open (`semaph_counts`).
-/
namespace Cc
namespace Semaph

open CLib

variable {P : Type}

/-- Where a process is, behind the lock of one semaphore: before it has read the counter, with a counter that is not set
yet, or with one that is. -/
inductive Region where
  | out
  | plain
  | blank
  | ready
deriving DecidableEq, Repr

/-- What a process holds of the lock. -/
def Region.held : Region → Int
  | .out => 0
  | _ => 1

theorem Region.held_eq_zero : ∀ {r : Region}, r.held = 0 ↔ r = .out
  | .out => by simp [held]
  | .plain => by simp [held]
  | .blank => by simp [held]
  | .ready => by simp [held]

theorem Region.held_bounds : ∀ r : Region, 0 ≤ r.held ∧ r.held ≤ 1
  | .out => by decide
  | .plain => by decide
  | .blank => by decide
  | .ready => by decide

def region : Pc → Nat → Region
  | .createGetval _ i, id => if i = id then .plain else .out
  | .createSet0 _ i, id => if i = id then .blank else .out
  | .createSet1 i, id => if i = id then .blank else .out
  | .createEnd i, id => if i = id then .ready else .out
  | .closeGetval i, id => if i = id then .ready else .out
  | .closeRm i, id => if i = id then .ready else .out
  | .closeUnlock i, id => if i = id then .ready else .out
  | _, _ => .out

variable [Fintype P]

/-- The lock and the counter of a set, beside where the processes are and what they have open. -/
structure Counted (S : SemSet P (Fin 3)) (reg : P → Region) (ref : P → Nat) : Prop where
  lockAdj : ∀ p, S.adj p 2 = -(reg p).held
  lockTotal : S.total 2 = 0
  lockLe : S.val 2 ≤ 1
  refAdj : ∀ p, S.adj p 1 = ref p
  refTotal : S.total 1 = 0 ∨ S.total 1 = BIGCOUNT
  blank : ∀ p, reg p = .blank → S.total 1 = 0
  ready : ∀ p, reg p = .ready → S.total 1 = BIGCOUNT

namespace Counted

variable {S S' : SemSet P (Fin 3)} {reg : P → Region} {ref : P → Nat} {p q : P}

theorem bigCount_pos : 0 < BIGCOUNT := by decide

theorem bigCount_le : BIGCOUNT + 3 ≤ SemSet.SEMVMX := by decide

theorem total_le (h : Counted S reg ref) : S.total 1 ≤ BIGCOUNT := by
  rcases h.refTotal with htotal | htotal
  · rw [htotal]
    exact Int.natCast_nonneg _
  · exact htotal.le

theorem counter (h : Counted S reg ref) : (S.val 1 : Int) + (∑ q, ref q : Nat) = S.total 1 := by
  unfold SemSet.total
  rw [Finset.sum_congr rfl (fun q _ => h.refAdj q), Nat.cast_sum]

theorem ref_le (h : Counted S reg ref) (p : P) : (S.val 1 : Int) + ref p ≤ S.total 1 := by
  have hle : ref p ≤ ∑ q, ref q := Finset.single_le_sum (fun q _ => Nat.zero_le (ref q)) (Finset.mem_univ p)
  have := h.counter
  omega

/-- What a process has open is counted. -/
theorem total_of_open (h : Counted S reg ref) (hp : 0 < ref p) : S.total 1 = BIGCOUNT := by
  have hle := h.ref_le p
  exact h.refTotal.resolve_left (fun h0 => by omega)

/-- The lock is worth what is held of it. -/
theorem lock_eq (h : Counted S reg ref) : (S.val 2 : Int) = ∑ q, (reg q).held := by
  have htotal := h.lockTotal
  unfold SemSet.total at htotal
  rw [Finset.sum_congr rfl (fun q _ => h.lockAdj q), Finset.sum_neg_distrib] at htotal
  omega

theorem held_le (h : Counted S reg ref) (p : P) : (reg p).held ≤ S.val 2 := by
  rw [h.lock_eq]
  exact Finset.single_le_sum (fun q _ => (reg q).held_bounds.1) (Finset.mem_univ p)

/-- The lock is held as long as a process is behind it. -/
theorem locked_iff (h : Counted S reg ref) : S.val 2 = 1 ↔ ∃ p, reg p ≠ .out := by
  constructor
  · intro hone
    by_contra hall
    simp only [not_exists, not_not] at hall
    have hlock := h.lock_eq
    rw [Finset.sum_congr rfl (fun q _ => Region.held_eq_zero.2 (hall q)), Finset.sum_const_zero] at hlock
    omega
  · rintro ⟨p, hp⟩
    have hne : (reg p).held ≠ 0 := fun h0 => hp (Region.held_eq_zero.1 h0)
    have hbounds := (reg p).held_bounds
    have hle := h.held_le p
    have := h.lockLe
    omega

/-- The counter is 0 only where it was not set. -/
theorem value_zero (h : Counted S reg ref) (hfew : ∑ q, ref q < BIGCOUNT) : S.val 1 = 0 ↔ S.total 1 = 0 := by
  have hcounter := h.counter
  rcases h.refTotal with htotal | htotal
  · simp only [htotal, iff_true]
    omega
  · have := bigCount_pos
    omega

/-- `SETVAL` of the value. -/
theorem set0 (h : Counted S reg ref) (v : Nat) : Counted (S.setval 0 v) reg ref := by
  have h1 : (S.setval 0 v).total 1 = S.total 1 := S.total_setval_of_ne (by decide) v
  have h2 : (S.setval 0 v).total 2 = S.total 2 := S.total_setval_of_ne (by decide) v
  exact ⟨h.lockAdj, h2.trans h.lockTotal, h.lockLe, h.refAdj, h1 ▸ h.refTotal, h1 ▸ h.blank, h1 ▸ h.ready⟩

variable [DecidableEq P]

/-- **One process at most is behind the lock.** -/
theorem exclusive (h : Counted S reg ref) (hp : reg p ≠ .out) (hq : reg q ≠ .out) : p = q := by
  by_contra hne
  have hle : ∑ x ∈ {p, q}, (reg x).held ≤ ∑ x, (reg x).held :=
    Finset.sum_le_sum_of_subset_of_nonneg (Finset.subset_univ _) (fun x _ _ => (reg x).held_bounds.1)
  rw [Finset.sum_pair hne, ← h.lock_eq] at hle
  have hp0 : (reg p).held ≠ 0 := fun h0 => hp (Region.held_eq_zero.1 h0)
  have hq0 : (reg q).held ≠ 0 := fun h0 => hq (Region.held_eq_zero.1 h0)
  have hpb := (reg p).held_bounds
  have hqb := (reg q).held_bounds
  have := h.lockLe
  omega

/-! ### What a step does to the set -/

/-- A process moves the lock by what its place says, and the counter by what it has open. -/
theorem moved (h : Counted S reg ref) {d₁ d₂ : Int} (h₁ : S.Moved p 1 d₁ S') (h₂ : S.Moved p 2 d₂ S') {r : Region} {n : Nat}
    (hle : S.val 2 + d₂ ≤ 1) (hr : r.held = (reg p).held + d₂)
    (hn : (n : Int) = ref p - d₁) (hblank : r = .blank → S.total 1 = 0) (hready : r = .ready → S.total 1 = BIGCOUNT) :
    Counted S' (Function.update reg p r) (Function.update ref p n) where
  lockAdj := fun q => by
    rw [h₂.adj, h.lockAdj]
    by_cases hq : q = p
    · subst hq
      rw [if_pos rfl, Function.update_self, hr]
      omega
    · rw [if_neg hq, Function.update_of_ne hq]
  lockTotal := h₂.total.trans h.lockTotal
  lockLe := by
    have := h₂.val
    omega
  refAdj := fun q => by
    rw [h₁.adj, h.refAdj]
    by_cases hq : q = p
    · subst hq
      rw [if_pos rfl, Function.update_self, hn]
    · rw [if_neg hq, Function.update_of_ne hq]
  refTotal := by
    rw [h₁.total]
    exact h.refTotal
  blank := fun q hq => by
    rw [h₁.total]
    by_cases hqp : q = p
    · subst hqp
      rw [Function.update_self] at hq
      exact hblank hq
    · rw [Function.update_of_ne hqp] at hq
      exact h.blank q hq
  ready := fun q hq => by
    rw [h₁.total]
    by_cases hqp : q = p
    · subst hqp
      rw [Function.update_self] at hq
      exact hready hq
    · rw [Function.update_of_ne hqp] at hq
      exact h.ready q hq

/-- Only the place of a process changes. -/
theorem goto (h : Counted S reg ref) {r : Region} (hr : r.held = (reg p).held) (hblank : r = .blank → S.total 1 = 0)
    (hready : r = .ready → S.total 1 = BIGCOUNT) : Counted S (Function.update reg p r) ref := by
  have hle := h.lockLe
  have hmoved := h.moved (p := p) (n := ref p) (.refl S p 1) (.refl S p 2) (by omega) (by omega) (by omega) hblank hready
  rwa [Function.update_eq_self] at hmoved

/-- `SETVAL` of the counter, behind the lock: nobody has the semaphore open. -/
theorem set1 (h : Counted S reg ref) (hp : reg p = .blank) :
    Counted (S.setval 1 BIGCOUNT) (Function.update reg p .ready) ref := by
  have h1 : (S.setval 1 BIGCOUNT).total 1 = BIGCOUNT := S.total_setval_self 1 BIGCOUNT
  have h2 : (S.setval 1 BIGCOUNT).total 2 = S.total 2 := S.total_setval_of_ne (by decide) BIGCOUNT
  have hzero : ∀ q, ref q = 0 := fun q => by
    have hle := h.ref_le q
    rw [h.blank p hp] at hle
    omega
  refine ⟨fun q => ?_, h2.trans h.lockTotal, h.lockLe, fun q => ?_, .inr h1, fun q hq => ?_, fun _ _ => h1⟩
  · have hadj : (S.setval 1 BIGCOUNT).adj q 2 = S.adj q 2 := rfl
    rw [hadj, h.lockAdj]
    by_cases hqp : q = p
    · subst hqp
      rw [Function.update_self, hp]
      rfl
    · rw [Function.update_of_ne hqp]
  · rw [hzero q]
    simp [SemSet.setval]
  · by_cases hqp : q = p
    · subst hqp
      rw [Function.update_self] at hq
      cases hq
    · rw [Function.update_of_ne hqp] at hq
      exact absurd (h.exclusive (p := q) (q := p) (by rw [hq]; decide) (by rw [hp]; decide)) hqp

/-- The end of a process. -/
theorem undo (h : Counted S reg ref) (p : P) : (S.undo p).total 1 = S.total 1 ∧
    Counted (S.undo p) (Function.update reg p .out) (Function.update ref p 0) := by
  have hheld := h.held_le p
  have hbounds := (reg p).held_bounds
  have hlock := h.lockAdj p
  have hle := h.lockLe
  have href := h.refAdj p
  have hrefLe := h.ref_le p
  have htotal := h.total_le
  have hmax := bigCount_le
  have h₁ : S.Moved p 1 (S.adj p 1) (S.undo p) := S.undo_moved p (by omega) (by omega)
  have h₂ : S.Moved p 2 (S.adj p 2) (S.undo p) := S.undo_moved p (by omega) (by omega)
  refine ⟨h₁.total, h.moved h₁ h₂ (by omega) ?_ (by omega) (fun hr => by cases hr) (fun hr => by cases hr)⟩
  rw [hlock]
  exact (Int.add_right_neg _).symm

end Counted

/-- A set that was just created, which no process knows. -/
theorem counted_zero : Counted (.zero : SemSet P (Fin 3)) (fun _ => .out) (fun _ => 0) where
  lockAdj := fun _ => rfl
  lockTotal := by simp [SemSet.total, SemSet.zero]
  lockLe := Nat.zero_le _
  refAdj := fun _ => rfl
  refTotal := .inl (by simp [SemSet.total, SemSet.zero])
  blank := fun _ h => by cases h
  ready := fun _ h => by cases h

/-! ## What the calls of `semop` move -/

namespace Semop

variable {n m id : Nat} {pc pc' : Pc} {ops : List (Sembuf (Fin 3))} {v : Int}

theorem undone (h : Semop n pc id ops pc' m v) : SemSet.Undone ops := by
  cases h <;> simp [SemSet.Undone, opLock, opEndcreate, opOpen, opClose, opUnlock, opOp]

theorem delta_value (h : Semop n pc id ops pc' m v) : SemSet.delta ops 0 = v := by
  cases h <;> simp [opLock, opEndcreate, opOpen, opClose, opUnlock, opOp, SemSet.delta]

/-- What the counter is moved by is what the process opens or closes. -/
theorem delta_refs (h : Semop n pc id ops pc' m v) (hclose : pc = .closeOp id → 0 < n) :
    (m : Int) = n - SemSet.delta ops 1 := by
  cases h with
  | close =>
    have := hclose rfl
    rw [show SemSet.delta opClose 1 = 1 from rfl]
    omega
  | _ => simp [opLock, opEndcreate, opOpen, opUnlock, opOp, SemSet.delta]

/-- What the lock is moved by is what the process holds of it. -/
theorem delta_held (h : Semop n pc id ops pc' m v) :
    (region pc' id).held = (region pc id).held + SemSet.delta ops 2 := by
  cases h <;> simp [region, Region.held, opLock, opEndcreate, opOpen, opClose, opUnlock, opOp, SemSet.delta]

/-- The lock is taken where it is free. -/
theorem lock_le {P : Type} [DecidableEq P] {S S' : SemSet P (Fin 3)} {p : P} (h : Semop n pc id ops pc' m v)
    (hle : S.val 2 ≤ 1) (hS' : S.semop p ops = .ok S') : S.val 2 + SemSet.delta ops 2 ≤ 1 := by
  have htake : ∀ {bs : List (Sembuf (Fin 3))}, S.semop p (⟨2, 0, false⟩ :: bs) = .ok S' → SemSet.delta bs 2 = 1 →
      S.val 2 + SemSet.delta (⟨2, 0, false⟩ :: bs) 2 ≤ 1 := fun hwaits hone => by
    rw [SemSet.semop_waits hwaits, SemSet.delta, hone]
    decide
  have hless : SemSet.delta ops 2 ≤ 0 → S.val 2 + SemSet.delta ops 2 ≤ 1 := fun hneg => by omega
  cases h with
  | lock => exact htake hS' rfl
  | wakes => exact htake hS' rfl
  | close => exact htake hS' rfl
  | endcreate => exact hless (by decide)
  | «open» => exact hless (by decide)
  | unlock => exact hless (by decide)
  | op => exact hless (le_of_eq rfl)

theorem out (h : Semop n pc id ops pc' m v) {i : Nat} (hne : i ≠ id) : region pc i = .out ∧ region pc' i = .out := by
  cases h <;> simp [region, hne.symm]

theorem not_blank (h : Semop n pc id ops pc' m v) : region pc' id ≠ .blank := by
  cases h <;> simp [region]

theorem eq_close_of_ready (h : Semop n pc id ops pc' m v) (hready : region pc' id = .ready) : pc = .closeOp id := by
  cases h <;> simp [region] at hready ⊢

theorem refs_cases (h : Semop n pc id ops pc' m v) : m ≤ n ∨ m = n + 1 ∧ (pc = .createEnd id ∨ pc = .openOp id) := by
  cases h <;> simp

theorem next_ne (h : Semop n pc id ops pc' m v) : (∀ i, pc' ≠ .closeOp i) ∧ ∀ e, pc' ≠ .ended e := by
  cases h <;> simp

theorem small (h : Semop n pc id ops pc' m v) (hnot : ∀ i w, pc ≠ .op i w) :
    (∀ b ∈ ops, -1 ≤ b.op ∧ b.op ≤ 1) ∧ ops.length ≤ 3 ∧ ∀ b ∈ ops, b.num = 1 ∨ b.num = 2 := by
  cases h with
  | op => exact absurd rfl (hnot _ _)
  | _ => simp [opLock, opEndcreate, opOpen, opClose, opUnlock]

theorem gives_back (h : Semop n pc id ops pc' m v) (hin : region pc id ≠ .out) :
    pc = .createEnd id ∧ ops = opEndcreate ∨ ops = opUnlock := by
  cases h <;> simp_all [region]

theorem value_cases (h : Semop n pc id ops pc' m v) : v = 0 ∨ pc = .op id v := by
  cases h <;> simp

theorem next_ne_createSet1 (h : Semop n pc id ops pc' m v) : ∀ i, pc' ≠ .createSet1 i := by
  cases h <;> simp

theorem next_ne_closeRm (h : Semop n pc id ops pc' m v) : ∀ i, pc' ≠ .closeRm i := by
  cases h <;> simp

end Semop

/-! ## What every step keeps -/

/-- A process closes what it has open, and fewer than `BIGCOUNT` are open. -/
def proper [DecidableEq P] (s : State P) : Act P → Bool
  | .call p (.close id) => 0 < s.refs p id
  | .go p true =>
    match s.pc p with
    | .createEnd id => ∑ q, s.refs q id + 1 < BIGCOUNT
    | .openOp id => ∑ q, s.refs q id + 1 < BIGCOUNT
    | _ => true
  | _ => true

structure Inv (s : State P) : Prop where
  counted : ∀ id S, s.set id = some S → Counted S (fun p => region (s.pc p) id) (fun p => s.refs p id)
  few : ∀ id, ∑ p, s.refs p id < BIGCOUNT
  fresh : ∀ id, s.next ≤ id → s.set id = none ∧ ∀ p, s.refs p id = 0 ∧ region (s.pc p) id = .out
  closing : ∀ p id, s.pc p = .closeOp id → 0 < s.refs p id
  sound : ∀ p msg, s.pc p ≠ .ended (.errDump msg)

theorem inv_init : Inv (init : State P) where
  counted := fun id S h => by cases h
  few := fun id => by
    rw [show ∑ p : P, (init : State P).refs p id = 0 from Finset.sum_const_zero]
    exact Counted.bigCount_pos
  fresh := fun id _ => ⟨rfl, fun p => ⟨rfl, rfl⟩⟩
  closing := fun p id h => by cases h
  sound := fun p msg h => by cases h

namespace Inv

variable [DecidableEq P] {s s' : State P} {p : P} {id : Nat}

omit [Fintype P] in
theorem region_goto (pc : P → Pc) (p : P) (pc' : Pc) (i : Nat) :
    (fun q => region (Function.update pc p pc' q) i) = Function.update (fun q => region (pc q) i) p (region pc' i) :=
  funext (fun q => by
    by_cases hq : q = p
    · subst hq
      rw [Function.update_self, Function.update_self]
    · rw [Function.update_of_ne hq, Function.update_of_ne hq])

omit [Fintype P] in
theorem refs_update (refs : P → Nat → Nat) (p : P) (f : Nat → Nat) (i : Nat) :
    (fun q => Function.update refs p f q i) = Function.update (fun q => refs q i) p (f i) :=
  funext (fun q => by
    by_cases hq : q = p
    · subst hq
      rw [Function.update_self, Function.update_self]
    · rw [Function.update_of_ne hq, Function.update_of_ne hq])

theorem sum_refs (f : P → Nat) (p : P) (n : Nat) :
    Finset.univ.sum (Function.update f p n) + f p = Finset.univ.sum f + n := by
  rw [Finset.sum_update_of_mem (Finset.mem_univ p), ← Finset.add_sum_erase Finset.univ f (Finset.mem_univ p),
    Finset.sdiff_singleton_eq_erase]
  omega

/-- A process that goes on, and stays where it is as far as the sets that are there are concerned. -/
theorem goto (hi : Inv s) {pc' : Pc}
    (hregion : ∀ i, region pc' i = region (s.pc p) i ∨ s.set i = none ∧ region pc' i = .out)
    (hclose : ∀ i, pc' = .closeOp i → 0 < s.refs p i) (hdump : ∀ msg, pc' ≠ .ended (.errDump msg)) :
    Inv (s.goto p pc') := by
  have hnew : ∀ i, (fun q => region ((s.goto p pc').pc q) i) = Function.update (fun q => region (s.pc q) i) p (region pc' i) :=
    fun i => by rw [State.goto_pc, region_goto]
  refine ⟨fun i S hS => ?_, hi.few, fun i hle => ⟨(hi.fresh i hle).1, fun q => ⟨((hi.fresh i hle).2 q).1, ?_⟩⟩,
    fun q i hq => ?_, fun q msg hq => ?_⟩
  · have hsame : region pc' i = region (s.pc p) i := (hregion i).resolve_right (fun hnone => by
      rw [State.goto_set, hnone.1] at hS
      cases hS)
    rw [hnew, hsame, Function.update_eq_self]
    exact hi.counted i S hS
  · have hout := ((hi.fresh i hle).2 q).2
    rw [congrFun (hnew i) q]
    by_cases hqp : q = p
    · subst hqp
      rw [Function.update_self]
      exact (hregion i).elim (fun h => h.trans hout) (fun h => h.2)
    · rw [Function.update_of_ne hqp]
      exact hout
  · by_cases hqp : q = p
    · subst hqp
      exact hclose i (by rwa [State.goto_pc, Function.update_self] at hq)
    · exact hi.closing q i (by rwa [State.goto_pc, Function.update_of_ne hqp] at hq)
  · by_cases hqp : q = p
    · subst hqp
      exact hdump msg (by rwa [State.goto_pc, Function.update_self] at hq)
    · exact hi.sound q msg (by rwa [State.goto_pc, Function.update_of_ne hqp] at hq)

/-- A process changes its set, its place and what it has open there. -/
theorem change (hi : Inv s) {S S' : SemSet P (Fin 3)} {pc' : Pc} {n : Nat} (hS : s.set id = some S)
    (hset : s'.set = Function.update s.set id (some S')) (hpc : s'.pc = Function.update s.pc p pc')
    (hrefs : s'.refs = Function.update s.refs p (Function.update (s.refs p) id n)) (hnext : s'.next = s.next)
    (hout : ∀ i, i ≠ id → region (s.pc p) i = .out ∧ region pc' i = .out)
    (hcounted : Counted S' (Function.update (fun q => region (s.pc q) id) p (region pc' id))
      (Function.update (fun q => s.refs q id) p n))
    (hfew : n ≤ s.refs p id ∨ n = s.refs p id + 1 ∧ ∑ q, s.refs q id + 1 < BIGCOUNT)
    (hclose : ∀ i, pc' ≠ .closeOp i) (hdump : ∀ msg, pc' ≠ .ended (.errDump msg)) : Inv s' := by
  have hregion : ∀ i, (fun q => region (s'.pc q) i) = Function.update (fun q => region (s.pc q) i) p (region pc' i) :=
    fun i => by rw [hpc, region_goto]
  have href : ∀ i, (fun q => s'.refs q i)
      = Function.update (fun q => s.refs q i) p (Function.update (s.refs p) id n i) := fun i => by
    rw [hrefs, refs_update]
  have hother : ∀ i, i ≠ id → (fun q => region (s'.pc q) i) = (fun q => region (s.pc q) i) ∧
      (fun q => s'.refs q i) = (fun q => s.refs q i) := fun i hne => by
    rw [hregion, href, (hout i hne).2, Function.update_of_ne hne]
    exact ⟨Function.update_eq_self_iff.2 (hout i hne).1.symm, Function.update_eq_self p _⟩
  have hne : ∀ i, s.next ≤ i → i ≠ id := fun i hle heq => by
    have := (hi.fresh i hle).1
    rw [heq, hS] at this
    cases this
  refine ⟨fun i T hT => ?_, fun i => ?_, fun i hle => ?_, fun q i hq => ?_, fun q msg hq => ?_⟩
  · by_cases heq : i = id
    · subst heq
      rw [hset, Function.update_self] at hT
      obtain rfl := Option.some.inj hT
      rw [hregion, href, Function.update_self]
      exact hcounted
    · rw [hset, Function.update_of_ne heq] at hT
      rw [(hother i heq).1, (hother i heq).2]
      exact hi.counted i T hT
  · by_cases heq : i = id
    · subst heq
      rw [show ∑ q, s'.refs q i = ∑ q, (fun q => s'.refs q i) q from rfl, href, Function.update_self]
      have hsum := sum_refs (fun q => s.refs q i) p n
      have hold := hi.few i
      omega
    · rw [show ∑ q, s'.refs q i = ∑ q, (fun q => s'.refs q i) q from rfl, (hother i heq).2]
      exact hi.few i
  · rw [hnext] at hle
    have heq := hne i hle
    obtain ⟨hnone, hfree⟩ := hi.fresh i hle
    rw [hset, Function.update_of_ne heq]
    refine ⟨hnone, fun q => ?_⟩
    rw [congrFun (hother i heq).1 q, congrFun (hother i heq).2 q]
    exact hfree q
  · by_cases hqp : q = p
    · subst hqp
      rw [hpc, Function.update_self] at hq
      exact absurd hq (hclose i)
    · rw [hpc, Function.update_of_ne hqp] at hq
      rw [hrefs, Function.update_of_ne hqp]
      exact hi.closing q i hq
  · by_cases hqp : q = p
    · subst hqp
      rw [hpc, Function.update_self] at hq
      exact hdump msg hq
    · rw [hpc, Function.update_of_ne hqp] at hq
      exact hi.sound q msg hq

/-- The end of a process. -/
theorem ends (hi : Inv s) (p : P) {e : Ending} (he : ∀ msg, e ≠ .errDump msg) : Inv (s.ends p e) := by
  have hregion : ∀ i, (fun q => region ((s.ends p e).pc q) i) = Function.update (fun q => region (s.pc q) i) p .out :=
    fun i => by rw [State.ends_pc, region_goto]; rfl
  have href : ∀ i, (fun q => (s.ends p e).refs q i) = Function.update (fun q => s.refs q i) p 0 := fun i => by
    rw [State.ends_refs, refs_update]
  refine ⟨fun i T hT => ?_, fun i => ?_, fun i hle => ?_, fun q i hq => ?_, fun q msg hq => ?_⟩
  · obtain ⟨S, hS, rfl⟩ := Option.map_eq_some_iff.1 hT
    rw [hregion, href]
    exact ((hi.counted i S hS).undo p).2
  · rw [show ∑ q, (s.ends p e).refs q i = ∑ q, (fun q => (s.ends p e).refs q i) q from rfl, href]
    have hsum := sum_refs (fun q => s.refs q i) p 0
    have hold := hi.few i
    omega
  · obtain ⟨hnone, hfree⟩ := hi.fresh i hle
    refine ⟨by rw [State.ends_set, hnone]; rfl, fun q => ?_⟩
    rw [congrFun (hregion i) q, congrFun (href i) q]
    by_cases hqp : q = p
    · subst hqp
      exact ⟨Function.update_self .., Function.update_self ..⟩
    · rw [Function.update_of_ne hqp, Function.update_of_ne hqp]
      exact hfree q
  · by_cases hqp : q = p
    · subst hqp
      rw [State.ends_pc, Function.update_self] at hq
      cases hq
    · rw [State.ends_pc, Function.update_of_ne hqp] at hq
      rw [State.ends_refs, Function.update_of_ne hqp]
      exact hi.closing q i hq
  · by_cases hqp : q = p
    · subst hqp
      rw [State.ends_pc, Function.update_self] at hq
      exact he msg (Pc.ended.inj hq)
    · rw [State.ends_pc, Function.update_of_ne hqp] at hq
      exact hi.sound q msg hq

omit [DecidableEq P] in
/-- A set is made. -/
theorem create (hi : Inv s) (key : Int) : Inv (s.create key) where
  counted := fun i T hT => by
    by_cases heq : i = s.next
    · subst heq
      rw [State.create_set, Function.update_self] at hT
      obtain rfl := Option.some.inj hT
      have hfree := (hi.fresh s.next (Nat.le_refl _)).2
      have hreg : (fun q => region (s.pc q) s.next) = fun _ => .out := funext (fun q => (hfree q).2)
      have href : (fun q => s.refs q s.next) = fun _ => 0 := funext (fun q => (hfree q).1)
      exact (hreg ▸ href ▸ counted_zero : Counted .zero (fun q => region (s.pc q) s.next) (fun q => s.refs q s.next))
    · rw [State.create_set, Function.update_of_ne heq] at hT
      exact hi.counted i T hT
  few := hi.few
  fresh := fun i hle => by
    have hlt : s.next < i := hle
    refine ⟨?_, (hi.fresh i (Nat.le_of_lt hlt)).2⟩
    rw [State.create_set, Function.update_of_ne (Nat.ne_of_gt hlt)]
    exact (hi.fresh i (Nat.le_of_lt hlt)).1
  closing := hi.closing
  sound := hi.sound

omit [DecidableEq P] in
/-- A set is removed. -/
theorem remove (hi : Inv s) (id : Nat) : Inv (s.remove id) where
  counted := fun i T hT => by
    by_cases heq : i = id
    · subst heq
      rw [State.remove_set, Function.update_self] at hT
      cases hT
    · rw [State.remove_set, Function.update_of_ne heq] at hT
      exact hi.counted i T hT
  few := hi.few
  fresh := fun i hle => by
    refine ⟨?_, (hi.fresh i hle).2⟩
    by_cases heq : i = id
    · subst heq
      exact Function.update_self ..
    · rw [State.remove_set, Function.update_of_ne heq]
      exact (hi.fresh i hle).1
  closing := hi.closing
  sound := hi.sound

/-- A process behind the lock goes on. -/
theorem inside (hi : Inv s) {S : SemSet P (Fin 3)} {pc' : Pc} (hS : s.set id = some S)
    (hout : ∀ i, i ≠ id → region (s.pc p) i = .out ∧ region pc' i = .out)
    (hheld : (region pc' id).held = (region (s.pc p) id).held) (hblank : region pc' id = .blank → S.total 1 = 0)
    (hready : region pc' id = .ready → S.total 1 = BIGCOUNT) (hclose : ∀ i, pc' ≠ .closeOp i)
    (hdump : ∀ msg, pc' ≠ .ended (.errDump msg)) : Inv (s.goto p pc') := by
  have hset : (s.goto p pc').set = Function.update s.set id (some S) := by
    rw [← hS, Function.update_eq_self, State.goto_set]
  refine hi.change (n := s.refs p id) hS hset rfl ?_ rfl hout ?_ (.inl (Nat.le_refl _)) hclose hdump
  · rw [Function.update_eq_self, Function.update_eq_self, State.goto_refs]
  · rw [Function.update_eq_self p (fun q => s.refs q id)]
    exact (hi.counted id S hS).goto hheld hblank hready

/-- A system call that only reads. -/
theorem walks (hi : Inv s) {pc' : Pc} (h : Walk s p (s.pc p) pc') : Inv (s.goto p pc') := by
  have hplain : (∀ i, region (s.pc p) i = .out) → (∀ i, region pc' i = .out) → (∀ i, pc' ≠ .closeOp i) →
      (∀ msg, pc' ≠ .ended (.errDump msg)) → Inv (s.goto p pc') := fun hold hnew hclose hdump =>
    hi.goto (fun i => .inl (by rw [hnew, hold])) (fun i hc => absurd hc (hclose i)) hdump
  generalize hpc : s.pc p = pc at h
  rw [hpc] at hplain
  cases h with
  | found => exact hplain (fun _ => rfl) (fun _ => rfl) (fun _ hc => by cases hc) (fun _ hc => by cases hc)
  | again => exact hplain (fun _ => rfl) (fun _ => rfl) (fun _ hc => by cases hc) (fun _ hc => by cases hc)
  | sleeps => exact hplain (fun _ => rfl) (fun _ => rfl) (fun _ hc => by cases hc) (fun _ hc => by cases hc)
  | opens => exact hplain (fun _ => rfl) (fun _ => rfl) (fun _ hc => by cases hc) (fun _ hc => by cases hc)
  | absent => exact hplain (fun _ => rfl) (fun _ => rfl) (fun _ hc => by cases hc) (fun _ hc => by cases hc)
  | @unset initval id S hS hzero =>
    have htotal := ((hi.counted id S hS).value_zero (hi.few id)).1 hzero
    refine hi.inside hS (fun i hne => ?_) ?_ (fun _ => htotal) (fun hr => ?_) (fun _ hc => by cases hc)
      (fun _ hc => by cases hc)
    · rw [hpc]
      exact ⟨if_neg hne.symm, if_neg hne.symm⟩
    · rw [hpc]
      simp [region, Region.held]
    · simp [region] at hr
  | @isSet initval id S hS hne =>
    have htotal := (hi.counted id S hS).refTotal.resolve_left
      (fun h0 => hne (((hi.counted id S hS).value_zero (hi.few id)).2 h0))
    refine hi.inside hS (fun i hne => ?_) ?_ (fun hr => ?_) (fun _ => htotal) (fun _ hc => by cases hc)
      (fun _ hc => by cases hc)
    · rw [hpc]
      exact ⟨if_neg hne.symm, if_neg hne.symm⟩
    · rw [hpc]
      simp [region, Region.held]
    · simp [region] at hr
  | last => exact hi.goto (fun i => .inl (by rw [hpc]; rfl)) (fun _ hc => by cases hc) (fun _ hc => by cases hc)
  | others => exact hi.goto (fun i => .inl (by rw [hpc]; rfl)) (fun _ hc => by cases hc) (fun _ hc => by cases hc)

/-- `semop` of a process that goes on. -/
theorem operates (hi : Inv s) (hok : proper s (.go p true) = true) {n : Nat} {ops : List (Sembuf (Fin 3))} {pc' : Pc}
    {value : Int} {S S' : SemSet P (Fin 3)} (hop : Semop (s.refs p id) (s.pc p) id ops pc' n value)
    (hS : s.set id = some S) (hS' : S.semop p ops = .ok S') (hs : Operated s p id S' pc' n value s') : Inv s' := by
  have hc := hi.counted id S hS
  have hcounted := hc.moved (SemSet.semop_moved 1 hop.undone hS') (SemSet.semop_moved 2 hop.undone hS')
    (hop.lock_le hc.lockLe hS') hop.delta_held (hop.delta_refs (hi.closing p id)) (fun hr => absurd hr hop.not_blank)
    (fun hr => hc.total_of_open (hi.closing p id (hop.eq_close_of_ready hr)))
  refine hi.change hS hs.set hs.pc hs.refs hs.next (fun i hne => hop.out hne) hcounted ?_ hop.next_ne.1
    (fun msg => hop.next_ne.2 _)
  rcases hop.refs_cases with hle | ⟨hmore, hpc | hpc⟩
  · exact .inl hle
  · exact .inr ⟨hmore, by simpa [proper, hpc] using hok⟩
  · exact .inr ⟨hmore, by simpa [proper, hpc] using hok⟩

theorem callStep (hi : Inv s) {c : Call} (hok : proper s (.call p c) = true) (h : callStep s p c = some s') : Inv s' := by
  obtain ⟨⟨ret, hpc⟩, ⟨-, -, -, -, rfl⟩ | ⟨pc', rfl, hentry⟩⟩ := callStep_cases h
  · exact hi.ends p (fun _ he => by cases he)
  · refine hi.goto (fun i => .inl ?_) (fun i hclose => ?_) (fun msg hdump => ?_)
    · rw [hpc]
      cases hentry <;> rfl
    · cases hentry <;> cases hclose
      exact of_decide_eq_true hok
    · cases hentry <;> cases hdump

theorem goStep (hi : Inv s) (hok : proper s (.go p true) = true) (h : goStep s p = some s') : Inv s' := by
  cases goStep_cases h with
  | fails msg _ => exact hi.ends p (fun _ he => by cases he)
  | @dumps id S hpc hS hmore =>
    have hle := (hi.counted id S hS).ref_le p
    have htotal := (hi.counted id S hS).total_le
    omega
  | walks pc' hw => exact hi.walks hw
  | @makes key initval hpc hkey =>
    exact (hi.create key).goto (fun i => .inl (by rw [show (s.create key).pc p = _ from hpc]; rfl))
      (fun _ hc => by cases hc) (fun _ hc => by cases hc)
  | @removes id S hpc hS =>
    refine (hi.remove id).goto (fun i => ?_) (fun _ hc => by cases hc) (fun _ hc => by cases hc)
    by_cases heq : i = id
    · subst heq
      exact .inr ⟨Function.update_self .., rfl⟩
    · refine .inl ?_
      rw [show (s.remove id).pc p = s.pc p from rfl]
      rcases hpc with hpc | hpc <;> simp [hpc, region, Ne.symm heq]
  | @sets0 initval id S hpc hneg hmax hS =>
    refine hi.change (n := s.refs p id) hS rfl rfl ?_ rfl (fun i hne => ?_) ?_ (.inl (Nat.le_refl _))
      (fun _ hc => by cases hc) (fun _ hc => by cases hc)
    · simp [State.put, State.goto]
    · simp [hpc, region, hne.symm]
    · have hset := (hi.counted id S hS).set0 initval.toNat
      rwa [show region (.createSet1 id) id = region (s.pc p) id by simp [hpc, region], Function.update_eq_self,
        Function.update_eq_self p (fun q => s.refs q id)]
  | @sets1 id S hpc hS =>
    refine hi.change (n := s.refs p id) hS rfl rfl ?_ rfl (fun i hne => ?_) ?_ (.inl (Nat.le_refl _))
      (fun _ hc => by cases hc) (fun _ hc => by cases hc)
    · simp [State.put, State.goto]
    · simp [hpc, region, hne.symm]
    · have hset := (hi.counted id S hS).set1 (p := p) (by simp [hpc, region])
      simpa [region] using hset
  | operates hop hS hS' hs => exact hi.operates hok hop hS hS' hs

theorem step (hi : Inv s) {a : Act P} (hok : proper s a = true) (h : step s a = some s') : Inv s' := by
  cases a with
  | call p c => exact hi.callStep hok h
  | exit p =>
    obtain rfl := exitStep_cases h
    exact hi.ends p (fun _ he => by cases he)
  | go p success =>
    cases success with
    | true => exact hi.goStep hok h
    | false =>
      rcases failStep_cases h with ⟨msg, rfl⟩ | ⟨rfl, hpc⟩
      · exact hi.ends p (fun _ he => by cases he)
      · refine hi.goto (fun i => .inl ?_) (fun _ hc => by cases hc) (fun _ hc => by cases hc)
        rcases hpc with ⟨key, initval, hpc⟩ | ⟨key, hpc⟩ <;> rw [hpc] <;> rfl

/-- The calls of `semop` that are not `sem_op`'s are in range. -/
theorem in_range (hi : Inv s) {n : Nat} {ops : List (Sembuf (Fin 3))} {pc' : Pc} {value : Int} {S : SemSet P (Fin 3)}
    (hop : Semop (s.refs p id) (s.pc p) id ops pc' n value) (hnot : ∀ i v, s.pc p ≠ .op i v) (hS : s.set id = some S) :
    S.semop p ops ≠ .error .range := by
  have hc := hi.counted id S hS
  have hmax := Counted.bigCount_le
  have hpos := Counted.bigCount_pos
  have hroom₁ : (S.val 1 : Int) + 3 ≤ SemSet.SEMVMX ∧ -SemSet.SEMVMX ≤ S.adj p 1 - 3 ∧ S.adj p 1 + 3 ≤ SemSet.SEMVMX := by
    have hle := hc.ref_le p
    have htotal := hc.total_le
    have hadj := hc.refAdj p
    omega
  have hroom₂ : (S.val 2 : Int) + 3 ≤ SemSet.SEMVMX ∧ -SemSet.SEMVMX ≤ S.adj p 2 - 3 ∧ S.adj p 2 + 3 ≤ SemSet.SEMVMX := by
    have hle := hc.lockLe
    have hbounds := (region (s.pc p) id).held_bounds
    have hadj := hc.lockAdj p
    omega
  obtain ⟨hone, hlength, hnum⟩ := hop.small hnot
  refine SemSet.semop_ne_range hop.undone hone (fun b hb => ?_)
  rcases hnum b hb with h1 | h2
  · rw [h1]
    omega
  · rw [h2]
    omega

end Inv

variable [DecidableEq P]

theorem inv_run {as : List (Act P)} {s : State P} (h : run (restrict proper step) as init = some s) : Inv s :=
  restrict_inv Inv (fun _ _ _ hi hok hs => hi.step hok hs) as init s inv_init h

/-- **The lock and the counter.**  Of a set that is there, one process at most is behind the lock, the lock is 1 exactly
as long as one is, and the counter is `BIGCOUNT` less one for each time that a process has the semaphore open, or 0 where
it was not set.  `sem_close` never finds more than `BIGCOUNT`. -/
theorem semaph_counts (as : List (Act P)) (s : State P) (h : run (restrict proper step) as init = some s) :
    (∀ id S, s.set id = some S →
      S.val 2 ≤ 1 ∧ (S.val 2 = 1 ↔ ∃ p, region (s.pc p) id ≠ .out) ∧
      (∀ p q, region (s.pc p) id ≠ .out → region (s.pc q) id ≠ .out → p = q) ∧
      (S.val 1 + ∑ p, s.refs p id = BIGCOUNT ∨ S.val 1 = 0 ∧ ∀ p, s.refs p id = 0)) ∧
    ∀ p msg, s.pc p ≠ .ended (.errDump msg) := by
  have hi := inv_run h
  refine ⟨fun id S hS => ?_, hi.sound⟩
  have hc := hi.counted id S hS
  refine ⟨hc.lockLe, hc.locked_iff, fun p q hp hq => hc.exclusive hp hq, ?_⟩
  have hcounter := hc.counter
  rcases hc.refTotal with htotal | htotal
  · refine .inr ⟨?_, fun p => ?_⟩
    · omega
    · have := hc.ref_le p
      omega
  · left
    omega

/-- Two processes create one semaphore, and the first closes it. -/
def twoCreate : List (Act Bool) :=
  [.call false (.create 5 1), .go false true, .go false true, .call true (.create 5 1), .go true true, .go true true,
    .go false true, .go false true, .go false true, .go false true, .go true true, .go true true, .go true true,
    .call false (.close 0), .go false true]

theorem semaph_counts_two : ∃ s, run (restrict proper step) twoCreate init = some s ∧
    (∀ id S, s.set id = some S →
      S.val 2 ≤ 1 ∧ (S.val 2 = 1 ↔ ∃ p, region (s.pc p) id ≠ .out) ∧
      (∀ p q, region (s.pc p) id ≠ .out → region (s.pc q) id ≠ .out → p = q) ∧
      (S.val 1 + ∑ p, s.refs p id = BIGCOUNT ∨ S.val 1 = 0 ∧ ∀ p, s.refs p id = 0)) ∧
    ∀ p msg, s.pc p ≠ .ended (.errDump msg) := by
  have hrun : (run (restrict proper step) twoCreate init).isSome = true := by decide +kernel
  obtain ⟨s, hs⟩ := Option.isSome_iff_exists.1 hrun
  exact ⟨s, hs, semaph_counts _ s hs⟩

/-! ## Out of the lock -/

/-- The system calls that a process still makes behind the lock. -/
def left : Pc → Nat
  | .createGetval .. => 4
  | .createSet0 .. => 3
  | .createSet1 _ => 2
  | .createEnd _ => 1
  | .closeGetval _ => 2
  | .closeRm _ => 1
  | .closeUnlock _ => 1
  | _ => 0

omit [Fintype P] in
theorem left_pos {pc : Pc} {id : Nat} (h : region pc id ≠ .out) : 0 < left pc := by
  cases pc <;> simp_all [region, left]

omit [Fintype P] in
theorem left_le (pc : Pc) : left pc ≤ 4 := by
  cases pc <;> simp [left]

/-- A call of `semop` that gives back the lock. -/
theorem semop_done {s : State P} (hi : Inv s) {p : P} {id n : Nat} {ops : List (Sembuf (Fin 3))} {pc' : Pc} {value : Int}
    {S : SemSet P (Fin 3)} (hop : Semop (s.refs p id) (s.pc p) id ops pc' n value) (hS : s.set id = some S)
    (hp : region (s.pc p) id ≠ .out) : ∃ S', S.semop p ops = .ok S' := by
  have hc := hi.counted id S hS
  have hlock : S.val 2 = 1 := hc.locked_iff.2 ⟨p, hp⟩
  have hwaits : S.semop p ops ≠ .error .waits := by
    rcases hop.gives_back hp with ⟨hpc, rfl⟩ | rfl
    · have htotal := hc.ready p (by simp [hpc, region])
      have hcounter := hc.counter
      have hfew := hi.few id
      have hcount : 0 < S.val 1 := by omega
      exact SemSet.semop_ne_waits hop.undone (by decide) (by simp [opEndcreate, hlock]; omega)
    · exact SemSet.semop_ne_waits hop.undone (by decide) (by simp [opUnlock, hlock])
  have hrange : S.semop p ops ≠ .error .range := hi.in_range hop (fun i v hpc => by simp [hpc, region] at hp) hS
  cases hres : S.semop p ops with
  | ok S' => exact ⟨S', rfl⟩
  | error e =>
    cases e with
    | waits => exact absurd hres hwaits
    | range => exact absurd hres hrange

theorem goStep_ne_none {s : State P} (hi : Inv s) {p : P} {id : Nat} {S : SemSet P (Fin 3)} (hS : s.set id = some S)
    (hp : region (s.pc p) id ≠ .out) : goStep s p ≠ none := by
  have hid : ∀ i : Nat, ∀ r : Region, (if i = id then r else .out) ≠ .out → i = id := fun i r hne => by
    by_contra hni
    exact hne (if_neg hni)
  cases hpc : s.pc p with
  | createGetval v i =>
    obtain rfl := hid i _ (hpc ▸ hp)
    simp [goStep, hpc, State.semctl, hS]
  | createSet0 v i =>
    obtain rfl := hid i _ (hpc ▸ hp)
    simp only [goStep, hpc, State.semctl, hS]
    split <;> exact Option.some_ne_none _
  | createSet1 i =>
    obtain rfl := hid i _ (hpc ▸ hp)
    simp [goStep, hpc, State.semctl, hS]
  | createEnd i =>
    obtain rfl := hid i _ (hpc ▸ hp)
    have hop : Semop (s.refs p i) (s.pc p) i opEndcreate (.idle i) (s.refs p i + 1) 0 := hpc ▸ .endcreate
    obtain ⟨S', hS'⟩ := semop_done hi hop hS hp
    simp [goStep, hpc, State.semop, hS, hS']
  | closeGetval i =>
    obtain rfl := hid i _ (hpc ▸ hp)
    simp [goStep, hpc, State.semctl, hS]
  | closeRm i =>
    obtain rfl := hid i _ (hpc ▸ hp)
    simp [goStep, hpc, State.semctl, hS]
  | closeUnlock i =>
    obtain rfl := hid i _ (hpc ▸ hp)
    have hop : Semop (s.refs p i) (s.pc p) i opUnlock (.idle 0) (s.refs p i) 0 := hpc ▸ .unlock
    obtain ⟨S', hS'⟩ := semop_done hi hop hS hp
    simp [goStep, hpc, State.semop, hS, hS']
  | _ => exact absurd rfl (hpc ▸ hp)

omit [Fintype P] in
theorem goStep_left {s s' : State P} {p : P} {id : Nat} (h : goStep s p = some s') (hp : region (s.pc p) id ≠ .out) :
    left (s'.pc p) < left (s.pc p) := by
  have hself : ∀ {pc : P → Pc} {pc' : Pc}, Function.update pc p pc' p = pc' := Function.update_self ..
  have hends : ∀ e, left ((s.ends p e).pc p) < left (s.pc p) := fun e => by
    rw [State.ends_pc, hself]
    exact left_pos hp
  have hidle : ∀ (t : State P) n, left ((t.goto p (.idle n)).pc p) < left (s.pc p) := fun t n => by
    rw [State.goto_pc, hself]
    exact left_pos hp
  cases goStep_cases h with
  | fails msg _ => exact hends _
  | dumps => exact hends _
  | walks pc' hw =>
    rw [State.goto_pc, hself]
    generalize s.pc p = pc at hw hp
    cases hw <;> simp_all [region, left]
  | makes hpc => exact absurd (hpc ▸ rfl) hp
  | removes => exact hidle _ _
  | @sets0 v i S hpc =>
    dsimp only
    rw [State.goto_pc, hself, hpc]
    exact Nat.lt_succ_self 2
  | @sets1 i S hpc =>
    rw [State.goto_pc, hself, hpc]
    exact Nat.lt_succ_self 1
  | operates hop hS hS' hs =>
    rw [hs.pc, hself]
    generalize s.pc p = pc at hop hp
    cases hop <;> simp_all [region, left]

/-- **Behind the lock no process waits**: its next system call is done, and brings it closer to where it leaves the
lock, after four at most. -/
theorem semaph_unlocks (as : List (Act P)) (s : State P) (h : run (restrict proper step) as init = some s) (p : P)
    (id : Nat) (S : SemSet P (Fin 3)) (hS : s.set id = some S) (hp : region (s.pc p) id ≠ .out) :
    left (s.pc p) ≤ 4 ∧ ∃ s', step s (.go p true) = some s' ∧ left (s'.pc p) < left (s.pc p) := by
  obtain ⟨s', hs'⟩ := Option.ne_none_iff_exists'.1 (goStep_ne_none (inv_run h) hS hp)
  exact ⟨left_le _, s', hs', goStep_left hs' hp⟩

theorem semaph_unlocks_two : ∃ s, run (restrict proper step) twoCreate init = some s ∧ ∃ S, s.set 0 = some S ∧
    region (s.pc false) 0 ≠ .out ∧
    left (s.pc false) ≤ 4 ∧ ∃ s', step s (.go false true) = some s' ∧ left (s'.pc false) < left (s.pc false) := by
  have hrun : ((run (restrict proper step) twoCreate init).any
      (fun s => (s.set 0).isSome && decide (region (s.pc false) 0 ≠ .out))) = true := by decide +kernel
  obtain ⟨s, hs, hany⟩ := (Option.any_eq_true _ _).1 hrun
  obtain ⟨hset, hin⟩ := Bool.and_eq_true_iff.1 hany
  obtain ⟨S, hS⟩ := Option.isSome_iff_exists.1 hset
  exact ⟨s, hs, S, hS, of_decide_eq_true hin, semaph_unlocks _ s hs false 0 S hS (of_decide_eq_true hin)⟩

end Semaph
end Cc
