import CCplusplus.SemaphCounts
/-!
# SemaphValue — a semaphore is worth what was not taken

`sem_op` is undone at the end of its process, so what the members' processes would give back is what they have taken.  As
long as a process takes only from what it has open, and gives back no more than it has taken, the value and what is taken
of it are together what `sem_create` set, whichever processes die and wherever (`semaph_value`).
-/
namespace Cc
namespace Semaph

open CLib

variable {P : Type} [Fintype P]

/-- A semaphore beside what is taken of it; `setting` is that a process is between its two `SETVAL`. -/
structure Worth (S : SemSet P (Fin 3)) (taken : P → Int) (initial : Nat) (setting : Prop) : Prop where
  adj : ∀ p, S.adj p 0 = taken p
  nonneg : ∀ p, 0 ≤ taken p
  unset : S.total 1 = 0 → ∀ p, taken p = 0
  max : S.total 0 ≤ SemSet.SEMVMX
  value : S.total 1 = BIGCOUNT ∨ setting → S.total 0 = initial

namespace Worth

variable {S S' : SemSet P (Fin 3)} {taken : P → Int} {initial : Nat} {setting : Prop} {p : P}

theorem total (h : Worth S taken initial setting) : (S.val 0 : Int) + ∑ q, taken q = S.total 0 := by
  unfold SemSet.total
  rw [Finset.sum_congr rfl (fun q _ => h.adj q)]

theorem taken_le (h : Worth S taken initial setting) (p : P) : (S.val 0 : Int) + taken p ≤ S.total 0 := by
  have hle : taken p ≤ ∑ q, taken q := Finset.single_le_sum (fun q _ => h.nonneg q) (Finset.mem_univ p)
  have := h.total
  omega

variable [DecidableEq P]

/-- A process takes from a semaphore, or gives back. -/
theorem moved (h : Worth S taken initial setting) {v : Int} {setting' : Prop} (h₀ : S.Moved p 0 v S')
    (h₁ : S'.total 1 = S.total 1) (hv : v ≤ taken p) (hset : S.total 1 = 0 → v = taken p) (hsetting : setting' → setting) :
    Worth S' (Function.update taken p (taken p - v)) initial setting' where
  adj := fun q => by
    rw [h₀.adj, h.adj]
    by_cases hq : q = p
    · subst hq
      rw [if_pos rfl, Function.update_self]
    · rw [if_neg hq, Function.update_of_ne hq]
  nonneg := fun q => by
    by_cases hq : q = p
    · subst hq
      rw [Function.update_self]
      omega
    · rw [Function.update_of_ne hq]
      exact h.nonneg q
  unset := fun hzero q => by
    rw [h₁] at hzero
    by_cases hq : q = p
    · subst hq
      rw [Function.update_self, hset hzero]
      omega
    · rw [Function.update_of_ne hq]
      exact h.unset hzero q
  max := h₀.total ▸ h.max
  value := fun hor => by
    rw [h₀.total]
    exact h.value (hor.imp (fun h => h₁ ▸ h) hsetting)

/-- The end of a process. -/
theorem undo (h : Worth S taken initial setting) (p : P) {setting' : Prop} (h₁ : (S.undo p).total 1 = S.total 1)
    (hsetting : setting' → setting) : Worth (S.undo p) (Function.update taken p 0) initial setting' := by
  have hle := h.taken_le p
  have hmax := h.max
  have hnonneg := h.nonneg p
  have hadj := h.adj p
  have h₀ : S.Moved p 0 (taken p) (S.undo p) := hadj ▸ S.undo_moved p (by omega) (by omega)
  have hmoved := h.moved h₀ h₁ (Int.le_refl _) (fun _ => rfl) hsetting
  rwa [Int.sub_self] at hmoved

omit [DecidableEq P] in
/-- `SETVAL` of the value. -/
theorem set0 (h : Worth S taken initial setting) {v : Nat} (hv : v ≤ SemSet.SEMVMX) (hzero : S.total 1 = 0) :
    Worth (S.setval 0 v) taken v True where
  adj := fun p => by
    rw [h.unset hzero p]
    simp [SemSet.setval]
  nonneg := h.nonneg
  unset := fun _ => h.unset hzero
  max := by
    rw [SemSet.total_setval_self]
    omega
  value := fun _ => SemSet.total_setval_self S 0 v

omit [DecidableEq P] in
/-- `SETVAL` of the counter. -/
theorem set1 (h : Worth S taken initial setting) (hs : setting) {setting' : Prop} :
    Worth (S.setval 1 BIGCOUNT) taken initial setting' := by
  have h0 : (S.setval 1 BIGCOUNT).total 0 = S.total 0 := S.total_setval_of_ne (by decide) BIGCOUNT
  have h1 : (S.setval 1 BIGCOUNT).total 1 = BIGCOUNT := S.total_setval_self 1 BIGCOUNT
  have hpos := Counted.bigCount_pos
  exact ⟨h.adj, h.nonneg, (fun hzero => by omega), h0 ▸ h.max, fun _ => h0.trans (h.value (.inr hs))⟩

omit [DecidableEq P] in
theorem weaken (h : Worth S taken initial setting) {setting' : Prop} (hsetting : setting' → setting) :
    Worth S taken initial setting' :=
  ⟨h.adj, h.nonneg, h.unset, h.max, fun hor => h.value (hor.imp_right hsetting)⟩

omit [DecidableEq P] in
/-- A set that was just created. -/
theorem zero {setting : Prop} {initial : Nat} {taken : P → Int} (htaken : ∀ p, taken p = 0) (hsetting : ¬ setting) :
    Worth (.zero : SemSet P (Fin 3)) taken initial setting := by
  have htotal : ∀ j, (.zero : SemSet P (Fin 3)).total j = 0 := fun j => by simp [SemSet.total, SemSet.zero]
  have hpos := Counted.bigCount_pos
  refine ⟨fun p => (htaken p).symm, fun p => (htaken p).ge, fun _ => htaken, ?_, fun hor => ?_⟩
  · rw [htotal]
    omega
  · rw [htotal] at hor
    exact absurd (hor.resolve_right hsetting) (by omega)

end Worth

/-- A process takes from what it has open, and gives back no more than it has taken. -/
def careful [DecidableEq P] (s : State P) (a : Act P) : Bool :=
  proper s a &&
  match a with
  | .go p true =>
    match s.pc p with
    | .op id value => decide (0 < s.refs p id ∧ value ≤ s.taken p id)
    | _ => true
  | _ => true

structure Paid (s : State P) : Prop where
  inv : Inv s
  worth : ∀ id S, s.set id = some S →
    Worth S (fun p => s.taken p id) (s.initial id) (∃ p, s.pc p = .createSet1 id)
  fresh : ∀ id, s.next ≤ id → ∀ p, s.taken p id = 0

namespace Paid

variable [DecidableEq P] {s s' : State P} {p : P}

omit [Fintype P] in
theorem taken_update (taken : P → Nat → Int) (p : P) (f : Nat → Int) (i : Nat) :
    (fun q => Function.update taken p f q i) = Function.update (fun q => taken q i) p (f i) :=
  funext (fun q => by
    by_cases hq : q = p
    · subst hq
      rw [Function.update_self, Function.update_self]
    · rw [Function.update_of_ne hq, Function.update_of_ne hq])

omit [Fintype P] in
/-- Who sets a value was setting it before, or begins to. -/
theorem setting_update {pc : P → Pc} {pc' : Pc} {i : Nat} (hne : pc' ≠ .createSet1 i) :
    (∃ q, Function.update pc p pc' q = .createSet1 i) → ∃ q, pc q = .createSet1 i := by
  rintro ⟨q, hq⟩
  by_cases hqp : q = p
  · subst hqp
    rw [Function.update_self] at hq
    exact absurd hq hne
  · rw [Function.update_of_ne hqp] at hq
    exact ⟨q, hq⟩

theorem ends (hp : Paid s) {e : Ending} (hi : Inv (s.ends p e)) : Paid (s.ends p e) where
  inv := hi
  worth := fun i T hT => by
    obtain ⟨S, hS, rfl⟩ := Option.map_eq_some_iff.1 hT
    rw [State.ends_taken, taken_update]
    exact (hp.worth i S hS).undo p ((hp.inv.counted i S hS).undo p).1 (setting_update (fun hc => by cases hc))
  fresh := fun i hle q => by
    rw [State.ends_taken]
    by_cases hqp : q = p
    · subst hqp
      rw [Function.update_self]
    · rw [Function.update_of_ne hqp]
      exact hp.fresh i hle q

theorem goto (hp : Paid s) {pc' : Pc} (hi : Inv (s.goto p pc')) (hne : ∀ i, pc' ≠ .createSet1 i) :
    Paid (s.goto p pc') where
  inv := hi
  worth := fun i S hS => (hp.worth i S hS).weaken (setting_update (hne i))
  fresh := hp.fresh

/-- A process changes its set, its place and what it has taken there. -/
theorem change (hp : Paid s) {id : Nat} {S S' : SemSet P (Fin 3)} {pc' : Pc} {t : Int} (hi : Inv s')
    (hS : s.set id = some S) (hset : s'.set = Function.update s.set id (some S'))
    (hpc : s'.pc = Function.update s.pc p pc')
    (htaken : s'.taken = Function.update s.taken p (Function.update (s.taken p) id t)) (hnext : s'.next = s.next)
    (hinitial : ∀ i, i ≠ id → s'.initial i = s.initial i) (hne : ∀ i, i ≠ id → pc' ≠ .createSet1 i)
    (hworth : Worth S' (Function.update (fun q => s.taken q id) p t) (s'.initial id) (∃ q, s'.pc q = .createSet1 id)) :
    Paid s' where
  inv := hi
  worth := fun i T hT => by
    by_cases heq : i = id
    · subst heq
      rw [hset, Function.update_self] at hT
      obtain rfl := Option.some.inj hT
      rwa [htaken, taken_update, Function.update_self]
    · rw [hset, Function.update_of_ne heq] at hT
      rw [htaken, taken_update, Function.update_of_ne heq, Function.update_eq_self p (fun q => s.taken q i),
        hinitial i heq, hpc]
      exact (hp.worth i T hT).weaken (setting_update (hne i heq))
  fresh := fun i hle q => by
    rw [hnext] at hle
    have heq : i ≠ id := fun heq => by
      have hnone := (hp.inv.fresh i hle).1
      rw [heq, hS] at hnone
      cases hnone
    rw [htaken]
    by_cases hqp : q = p
    · subst hqp
      rw [Function.update_self, Function.update_of_ne heq]
      exact hp.fresh i hle q
    · rw [Function.update_of_ne hqp]
      exact hp.fresh i hle q

theorem goStep (hp : Paid s) (hok : careful s (.go p true) = true) (h : goStep s p = some s') : Paid s' := by
  have hi := hp.inv.goStep (Bool.and_eq_true_iff.1 hok).1 h
  cases goStep_cases h with
  | fails msg _ => exact hp.ends hi
  | dumps => exact hp.ends hi
  | walks pc' hw =>
    refine hp.goto hi (fun i hc => ?_)
    subst hc
    generalize s.pc p = pc at hw
    cases hw
  | @makes key v hpc hkey =>
    refine ⟨hi, fun i T hT => ?_, fun i hle => hp.fresh i (Nat.le_of_succ_le hle)⟩
    by_cases heq : i = s.next
    · subst heq
      rw [State.goto_set, State.create_set, Function.update_self] at hT
      obtain rfl := Option.some.inj hT
      refine .zero (hp.fresh s.next (Nat.le_refl _)) (fun hsetting => ?_)
      obtain ⟨q, hq⟩ := setting_update (fun hc => by cases hc) hsetting
      have hout := ((hp.inv.fresh s.next (Nat.le_refl _)).2 q).2
      rw [show s.pc q = .createSet1 s.next from hq] at hout
      simp [region] at hout
    · rw [State.goto_set, State.create_set, Function.update_of_ne heq] at hT
      exact (hp.worth i T hT).weaken (setting_update (fun hc => by cases hc))
  | @removes id S hpc hS =>
    refine ⟨hi, fun i T hT => ?_, hp.fresh⟩
    by_cases heq : i = id
    · subst heq
      rw [State.goto_set, State.remove_set, Function.update_self] at hT
      cases hT
    · rw [State.goto_set, State.remove_set, Function.update_of_ne heq] at hT
      exact (hp.worth i T hT).weaken (setting_update (fun hc => by cases hc))
  | @sets0 v id S hpc hneg hmax hS =>
    have hzero := (hp.inv.counted id S hS).blank p (by simp [hpc, region])
    have hset := ((hp.worth id S hS).set0 (v := v.toNat) (by omega) hzero)
    refine hp.change (t := s.taken p id) hi hS rfl rfl ?_ rfl (fun i hne => Function.update_of_ne hne ..)
      (fun i hne hc => hne (Pc.createSet1.inj hc).symm) ?_
    · simp [State.put, State.goto]
    · dsimp only
      rw [Function.update_eq_self p (fun q => s.taken q id), Function.update_self]
      exact hset.weaken (fun _ => trivial)
  | @sets1 id S hpc hS =>
    refine hp.change (t := s.taken p id) hi hS rfl rfl ?_ rfl (fun _ _ => rfl) (fun _ _ hc => by cases hc) ?_
    · simp [State.put, State.goto]
    · rw [Function.update_eq_self p (fun q => s.taken q id)]
      exact (hp.worth id S hS).set1 ⟨p, hpc⟩
  | @operates id n ops pc' value S S' s' hop hS hS' hs =>
    have hne : ∀ i, pc' ≠ .createSet1 i := hop.next_ne_createSet1
    have htake : value ≤ s.taken p id ∧ (S.total 1 = 0 → value = s.taken p id) := by
      rcases hop.value_cases with rfl | hpc
      · exact ⟨(hp.worth id S hS).nonneg p, fun hzero => ((hp.worth id S hS).unset hzero p).symm⟩
      · have hop' : 0 < s.refs p id ∧ value ≤ s.taken p id := by simpa [careful, proper, hpc] using hok
        have htotal := (hp.inv.counted id S hS).total_of_open hop'.1
        have hpos := Counted.bigCount_pos
        exact ⟨hop'.2, fun hzero => by omega⟩
    have h₀ := SemSet.semop_moved 0 hop.undone hS'
    rw [hop.delta_value] at h₀
    have h₁ := (SemSet.semop_moved 1 hop.undone hS').total
    refine hp.change hi hS hs.set hs.pc hs.taken hs.next (fun _ _ => congrFun hs.initial _) (fun i _ => hne i) ?_
    rw [hs.initial]
    refine (hp.worth id S hS).moved h₀ h₁ htake.1 htake.2 (fun hsetting => ?_)
    rw [hs.pc] at hsetting
    exact setting_update (hne id) hsetting

theorem step (hp : Paid s) {a : Act P} (hok : careful s a = true) (h : step s a = some s') : Paid s' := by
  have hi := hp.inv.step (Bool.and_eq_true_iff.1 hok).1 h
  cases a with
  | call p c =>
    obtain ⟨-, ⟨-, -, -, -, rfl⟩ | ⟨pc', rfl, hentry⟩⟩ := callStep_cases h
    · exact hp.ends hi
    · exact hp.goto hi (fun i hc => by cases hentry <;> cases hc)
  | exit p =>
    obtain rfl := exitStep_cases h
    exact hp.ends hi
  | go p success =>
    cases success with
    | true => exact hp.goStep hok h
    | false =>
      rcases failStep_cases h with ⟨msg, rfl⟩ | ⟨rfl, -⟩
      · exact hp.ends hi
      · exact hp.goto hi (fun _ hc => by cases hc)

end Paid

/-- **The value and what is taken of it are what was set**, in every run that gives back only what it has taken, whichever
processes end in it. -/
theorem semaph_value [DecidableEq P] (as : List (Act P)) (s : State P) (h : run (restrict careful step) as init = some s)
    (id : Nat) (S : SemSet P (Fin 3)) (hS : s.set id = some S) (hset : S.val 1 ≠ 0) :
    S.val 0 + ∑ p, s.taken p id = s.initial id ∧ ∀ p, 0 ≤ s.taken p id := by
  have hinit : Paid (init : State P) := ⟨inv_init, (fun i T hT => by cases hT), (fun _ _ _ => rfl)⟩
  have hp := restrict_inv Paid (fun _ _ _ hp hok hs => hp.step hok hs) as init s hinit h
  have hw := hp.worth id S hS
  have hc := hp.inv.counted id S hS
  have hvalue := hw.value (.inl (hc.refTotal.resolve_left (fun h0 => hset ((hc.value_zero (hp.inv.few id)).2 h0))))
  exact ⟨by rw [hw.total, hvalue], hw.nonneg⟩

/-- One process waits for the semaphore and dies, and the other gets it. -/
def waitDies : List (Act Bool) :=
  [.call false (.create 5 1), .go false true, .go false true, .go false true, .go false true, .go false true,
    .go false true, .call false (.wait 0), .go false true, .call true (.create 5 1), .go true true, .go true true,
    .go true true, .go true true, .exit false, .call true (.wait 0), .go true true]

theorem semaph_value_dies : ∃ s, run (restrict careful step) waitDies init = some s ∧ ∃ S, s.set 0 = some S ∧
    S.val 1 ≠ 0 ∧ S.val 0 + ∑ p, s.taken p 0 = s.initial 0 ∧ ∀ p, 0 ≤ s.taken p 0 := by
  have hrun : ((run (restrict careful step) waitDies init).any
      (fun s => (s.set 0).any (fun S => decide (S.val 1 ≠ 0)))) = true := by decide +kernel
  obtain ⟨s, hs, hany⟩ := (Option.any_eq_true _ _).1 hrun
  obtain ⟨S, hS, hset⟩ := (Option.any_eq_true _ _).1 hany
  exact ⟨s, hs, S, hS, of_decide_eq_true hset, semaph_value _ s hs 0 S hS (of_decide_eq_true hset)⟩

end Semaph
end Cc
