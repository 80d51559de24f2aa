import CCplusplus.SemaphCounts
/-!
# SemaphRaces — what the removal of a semaphore meets

`sem_close` removes a semaphore behind the lock, but `sem_open` opens it without the lock, and `sem_rm` asks nobody.  As
long as no process opens a semaphore between the last `GETVAL` of `sem_close` and its `IPC_RMID`, and `sem_rm` removes
only what nobody has open, a semaphore that a process has open is there; one step that does either can take it away from
under the process (`semaph_removed`).

`sem_create` goes back where the semaphore was removed before its `semop`, but not where it is removed while the `semop`
waits.  Among processes that use `sem_create`, `sem_close` and `sem_op` only, this is the one failure there is
(`sem_create_asleep`).
-/
namespace Cc
namespace Semaph

open CLib

variable {P : Type} [Fintype P] [DecidableEq P]

/-- What a process has open is there. -/
def Live (s : State P) : Prop := ∀ p id, 0 < s.refs p id → s.set id ≠ none

/-- `sem_rm` removes what nobody has open, and `sem_open` does not open what is about to be removed. -/
def spares (s : State P) : Act P → Bool
  | .go p true =>
    match s.pc p with
    | .rm id => decide (∀ q, s.refs q id = 0)
    | .openOp id => (s.set id).isNone || decide (∀ q, s.pc q ≠ .closeRm id)
    | _ => true
  | _ => true

structure Kept (s : State P) : Prop where
  inv : Inv s
  live : Live s
  last : ∀ p id, s.pc p = .closeRm id → s.set id ≠ none → ∀ q, s.refs q id = 0

omit [Fintype P] in
theorem ends_set_ne_none {s : State P} {p : P} {e : Ending} {id : Nat} :
    (s.ends p e).set id ≠ none ↔ s.set id ≠ none := by
  rw [State.ends_set, Ne, Option.map_eq_none_iff]

omit [Fintype P] in
theorem ends_refs_le (s : State P) (p : P) (e : Ending) (q : P) (id : Nat) : (s.ends p e).refs q id ≤ s.refs q id := by
  rw [State.ends_refs]
  by_cases hq : q = p
  · subst hq
    rw [Function.update_self]
    exact Nat.zero_le _
  · rw [Function.update_of_ne hq]

namespace Kept

variable {s s' : State P} {p : P}

theorem ends (hk : Kept s) (p : P) {e : Ending} (hi : Inv (s.ends p e)) : Kept (s.ends p e) where
  inv := hi
  live := fun q id hq => ends_set_ne_none.2 (hk.live q id (Nat.lt_of_lt_of_le hq (ends_refs_le s p e q id)))
  last := fun q id hq hset r => by
    have hne : q ≠ p := fun h => by
      rw [h, State.ends_pc, Function.update_self] at hq
      cases hq
    rw [State.ends_pc, Function.update_of_ne hne] at hq
    have hzero := hk.last q id hq (ends_set_ne_none.1 hset) r
    have hle := ends_refs_le s p e r id
    omega

theorem goto (hk : Kept s) {pc' : Pc} (hi : Inv (s.goto p pc'))
    (hlast : ∀ id, pc' = .closeRm id → ∀ q, s.refs q id = 0) : Kept (s.goto p pc') where
  inv := hi
  live := hk.live
  last := fun q id hq hset => by
    by_cases hqp : q = p
    · subst hqp
      exact hlast id (by rwa [State.goto_pc, Function.update_self] at hq)
    · exact hk.last q id (by rwa [State.goto_pc, Function.update_of_ne hqp] at hq) hset

/-- The set of one identifier is there afterwards, and the others are as they were. -/
theorem change (hk : Kept s) {id : Nat} {S' : SemSet P (Fin 3)} {pc' : Pc} (hi : Inv s')
    (hset : s'.set = Function.update s.set id (some S')) (hpc : s'.pc = Function.update s.pc p pc')
    (hrefs : ∀ q i, i ≠ id → s'.refs q i = s.refs q i) (hpc' : ∀ i, pc' ≠ .closeRm i)
    (hlast : ∀ q, q ≠ p → s.pc q = .closeRm id → ∀ r, s'.refs r id = 0) : Kept s' where
  inv := hi
  live := fun q i hq => by
    rw [hset]
    by_cases heq : i = id
    · subst heq
      rw [Function.update_self]
      exact Option.some_ne_none S'
    · rw [Function.update_of_ne heq]
      exact hk.live q i (by rwa [hrefs q i heq] at hq)
  last := fun q i hq hne r => by
    have hqp : q ≠ p := fun h => by
      rw [h, hpc, Function.update_self] at hq
      exact hpc' i hq
    rw [hpc, Function.update_of_ne hqp] at hq
    by_cases heq : i = id
    · subst heq
      exact hlast q hqp hq r
    · rw [hrefs r i heq]
      rw [hset, Function.update_of_ne heq] at hne
      exact hk.last q i hq hne r

/-- A system call that keeps the counts and removes nothing that is open. -/
theorem goStep (hk : Kept s) (hi : Inv s') (hok : spares s (.go p true) = true) (h : goStep s p = some s') :
    Kept s' := by
  cases goStep_cases h with
  | fails msg _ => exact hk.ends p hi
  | dumps => exact hk.ends p hi
  | walks pc' hw =>
    refine hk.goto hi (fun id hpc' q => ?_)
    subst hpc'
    generalize s.pc p = pc at hw
    cases hw with
    | @last _ S hS hcount =>
      have hle := (hk.inv.counted id S hS).ref_le q
      have htotal := (hk.inv.counted id S hS).total_le
      omega
  | @makes key initval hpc hkey =>
    refine hk.change hi rfl rfl (fun _ _ _ => rfl) (fun _ hc => by cases hc) (fun q _ _ r => ?_)
    exact ((hk.inv.fresh s.next (Nat.le_refl _)).2 r).1
  | @removes id S hpc hS =>
    have hzero : ∀ q, s.refs q id = 0 := by
      rcases hpc with hpc | hpc
      · simpa [spares, hpc] using hok
      · exact hk.last p id hpc (by rw [hS]; exact Option.some_ne_none S)
    refine ⟨hi, fun q i hq => ?_, fun q i hq hne => ?_⟩
    · have hne : i ≠ id := fun heq => by
        have := hzero q
        rw [← heq] at this
        exact absurd hq (by rw [State.goto_refs, show (s.remove id).refs q i = s.refs q i from rfl]; omega)
      rw [State.goto_set, State.remove_set, Function.update_of_ne hne]
      exact hk.live q i hq
    · have hqp : q ≠ p := fun heq => by
        rw [heq, State.goto_pc, Function.update_self] at hq
        cases hq
      rw [State.goto_pc, Function.update_of_ne hqp] at hq
      by_cases heq : i = id
      · subst heq
        exact hzero
      · rw [State.goto_set, State.remove_set, Function.update_of_ne heq] at hne
        exact hk.last q i hq hne
  | @sets0 initval id S hpc _ _ hS =>
    exact hk.change hi rfl rfl (fun _ _ _ => rfl) (fun _ hc => by cases hc)
      (fun q _ hq => hk.last q id hq (by rw [hS]; exact Option.some_ne_none S))
  | @sets1 id S hpc hS =>
    exact hk.change hi rfl rfl (fun _ _ _ => rfl) (fun _ hc => by cases hc)
      (fun q _ hq => hk.last q id hq (by rw [hS]; exact Option.some_ne_none S))
  | @operates id n ops pc' value S S' s' hop hS hS' hs =>
    have hrefs : ∀ q i, i ≠ id → s'.refs q i = s.refs q i := fun q i hne => by
      rw [hs.refs]
      by_cases hqp : q = p
      · subst hqp
        rw [Function.update_self, Function.update_of_ne hne]
      · rw [Function.update_of_ne hqp]
    refine hk.change hi hs.set hs.pc hrefs hop.next_ne_closeRm (fun q hqp hq r => ?_)
    have hzero := hk.last q id hq (by rw [hS]; exact Option.some_ne_none S)
    rw [hs.refs]
    by_cases hrp : r = p
    · subst hrp
      rw [Function.update_self, Function.update_self]
      rcases hop.refs_cases with hle | ⟨-, hpc | hpc⟩
      · have := hzero r
        omega
      · -- two processes would be behind the lock
        exact absurd ((hk.inv.counted id S hS).exclusive (p := q) (q := r) (by simp [hq, region]) (by simp [hpc, region])) hqp
      · have hclear : ∀ q, s.pc q ≠ .closeRm id := by simpa [spares, hpc, hS] using hok
        exact absurd hq (hclear q)
    · rw [Function.update_of_ne hrp]
      exact hzero r

theorem step (hk : Kept s) {a : Act P} (hok : spares s a = true) (h : restrict proper step s a = some s') : Kept s' := by
  obtain ⟨hproper, hstep⟩ := restrict_some h
  have hi := hk.inv.step hproper hstep
  cases a with
  | call p c =>
    obtain ⟨-, ⟨-, -, -, -, rfl⟩ | ⟨pc', rfl, hentry⟩⟩ := callStep_cases hstep
    · exact hk.ends p hi
    · exact hk.goto hi (fun id hpc' => by cases hentry <;> cases hpc')
  | exit p =>
    obtain rfl := exitStep_cases hstep
    exact hk.ends p hi
  | go p success =>
    cases success with
    | true => exact hk.goStep hi hok hstep
    | false =>
      rcases failStep_cases hstep with ⟨msg, rfl⟩ | ⟨rfl, -⟩
      · exact hk.ends p hi
      · exact hk.goto hi (fun _ hc => by cases hc)

end Kept

omit [Fintype P] in
theorem goStep_rm {s : State P} {p : P} {id : Nat} {S : SemSet P (Fin 3)} (hpc : s.pc p = .rm id ∨ s.pc p = .closeRm id)
    (hS : s.set id = some S) : goStep s p = some ((s.remove id).goto p (.idle 0)) := by
  rcases hpc with hpc | hpc <;> simp only [goStep, hpc, State.semctl, hS]

theorem goStep_open {s s' : State P} {p : P} {id : Nat} {S : SemSet P (Fin 3)} (hi : Inv s) (hpc : s.pc p = .openOp id)
    (hS : s.set id = some S) (h : goStep s p = some s') :
    ∃ S', Operated s p id S' (.idle id) (s.refs p id + 1) 0 s' := by
  have hop : Semop (s.refs p id) (s.pc p) id opOpen (.idle id) (s.refs p id + 1) 0 := hpc ▸ .open
  simp only [goStep, hpc] at h
  rcases State.semop_cases h with ⟨-, hnone | ⟨T, hT, hrange⟩⟩ | ⟨T, S', hT, hS', rfl⟩
  · rw [hS] at hnone
    cases hnone
  · exact absurd hrange (hi.in_range hop (fun i v hc => by rw [hpc] at hc; cases hc) hT)
  · exact ⟨S', .addRef s p id S' _ _⟩

omit [DecidableEq P] in
theorem spares_false [DecidableEq P] {s : State P} {a : Act P} (h : spares s a = false) :
    (∃ p id, a = .go p true ∧ s.pc p = .rm id ∧ ∃ q, 0 < s.refs q id) ∨
    ∃ p id S q, a = .go p true ∧ s.pc p = .openOp id ∧ s.set id = some S ∧ s.pc q = .closeRm id := by
  unfold spares at h
  split at h
  · rename_i p
    split at h
    · rename_i id hpc
      obtain ⟨q, hq⟩ := not_forall.1 (of_decide_eq_false h)
      exact .inl ⟨p, id, rfl, hpc, q, Nat.pos_of_ne_zero hq⟩
    · rename_i id hpc
      obtain ⟨hset, hany⟩ := Bool.or_eq_false_iff.1 h
      obtain ⟨S, hS⟩ := Option.isSome_iff_exists.1 (Option.isNone_eq_false_iff.1 hset)
      obtain ⟨q, hq⟩ := not_forall.1 (of_decide_eq_false hany)
      exact .inr ⟨p, id, S, q, rfl, hpc, hS, not_not.1 hq⟩
    · cases h
  · cases h

/-- **What a process has open is there** as long as nothing takes it away; and a step that opens what is about to be
removed, or removes what is open, can. -/
theorem semaph_removed : Exact spares (restrict proper step) Live (init : State P) := by
  refine exact_of_inv Kept ⟨inv_init, (fun p id h => by cases h), (fun p id h => by cases h)⟩
    (fun s a s' hk hok h => hk.step hok h) (fun s hk => hk.live) (fun s a s' hk h hok => ?_)
  obtain ⟨hproper, hstep⟩ := restrict_some h
  rcases spares_false hok with ⟨p, id, rfl, hpc, q, hq⟩ | ⟨p, id, S, q, rfl, hpc, hS, hq⟩
  · obtain ⟨S, hS⟩ := Option.ne_none_iff_exists'.1 (hk.live q id hq)
    obtain rfl := Option.some.inj (hstep.symm.trans (goStep_rm (.inl hpc) hS))
    exact ⟨_, .refl _, fun hlive => hlive q id hq (Function.update_self ..)⟩
  · have hqp : q ≠ p := fun heq => by
      rw [heq, hpc] at hq
      cases hq
    obtain ⟨S', hs'⟩ := goStep_open hk.inv hpc hS hstep
    have hq' : s'.pc q = .closeRm id := by rw [hs'.pc, Function.update_of_ne hqp, hq]
    have hS' : s'.set id = some S' := by rw [hs'.set, Function.update_self]
    have hnext : restrict proper step s' (.go q true) = some ((s'.remove id).goto q (.idle 0)) := by
      rw [restrict, if_pos (by simp [proper, hq'])]
      exact goStep_rm (.inr hq') hS'
    refine ⟨_, .of_step hnext, fun hlive => hlive p id ?_ (Function.update_self ..)⟩
    rw [show ((s'.remove id).goto q (.idle 0)).refs = s'.refs from rfl, hs'.refs, Function.update_self,
      Function.update_self]
    exact Nat.succ_pos _

/-! ## `sem_create` that waits -/

/-- A process uses `sem_create`, `sem_close` and `sem_op`, with values that the system takes. -/
def ordinary (s : State P) (a : Act P) : Bool :=
  proper s a &&
  match a with
  | .call _ (.create _ initval) => decide (0 ≤ initval ∧ initval ≤ SemSet.SEMVMX)
  | .call _ (.close _) => true
  | .call p (.op id value) => decide (value.bmod 65536 ≠ 0 ∧ 0 < s.refs p id)
  | .call _ _ => false
  | .go p true =>
    match s.pc p with
    | .op id value =>
      match s.set id with
      | some S => match S.semop p (opOp value) with | .error .range => false | _ => true
      | none => true
    | _ => true
  | .go p false => match s.pc p with | .createGet .. => true | _ => false
  | .exit _ => true

def Pc.asleepOn : Pc → Nat → Bool
  | .createAsleep _ _ i, id => i == id
  | _, _ => false

/-- Nobody waits in `sem_create` for what is removed. -/
def awake (s : State P) : Act P → Bool
  | .go p true =>
    match s.pc p with
    | .closeRm id => decide (∀ q, (s.pc q).asleepOn id = false)
    | _ => true
  | _ => true

def Unfailed (s : State P) : Prop := ∀ p msg, s.pc p ≠ .ended (.errSys msg)

def Pc.initval : Pc → Option Int
  | .createGet _ v => some v
  | .createLock _ v _ => some v
  | .createAsleep _ v _ => some v
  | .createGetval v _ => some v
  | .createSet0 v _ => some v
  | _ => none

def Pc.unused : Pc → Bool
  | .openGet _ => true
  | .openOp _ => true
  | .rm _ => true
  | .ended (.errSys _) => true
  | _ => false

/-- A process whose next system call does not fail. -/
structure Usual (s : State P) (p : P) : Prop where
  used : (s.pc p).unused = false
  there : ∀ id, (s.pc p).needs = some id → s.set id ≠ none
  initval : ∀ v, (s.pc p).initval = some v → 0 ≤ v ∧ v ≤ SemSet.SEMVMX
  opened : ∀ id v, s.pc p = .op id v → 0 < s.refs p id

omit [Fintype P] [DecidableEq P] in
theorem Usual.frame {s s' : State P} {q : P} (h : Usual s q) (hpc : s'.pc q = s.pc q) (hrefs : s'.refs q = s.refs q)
    (hset : ∀ id, (s.pc q).needs = some id → s.set id ≠ none → s'.set id ≠ none) : Usual s' q where
  used := hpc ▸ h.used
  there := fun id hid => by
    rw [hpc] at hid
    exact hset id hid (h.there id hid)
  initval := hpc ▸ h.initval
  opened := by
    rw [hpc, hrefs]
    exact h.opened

theorem proper_of_ordinary {s : State P} {a : Act P} (h : ordinary s a = true) : proper s a = true :=
  (Bool.and_eq_true_iff.1 h).1

structure Calm (s : State P) : Prop where
  kept : Kept s
  usual : ∀ p, Usual s p

namespace Calm

variable {s s' : State P} {p : P}

theorem not_fails (hc : Calm s) (hok : ordinary s (.go p true) = true) : ¬ Fails s p := by
  intro h
  cases h with
  | gone hneeds hnone => exact (hc.usual p).there _ hneeds hnone
  | @range id n ops pc' value S hop hS hrange =>
    by_cases hnot : ∀ i v, s.pc p ≠ .op i v
    · exact hc.kept.inv.in_range hop hnot hS hrange
    · simp only [not_forall, not_not] at hnot
      obtain ⟨i, v, hpc⟩ := hnot
      rw [hpc] at hop
      cases hop
      simp [ordinary, hpc, hS, hrange] at hok
  | @initval v id hpc hout =>
    have hrange := (hc.usual p).initval v (by rw [hpc]; rfl)
    omega

/-- A process goes on, and the sets that the others need stay. -/
theorem goes (hc : Calm s) {pc' : Pc} (hpc : s'.pc = Function.update s.pc p pc')
    (hrefs : ∀ q, q ≠ p → s'.refs q = s.refs q)
    (hset : ∀ q id, q ≠ p → (s.pc q).needs = some id → s.set id ≠ none → s'.set id ≠ none)
    (hused : pc'.unused = false) (hthere : ∀ id, pc'.needs = some id → s'.set id ≠ none)
    (hinit : ∀ v, pc'.initval = some v → 0 ≤ v ∧ v ≤ SemSet.SEMVMX)
    (hopened : ∀ id v, pc' = .op id v → 0 < s'.refs p id) (q : P) : Usual s' q := by
  by_cases hq : q = p
  · subst hq
    have hself : s'.pc q = pc' := by rw [hpc, Function.update_self]
    exact ⟨hself ▸ hused, hself ▸ hthere, hself ▸ hinit, hself ▸ hopened⟩
  · exact (hc.usual q).frame (by rw [hpc, Function.update_of_ne hq]) (hrefs q hq) (fun id => hset q id hq)

theorem ends (hc : Calm s) {e : Ending} (he : ∀ msg, e ≠ .errSys msg) (q : P) : Usual (s.ends p e) q := by
  have hused : (Pc.ended e).unused = false := by
    cases e with
    | errSys msg => exact absurd rfl (he msg)
    | _ => rfl
  exact hc.goes (s.ends_pc p e) (fun q hq => by rw [State.ends_refs, Function.update_of_ne hq]) (fun _ _ _ _ h => ends_set_ne_none.2 h)
    hused (fun _ hid => by cases hid) (fun _ hv => by cases hv) (fun _ _ hop => by cases hop) q

theorem walks (hc : Calm s) {pc' : Pc} (h : Walk s p (s.pc p) pc') (q : P) : Usual (s.goto p pc') q := by
  obtain ⟨hused, -, hinit, -⟩ := hc.usual p
  have hthere : ∀ {S : SemSet P (Fin 3)} {id i : Nat}, s.set id = some S → some id = some i → s.set i ≠ none :=
    fun hS hi => by
      obtain rfl := Option.some.inj hi
      rw [hS]
      exact Option.some_ne_none _
  generalize s.pc p = pc at h hused hinit
  refine hc.goes (s.goto_pc p pc') (fun _ _ => rfl) (fun _ _ _ _ h => h) ?_ (fun id hid => ?_) (fun v hv => ?_) ?_ q
  · cases h <;> first | rfl | exact hused
  · cases h with
    | sleeps hS => exact hthere hS hid
    | unset hS => exact hthere hS hid
    | isSet hS => exact hthere hS hid
    | last hS => exact hthere hS hid
    | others hS => exact hthere hS hid
    | opens => cases hused
    | _ => cases hid
  · cases h <;> first | exact hinit v hv | cases hv
  · intro id v hop
    subst hop
    cases h

/-- A set that was there is changed. -/
theorem changes (hc : Calm s) {id : Nat} {S' : SemSet P (Fin 3)} {pc' : Pc}
    (hset : s'.set = Function.update s.set id (some S')) (hpc : s'.pc = Function.update s.pc p pc')
    (hrefs : ∀ q, q ≠ p → s'.refs q = s.refs q) (hused : pc'.unused = false)
    (hneeds : ∀ i, pc'.needs = some i → i = id) (hinit : ∀ v, pc'.initval = some v → 0 ≤ v ∧ v ≤ SemSet.SEMVMX)
    (hop : ∀ i v, pc' ≠ .op i v) (q : P) : Usual s' q := by
  refine hc.goes hpc hrefs (fun q i _ _ hne => ?_) hused (fun i hi => ?_) hinit (fun i v h => absurd h (hop i v)) q
  · rw [hset]
    by_cases heq : i = id
    · subst heq
      rw [Function.update_self]
      exact Option.some_ne_none S'
    · rwa [Function.update_of_ne heq]
  · rw [hneeds i hi, hset, Function.update_self]
    exact Option.some_ne_none S'

/-- Nobody but the process that removes it needs the set. -/
theorem removes (hc : Calm s) {id : Nat} {S : SemSet P (Fin 3)} (hpc : s.pc p = .closeRm id) (hS : s.set id = some S)
    (hawake : ∀ q, (s.pc q).asleepOn id = false) {q : P} (hq : q ≠ p) : (s.pc q).needs ≠ some id := by
  intro hneeds
  have hzero : s.refs q id = 0 := hc.kept.last p id hpc (by rw [hS]; exact Option.some_ne_none S) q
  have hout : region (s.pc q) id = .out := by
    by_contra hin
    exact hq ((hc.kept.inv.counted id S hS).exclusive hin (by simp [hpc, region]))
  have hasleep := hawake q
  have hused := (hc.usual q).used
  have hopened := (hc.usual q).opened
  have hclosing := hc.kept.inv.closing q
  cases hpcq : s.pc q <;> simp_all [Pc.needs, region, Pc.asleepOn, Pc.unused]

theorem goStep (hc : Calm s) (hok : ordinary s (.go p true) = true) (haw : awake s (.go p true) = true)
    (h : goStep s p = some s') (q : P) : Usual s' q := by
  have hclose : ∀ {pc' : Pc} {n m id : Nat} {ops : List (Sembuf (Fin 3))} {v : Int}, Semop n (s.pc p) id ops pc' m v →
      pc'.unused = false ∧ (∀ i, pc'.needs = some i → i = id) ∧
      (∀ v, pc'.initval = some v → 0 ≤ v ∧ v ≤ SemSet.SEMVMX) ∧ ∀ i v, pc' ≠ .op i v := fun hop => by
    have hinit := (hc.usual p).initval
    generalize s.pc p = pc at hop hinit
    cases hop <;> simp_all [Pc.unused, Pc.needs, Pc.initval]
  cases goStep_cases h with
  | fails msg hf => exact absurd hf (hc.not_fails hok)
  | dumps => exact hc.ends (fun _ he => by cases he) q
  | walks pc' hw => exact hc.walks hw q
  | @makes key v hpc hkey =>
    have hinit := (hc.usual p).initval v (by rw [hpc]; rfl)
    have hgoto : ((s.create key).goto p (.createLock key v s.next)).pc = Function.update s.pc p _ := rfl
    refine hc.goes hgoto (fun _ _ => rfl) (fun _ i _ _ hne => ?_) rfl (fun _ hid => by cases hid) (fun w hw => ?_)
      (fun _ _ hop => by cases hop) q
    · rw [State.goto_set, State.create_set]
      by_cases heq : i = s.next
      · rw [heq, Function.update_self]
        exact Option.some_ne_none _
      · rwa [Function.update_of_ne heq]
    · cases hw
      exact hinit
  | @removes id S hpc hS =>
    have hrm : s.pc p = .closeRm id := hpc.resolve_left (fun hpc => by
      have hused := (hc.usual p).used
      rw [hpc] at hused
      cases hused)
    have hnone : ∀ q, (s.pc q).asleepOn id = false := by simpa [awake, hrm] using haw
    have hgoto : ((s.remove id).goto p (.idle 0)).pc = Function.update s.pc p (.idle 0) := rfl
    refine hc.goes hgoto (fun _ _ => rfl) (fun q i hq hneeds hne => ?_) rfl (fun _ hid => by cases hid)
      (fun _ hv => by cases hv) (fun _ _ hop => by cases hop) q
    have heq : i ≠ id := fun heq => hc.removes hrm hS hnone hq (heq ▸ hneeds)
    rwa [State.goto_set, State.remove_set, Function.update_of_ne heq]
  | @sets0 v id S hpc _ _ hS =>
    have hgoto : ((s.put id (S.setval 0 v.toNat)).goto p (.createSet1 id)).pc = Function.update s.pc p _ := rfl
    have hu : Usual ((s.put id (S.setval 0 v.toNat)).goto p (.createSet1 id)) q :=
      hc.changes rfl hgoto (fun _ _ => rfl) rfl (fun i hi => (Option.some.inj hi).symm) (fun _ hv => by cases hv)
        (fun _ _ hop => by cases hop) q
    exact ⟨hu.used, hu.there, hu.initval, hu.opened⟩
  | @sets1 id S hpc hS =>
    have hgoto : ((s.put id (S.setval 1 BIGCOUNT)).goto p (.createEnd id)).pc = Function.update s.pc p _ := rfl
    exact hc.changes rfl hgoto (fun _ _ => rfl) rfl (fun i hi => (Option.some.inj hi).symm) (fun _ hv => by cases hv)
      (fun _ _ hop => by cases hop) q
  | operates hop hS hS' hs =>
    obtain ⟨hused, hneeds, hinit, hnot⟩ := hclose hop
    exact hc.changes hs.set hs.pc (fun q hq => by rw [hs.refs, Function.update_of_ne hq]) hused hneeds hinit hnot q

theorem spares (hc : Calm s) (a : Act P) : spares s a = true := by
  by_contra hno
  rcases spares_false (Bool.eq_false_iff.2 hno) with ⟨p, id, -, hpc, -⟩ | ⟨p, id, -, -, -, hpc, -⟩
  · have hused := (hc.usual p).used
    rw [hpc] at hused
    cases hused
  · have hused := (hc.usual p).used
    rw [hpc] at hused
    cases hused

theorem step (hc : Calm s) {a : Act P} (haw : awake s a = true) (h : restrict ordinary step s a = some s') : Calm s' := by
  obtain ⟨hok, hstep⟩ := restrict_some h
  have hproper : restrict proper Semaph.step s a = some s' := by
    rw [restrict, if_pos (proper_of_ordinary hok), hstep]
  refine ⟨hc.kept.step (hc.spares a) hproper, ?_⟩
  cases a with
  | exit p =>
    obtain rfl := exitStep_cases hstep
    exact hc.ends (fun _ he => by cases he)
  | go p success =>
    cases success with
    | true => exact hc.goStep hok haw hstep
    | false =>
      have hget : (match s.pc p with | .createGet .. => true | _ => false) = true := (Bool.and_eq_true_iff.1 hok).2
      split at hget
      · rename_i key v hpc
        rw [Semaph.step, failStep, hpc] at hstep
        obtain rfl := Option.some.inj hstep
        exact hc.goes (s.goto_pc p _) (fun _ _ => rfl) (fun _ _ _ _ h => h) rfl (fun _ hid => by cases hid)
          (fun _ hv => by cases hv) (fun _ _ hop => by cases hop)
      · cases hget
  | call p c =>
    have hcall := (Bool.and_eq_true_iff.1 hok).2
    obtain ⟨-, ⟨id, value, rfl, hzero, -⟩ | ⟨pc', rfl, hentry⟩⟩ := callStep_cases hstep
    · exact absurd hzero (of_decide_eq_true hcall).1
    · have hlive : ∀ {i id : Nat}, 0 < s.refs p id → some id = some i → s.set i ≠ none := fun hpos heq =>
        Option.some.inj heq ▸ hc.kept.live p _ hpos
      refine hc.goes (s.goto_pc p pc') (fun _ _ => rfl) (fun _ _ _ _ h => h) ?_ (fun i hi => ?_) (fun v hv => ?_)
        (fun i v hop => ?_)
      · cases hentry <;> first | rfl | cases hcall
      · cases hentry with
        | close id => exact hlive (of_decide_eq_true (proper_of_ordinary hok)) hi
        | op id value => exact hlive (of_decide_eq_true hcall).2 hi
        | rm id => cases hcall
        | _ => cases hi
      · cases hentry with
        | create key initval =>
          obtain rfl := Option.some.inj hv
          exact of_decide_eq_true hcall
        | _ => cases hv
      · cases hentry <;> cases hop
        exact (of_decide_eq_true hcall).2

end Calm

omit [DecidableEq P] in
theorem awake_false {s : State P} {a : Act P} (h : awake s a = false) :
    ∃ p id q key v, a = .go p true ∧ s.pc p = .closeRm id ∧ s.pc q = .createAsleep key v id := by
  unfold awake at h
  split at h
  · rename_i p
    split at h
    · rename_i id hpc
      obtain ⟨q, hq⟩ := not_forall.1 (of_decide_eq_false h)
      rw [Bool.not_eq_false] at hq
      unfold Pc.asleepOn at hq
      split at hq
      · rename_i key v i hpcq
        exact ⟨p, i, q, key, v, rfl, by rw [hpc, eq_of_beq hq], hpcq⟩
      · cases hq
    · cases h
  · cases h

/-- A process that waits in `sem_create` for what is removed can go on to its end: the set is gone, and `EIDRM` is not
`EINVAL`. -/
theorem asleep_doomed {s s' : State P} {a : Act P} (hc : Calm s) (h : restrict ordinary step s a = some s')
    (haw : awake s a = false) : ∃ t q, Reach (restrict ordinary step) s' t ∧ t.pc q = .ended (.errSys "can't lock") := by
  obtain ⟨p, id, q, key, v, rfl, hpc, hq⟩ := awake_false haw
  obtain ⟨S, hS⟩ := Option.ne_none_iff_exists'.1 ((hc.usual p).there id (by rw [hpc]; rfl))
  obtain rfl := Option.some.inj ((restrict_some h).2.symm.trans (goStep_rm (.inr hpc) hS))
  have hqp : q ≠ p := fun heq => by
    rw [heq, hpc] at hq
    cases hq
  have hpcq : ((s.remove id).goto p (.idle 0)).pc q = .createAsleep key v id := by
    rw [State.goto_pc, Function.update_of_ne hqp]
    exact hq
  have hgone : ((s.remove id).goto p (.idle 0)).set id = none := Function.update_self ..
  have hdies : restrict ordinary step ((s.remove id).goto p (.idle 0)) (.go q true)
      = some (((s.remove id).goto p (.idle 0)).ends q (.errSys "can't lock")) := by
    rw [restrict, if_pos (by simp [ordinary, proper, hpcq])]
    simp only [step, goStep, hpcq, State.semop, hgone]
  exact ⟨_, q, .of_step hdies, Function.update_self ..⟩

/-- **No process dies of a semaphore that is removed**, as long as none waits in `sem_create` for it: there is a way
back for `EINVAL`, but the process that waits gets `EIDRM`, and dies with "can't lock". -/
theorem sem_create_asleep : Exact awake (restrict ordinary step) Unfailed (init : State P) ∧
    ∀ (as : List (Act P)) (s : State P) (a : Act P) (s' : State P),
      run (restrict awake (restrict ordinary step)) as init = some s → restrict ordinary step s a = some s' →
      awake s a = false →
      ∃ t q, Reach (restrict ordinary step) s' t ∧ t.pc q = .ended (.errSys "can't lock") := by
  have hkept : Kept (init : State P) := ⟨inv_init, (fun p id h => by cases h), (fun p id h => by cases h)⟩
  have hinit : Calm (init : State P) :=
    ⟨hkept, fun p => ⟨rfl, (fun id h => by cases h), (fun v h => by cases h), (fun i v h => by cases h)⟩⟩
  have hcalm : ∀ (as : List (Act P)) (s : State P), run (restrict awake (restrict ordinary step)) as init = some s →
      Calm s := fun as s h => restrict_inv Calm (fun s a s' hc haw h => hc.step haw h) as init s hinit h
  refine ⟨exact_of_inv Calm hinit (fun s a s' hc haw h => hc.step haw h) (fun s hc p msg hpc => ?_)
    (fun s a s' hc h haw => ?_), fun as s a s' hrun h haw => asleep_doomed (hcalm as s hrun) h haw⟩
  · have hused := (hc.usual p).used
    rw [hpc] at hused
    cases hused
  · obtain ⟨t, q, hreach, hdead⟩ := asleep_doomed hc h haw
    exact ⟨t, hreach, fun hall => hall q "can't lock" hdead⟩

end Semaph
end Cc
