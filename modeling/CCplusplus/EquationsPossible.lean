import CCplusplus.EquationsLinks
/-!
# EquationsPossible — when `equationsPossible` is right

The function always returns, and it refuses only lists that no assignment satisfies.  It refuses one where an inequation
that the list violates is of a letter with itself, or of two letters of a class that no join has torn
(`equationsPossible_right`); where all of them are in classes with a join that is not flat, it may accept the list.
-/
namespace Cc
namespace Equations

open CLib

/-! ## The loops and the links -/

theorem rootOf_ne {P : Int → Int} {eqs : List (Int × Int)} (h : LinksInv P eqs) (x : Int) :
    rootOf P x ≠ -1 ↔ P x ≠ -1 := by
  unfold rootOf
  by_cases hx : P x = -1
  · rw [if_pos hx]
    exact ⟨fun hn => absurd rfl hn, fun hn => absurd hx hn⟩
  · rw [if_neg hx]
    exact ⟨fun _ => hx, fun _ => h.closed x hx⟩

theorem linkOf_ok (P : Int → Int) {x : Int} (hx : 0 ≤ x ∧ x < 26) : linkOf P x = .ok (P x) := if_pos hx

theorem setLink_ok (P : Int → Int) {x : Int} (hx : 0 ≤ x ∧ x < 26) (v : Int) : setLink P x v = .ok (setAt P x v) :=
  if_pos hx

/-- `find_root` stops after two links. -/
theorem findRoot_eq {P : Int → Int} {eqs : List (Int × Int)} (h : LinksInv P eqs) {x : Int} (hx : 0 ≤ x ∧ x < 26)
    (n : Nat) : findRoot (n + 2) x P = .ok (rootOf P x) := by
  unfold findRoot rootOf
  by_cases hP : P x = -1
  · simp [whileLoop, linkOf_ok P hx, hP]
  · have hr := h.range _ (h.closed x hP)
    simp [whileLoop, linkOf_ok P hx, linkOf_ok P hr, hP]

/-- The two letters of an equation. -/
def letters (tmp : List Char) : Int × Int := (letter (charAt tmp 0), letter (charAt tmp 3))

theorem letter_range {c : Char} (h : isLetter c = true) : 0 ≤ letter c ∧ letter c < 26 := by
  unfold isLetter at h
  rw [Bool.and_eq_true, decide_eq_true_eq, decide_eq_true_eq] at h
  obtain ⟨h1, h2⟩ := h
  have ha : 'a'.toNat = 97 := rfl
  have hz : 'z'.toNat = 122 := rfl
  unfold letter
  omega

/-- What a well-formed equation is. -/
theorem wellFormed_cases {tmp : List Char} (h : wellFormed tmp = true) :
    ((0 ≤ (letters tmp).1 ∧ (letters tmp).1 < 26) ∧ 0 ≤ (letters tmp).2 ∧ (letters tmp).2 < 26) ∧
    (charAt tmp 1 = '=' ∨ charAt tmp 1 = '!') := by
  unfold wellFormed at h
  split at h
  · rename_i x c y
    rw [Bool.and_eq_true, Bool.and_eq_true, Bool.or_eq_true, beq_iff_eq, beq_iff_eq] at h
    obtain ⟨⟨hx, hy⟩, hc⟩ := h
    exact ⟨⟨letter_range hx, letter_range hy⟩, hc⟩
  · cases h

theorem unionEq_eq {P : Int → Int} {eqs : List (Int × Int)} (h : LinksInv P eqs) {tmp : List Char}
    (hwf : wellFormed tmp = true) (n : Nat) :
    unionEq (n + 2) tmp P = .ok (if charAt tmp 1 = '=' then join P (letters tmp).1 (letters tmp).2 else P) := by
  obtain ⟨⟨hj, hk⟩, -⟩ := wellFormed_cases hwf
  unfold unionEq
  by_cases hc : charAt tmp 1 = '='
  · rw [if_pos hc, if_pos hc]
    have ej : letter (charAt tmp 0) = (letters tmp).1 := rfl
    have ek : letter (charAt tmp 3) = (letters tmp).2 := rfl
    rw [ej, ek]
    dsimp only
    rw [findRoot_eq h hj, findRoot_eq h hk]
    generalize (letters tmp).1 = j at *
    generalize (letters tmp).2 = k at *
    simp only [ok_bind, rootOf_ne h, join]
    unfold rootOf
    by_cases hPj : P j = -1
    · by_cases hPk : P k = -1
      · simp [hPj, hPk, setLink_ok _ hj, setLink_ok _ hk]
      · simp [hPj, hPk, setLink_ok _ hj]
    · by_cases hPk : P k = -1
      · simp [hPj, hPk, setLink_ok _ hk]
      · simp [hPj, hPk, linkOf_ok P hk, setLink_ok _ hk, setLink_ok _ (h.range _ (h.closed k hPk))]
  · rw [if_neg hc, if_neg hc]
    rfl

theorem pairs_concat (c : Char) (equations : List (List Char)) (tmp : List Char) :
    pairs c (equations ++ [tmp]) = pairs c equations ++ if charAt tmp 1 = c then [letters tmp] else [] := by
  unfold pairs letters
  rw [List.filter_append, List.map_append]
  by_cases hc : charAt tmp 1 = c
  · simp [hc]
  · simp [hc]

theorem mem_pairs {c : Char} {equations : List (List Char)} {p : Int × Int} :
    p ∈ pairs c equations ↔ ∃ tmp ∈ equations, charAt tmp 1 = c ∧ letters tmp = p := by
  unfold pairs letters
  simp only [List.mem_map, List.mem_filter, beq_iff_eq]
  constructor
  · rintro ⟨tmp, ⟨h1, h2⟩, h3⟩
    exact ⟨tmp, h1, h2, h3⟩
  · rintro ⟨tmp, h1, h2, h3⟩
    exact ⟨tmp, ⟨h1, h2⟩, h3⟩

theorem toShort_eq {x : Int} (h0 : -32768 ≤ x) (h1 : x ≤ 32767) : toShort x = x :=
  Int.bmod_eq_of_le (by omega) (by omega)

theorem equationAt_ok {equations : List (List Char)} {i : Nat} (hi : i < equations.length) :
    equationAt equations i = .ok equations[i] := by
  unfold equationAt
  rw [if_pos (Int.natCast_nonneg i), Int.toNat_natCast, List.getElem?_eq_getElem hi]

section
variable {equations : List (List Char)} (hwf : ∀ tmp ∈ equations, wellFormed tmp = true)
include hwf

theorem pairs_inRange (c : Char) : InRange (pairs c equations) := by
  intro p hp
  obtain ⟨tmp, h1, -, rfl⟩ := mem_pairs.1 hp
  exact (wellFormed_cases (hwf tmp h1)).1

/-- A turn of the first loop. -/
theorem unionTurn_ok {i : Nat} (hlt : i < equations.length) (n : Nat) :
    (do
      let tmp ← equationAt equations i
      let eqSet ← unionEq (n + 2) tmp (links (pairs '=' (equations.take i)))
      pure (toShort ((i : Int) + 1), eqSet)) =
      (.ok (toShort ((i : Int) + 1), links (pairs '=' (equations.take (i + 1)))) : Exec (Int × (Int → Int))) := by
  have hwf' : ∀ tmp ∈ equations.take i, wellFormed tmp = true := fun tmp ht => hwf tmp (List.mem_of_mem_take ht)
  have hinv := links_inv _ (pairs_inRange hwf' '=')
  simp only [equationAt_ok hlt, ok_bind, unionEq_eq hinv (hwf _ (List.getElem_mem hlt)), pure_eq_ok]
  rw [← List.take_append_getElem hlt, pairs_concat]
  by_cases hc : charAt equations[i] 1 = '='
  · rw [if_pos hc, if_pos hc, links_concat]
  · rw [if_neg hc, if_neg hc, List.append_nil]

/-- **The first loop leaves the links of the `==` equations.** -/
theorem unionLoop_eq (hlen : equations.length ≤ 32767) {n : Nat} (hn : equations.length < n + 2) :
    unionLoop (n + 2) equations equations.length = .ok (links (pairs '=' equations)) := by
  have hrun := whileLoop_total
    (fun (s : Int × (Int → Int)) => (pure (decide (s.1 < equations.length)) : Exec Bool))
    (fun s => do
      let tmp ← equationAt equations s.1
      let eqSet ← unionEq (n + 2) tmp s.2
      pure (toShort (s.1 + 1), eqSet))
    (fun s => ∃ i : Nat, s.1 = i ∧ i ≤ equations.length ∧ s.2 = links (pairs '=' (equations.take i)))
    (fun s => s.2 = links (pairs '=' equations)) (fun s => equations.length - s.1.toNat)
    (by
      rintro ⟨_, P⟩ ⟨i, rfl, hi, rfl⟩
      by_cases hlt : i < equations.length
      · right
        refine ⟨by simp [hlt], (((i + 1 : Nat) : Int), links (pairs '=' (equations.take (i + 1)))), ?_,
          ⟨i + 1, rfl, hlt, rfl⟩, by simp only [Int.toNat_natCast]; omega⟩
        have hshort : toShort ((i : Int) + 1) = ((i + 1 : Nat) : Int) := toShort_eq (by omega) (by omega)
        exact (unionTurn_ok hwf hlt n).trans (by rw [hshort])
      · left
        have he : i = equations.length := by omega
        subst he
        exact ⟨by simp, by simp [List.take_length]⟩)
    (n + 2) (0, fun _ => -1) ⟨0, rfl, Nat.zero_le _, rfl⟩ (by simpa using hn)
  obtain ⟨s, hs, hp⟩ := hrun
  unfold unionLoop
  rw [← hp]
  exact congrArg (· >>= fun s => pure s.2) hs

/-- What the second loop tests, of an inequation. -/
def refuted (P : Int → Int) (p : Int × Int) : Prop :=
  p.1 = p.2 ∨ rootOf P p.1 ≠ -1 ∧ rootOf P p.1 = rootOf P p.2

instance (P : Int → Int) : DecidablePred (refuted P) := fun _ => by unfold refuted; infer_instance

omit hwf in
theorem refutes_eq {P : Int → Int} {eqs : List (Int × Int)} (h : LinksInv P eqs) {tmp : List Char}
    (hw : wellFormed tmp = true) (n : Nat) :
    refutes (n + 2) tmp P = .ok (decide (charAt tmp 1 = '!' ∧ refuted P (letters tmp))) := by
  obtain ⟨⟨hj, hk⟩, -⟩ := wellFormed_cases hw
  unfold refutes refuted
  by_cases hc : charAt tmp 1 = '!'
  · have ej : letter (charAt tmp 0) = (letters tmp).1 := rfl
    have ek : letter (charAt tmp 3) = (letters tmp).2 := rfl
    rw [if_pos hc, ej, ek]
    dsimp only
    rw [findRoot_eq h hj, findRoot_eq h hk]
    by_cases hjk : (letters tmp).1 = (letters tmp).2
    · simp [hc, hjk]
    · simp [hc, hjk]
  · rw [if_neg hc]
    simp [hc]

/-- **The second loop refuses the list when one of its inequations is refuted.** -/
theorem checkLoop_eq {P : Int → Int} {eqs : List (Int × Int)} (h : LinksInv P eqs) {n : Nat}
    (hn : equations.length < n + 2) :
    ∃ b, checkLoop (n + 2) equations equations.length P = .ok b ∧
      (b = true ↔ ∀ p ∈ pairs '!' equations, ¬ refuted P p) := by
  have hrun := whileLoop_total
    (fun (s : Int × Bool) => (pure (decide (s.1 < equations.length) && s.2) : Exec Bool))
    (fun s => do
      let tmp ← equationAt equations s.1
      pure (s.1 + 1, !(← refutes (n + 2) tmp P)))
    (fun s => ∃ i : Nat, s.1 = i ∧ i ≤ equations.length ∧
      (s.2 = true ↔ ∀ p ∈ pairs '!' (equations.take i), ¬ refuted P p))
    (fun s => s.2 = true ↔ ∀ p ∈ pairs '!' equations, ¬ refuted P p)
    (fun s => equations.length - s.1.toNat)
    (by
      rintro ⟨_, b⟩ ⟨i, rfl, hi, hb⟩
      by_cases hlt : i < equations.length
      · cases b with
        | true =>
          right
          refine ⟨by simp [hlt],
            (((i + 1 : Nat) : Int), !decide (charAt equations[i] 1 = '!' ∧ refuted P (letters equations[i]))), ?_,
            ⟨i + 1, rfl, hlt, ?_⟩, by simp only [Int.toNat_natCast]; omega⟩
          · simp only [equationAt_ok hlt, ok_bind, refutes_eq h (hwf _ (List.getElem_mem hlt)), pure_eq_ok]
            rfl
          · have hold := hb.1 rfl
            rw [← List.take_append_getElem hlt, pairs_concat]
            by_cases hc : charAt equations[i] 1 = '!'
            · rw [if_pos hc]
              simp only [hc, true_and, Bool.not_eq_true', decide_eq_false_iff_not, List.mem_append, List.mem_singleton]
              constructor
              · rintro hr p (hp | rfl)
                · exact hold p hp
                · exact hr
              · intro hr
                exact hr _ (.inr rfl)
            · rw [if_neg hc, List.append_nil]
              simpa [hc] using hold
        | false =>
          -- an inequation was refuted
          left
          refine ⟨by simp, fun hb' => (by cases hb'), fun hall => hb.2 (fun p hp => hall p ?_)⟩
          obtain ⟨tmp, h1, h2⟩ := mem_pairs.1 hp
          exact mem_pairs.2 ⟨tmp, List.mem_of_mem_take h1, h2⟩
      · left
        have he : i = equations.length := by omega
        subst he
        rw [List.take_length] at hb
        exact ⟨by simp, hb⟩)
    (n + 2) (0, true) ⟨0, rfl, Nat.zero_le _, by simp [pairs]⟩ (by simpa using hn)
  obtain ⟨s, hs, hp⟩ := hrun
  unfold checkLoop
  exact ⟨s.2, congrArg (· >>= fun s => pure s.2) hs, hp⟩

/-! ## What the list says -/

omit hwf in
/-- Every letter can take a representative of its class. -/
theorem exists_representative (eqs : List (Int × Int)) : ∃ v : Int → Int, ∀ x y, Connected eqs x y ↔ v x = v y := by
  refine ⟨fun x => (Quotient.mk (Relation.EqvGen.setoid (fun x y => (x, y) ∈ eqs)) x).out, fun x y => ?_⟩
  rw [Quotient.out_inj, Quotient.eq]
  rfl

/-- **A list can be satisfied when it violates none of its inequations.** -/
theorem satisfiable_iff :
    Satisfiable equations ↔ ∀ p ∈ pairs '!' equations, ¬ Connected (pairs '=' equations) p.1 p.2 := by
  constructor
  · rintro ⟨v, hv⟩ p hp hc
    obtain ⟨tmp, ht, hne, rfl⟩ := mem_pairs.1 hp
    have hv' := hv tmp ht
    unfold holds at hv'
    rw [if_neg (by rw [hne]; decide)] at hv'
    apply hv'
    apply Connected.respects (f := v) _ hc
    intro q hq
    obtain ⟨tmp', ht', heq, rfl⟩ := mem_pairs.1 hq
    have hv'' := hv tmp' ht'
    unfold holds at hv''
    rwa [if_pos heq] at hv''
  · intro hall
    obtain ⟨v, hv⟩ := exists_representative (pairs '=' equations)
    refine ⟨v, fun tmp ht => ?_⟩
    unfold holds
    by_cases hc : charAt tmp 1 = '='
    · rw [if_pos hc]
      exact (hv _ _).1 (.rel _ _ (mem_pairs.2 ⟨tmp, ht, hc, rfl⟩))
    · rw [if_neg hc]
      have hne : charAt tmp 1 = '!' := (wellFormed_cases (hwf tmp ht)).2.resolve_left hc
      exact fun he => hall _ (mem_pairs.2 ⟨tmp, ht, hne, rfl⟩) ((hv _ _).2 he)

end

/-! ## When the function is right -/

/-- Every equation of the class of `x` joins flat, on the links of the equations before it. -/
def FlatWithin (eqs : List (Int × Int)) (x : Int) : Prop :=
  ∀ eqs₁ p eqs₂, eqs = eqs₁ ++ p :: eqs₂ → Connected eqs p.1 x → FlatJoin (links eqs₁) p.1 p.2

/-- The list violates an inequation of a letter with itself, or of two letters of a class all of whose joins are flat. -/
def Exposed (equations : List (List Char)) : Prop :=
  ∃ p ∈ pairs '!' equations, Connected (pairs '=' equations) p.1 p.2 ∧
    (p.1 = p.2 ∨ FlatWithin (pairs '=' equations) p.1)

theorem refuted_connected {P : Int → Int} {eqs : List (Int × Int)} (h : LinksInv P eqs) {p : Int × Int}
    (hp : refuted P p) : Connected eqs p.1 p.2 := by
  rcases hp with he | ⟨hne, he⟩
  · rw [he]
    exact .refl _
  · have h1 : P p.1 ≠ -1 := (rootOf_ne h _).1 hne
    have h2 : P p.2 ≠ -1 := (rootOf_ne h _).1 (he ▸ hne)
    have hroot : ∀ x, P x ≠ -1 → Connected eqs x (rootOf P x) := fun x hx => by
      unfold rootOf
      rw [if_neg hx]
      exact .trans _ _ _ (h.connected x hx) (h.connected _ (h.closed x hx))
    exact .trans _ _ _ (hroot _ h1) (he ▸ .symm _ _ (hroot _ h2))

/-- The joins of a class are flat also without the other classes. -/
theorem flatJoins_within {eqs : List (Int × Int)} (hr : InRange eqs) {K : Int → Bool} {x : Int} (hflat : FlatWithin eqs x)
    (hmem : ∀ y, K y = true → Connected eqs y x) : ∀ eqs₁ eqs₂, eqs = eqs₁ ++ eqs₂ → Closed K eqs₁ →
      FlatJoins (within K eqs₁) := by
  intro eqs₁
  induction eqs₁ using List.reverseRecOn with
  | nil =>
    intro _ _ _ l p l' hsplit
    simp [within] at hsplit
  | append_singleton eqs₁ p ih =>
    intro eqs₂ heq hK l q l' hsplit
    obtain ⟨hK', hp⟩ := hK.init
    have hbefore : eqs = eqs₁ ++ p :: eqs₂ := by rw [heq, List.append_assoc]; rfl
    have hrec := ih (p :: eqs₂) hbefore hK'
    have hr₁ : InRange eqs₁ := fun r hr' => hr r (by rw [hbefore]; exact List.mem_append_left _ hr')
    rw [within_concat] at hsplit
    by_cases hj : K p.1 = true
    · rw [if_pos hj] at hsplit
      rcases List.eq_nil_or_concat l' with rfl | ⟨l', r, rfl⟩
      · -- the join of `p` itself
        obtain ⟨rfl, hlast⟩ := List.append_inj' hsplit rfl
        obtain rfl := (List.cons.inj hlast).1
        exact flatJoin_within hr₁ hK' hj (hp.symm.trans hj) (hflat eqs₁ p eqs₂ hbefore (hmem p.1 hj))
      · rw [List.concat_eq_append, ← List.cons_append, ← List.append_assoc] at hsplit
        exact hrec l q l' (List.append_inj' hsplit rfl).1
    · rw [if_neg hj, List.append_nil] at hsplit
      exact hrec l q l' hsplit

/-- **A violated inequation within a class whose joins are flat is refuted.** -/
theorem refuted_of_flat {eqs : List (Int × Int)} (hr : InRange eqs) {p : Int × Int} (hc : Connected eqs p.1 p.2)
    (hflat : p.1 = p.2 ∨ FlatWithin eqs p.1) : refuted (links eqs) p := by
  classical
  rcases hc.seen with he | ⟨h1, h2⟩
  · exact .inl he
  rcases hflat with he | hflat
  · exact .inl he
  have hi := links_inv eqs hr
  -- the class of the two letters
  let K : Int → Bool := fun y => decide (Connected eqs y p.1)
  have hK : Closed K eqs := fun q hq => by
    have hq' : Connected eqs q.1 q.2 := .rel _ _ hq
    exact decide_eq_decide.2 ⟨fun h => .trans _ _ _ (.symm _ _ hq') h, fun h => .trans _ _ _ hq' h⟩
  have hK1 : K p.1 = true := decide_eq_true (.refl _)
  have hK2 : K p.2 = true := decide_eq_true (.symm _ _ hc)
  have htwo := links_twoLinks (within K eqs) hr.within
    (flatJoins_within hr hflat (fun y hy => of_decide_eq_true hy) eqs [] (List.append_nil eqs).symm hK)
  have hroots := Connected.respects (f := fun x => links (within K eqs) (links (within K eqs) x)) htwo.joined
    (hc.within hK hK1)
  have hone : ∀ y, K y = true → links (within K eqs) y = links eqs y := fun y hy => links_within hr hK hy
  have hP1 := (hi.seen p.1).2 h1
  have hP2 := (hi.seen p.2).2 h2
  simp only [hone p.1 hK1, hone p.2 hK2] at hroots
  rw [hone _ ((hi.closed_within hK hP1).trans hK1), hone _ ((hi.closed_within hK hP2).trans hK2)] at hroots
  refine .inr ⟨(rootOf_ne hi p.1).2 hP1, ?_⟩
  unfold rootOf
  rw [if_neg hP1, if_neg hP2, hroots]

/-- **`equationsPossible` returns, and its answer is right where the list can be satisfied, and where an inequation that it
violates is exposed**; so it is right whenever every join is flat. -/
theorem equationsPossible_right (equations : List (List Char)) (hwf : ∀ tmp ∈ equations, wellFormed tmp = true)
    (hlen : equations.length ≤ 32767) (fuel : Nat) (hfuel : equations.length + 2 ≤ fuel) :
    ∃ b, equationsPossible fuel equations equations.length = .ok b ∧
      (Satisfiable equations ∨ Exposed equations → (b = true ↔ Satisfiable equations)) ∧
      (FlatJoins (pairs '=' equations) → (b = true ↔ Satisfiable equations)) ∧
      (Satisfiable equations ↔ ∀ p ∈ pairs '!' equations, ¬ Connected (pairs '=' equations) p.1 p.2) := by
  obtain ⟨n, rfl⟩ : ∃ n, fuel = n + 2 := ⟨fuel - 2, by omega⟩
  have hr := pairs_inRange hwf '='
  have hinv := links_inv _ hr
  have hsat := satisfiable_iff hwf
  obtain ⟨b, hb, hiff⟩ := checkLoop_eq hwf hinv (n := n) (by omega)
  have hsound : Satisfiable equations → b = true := fun hs =>
    hiff.2 (fun p hp hr => hsat.1 hs p hp (refuted_connected hinv hr))
  have hright : Satisfiable equations ∨ Exposed equations → (b = true ↔ Satisfiable equations) := by
    rintro (hs | ⟨p, hp, hc, hflat⟩)
    · exact ⟨fun _ => hs, fun _ => hsound hs⟩
    · exact ⟨fun hbt => absurd (refuted_of_flat hr hc hflat) (hiff.1 hbt p hp), hsound⟩
  refine ⟨b, ?_, hright, fun hflat => hright ?_, hsat⟩
  · unfold equationsPossible
    rw [unionLoop_eq hwf hlen (by omega)]
    exact hb
  · by_cases hs : Satisfiable equations
    · exact .inl hs
    · obtain ⟨p, hp, hc⟩ : ∃ p ∈ pairs '!' equations, Connected (pairs '=' equations) p.1 p.2 := by
        by_contra hnone
        exact hs (hsat.2 fun p hp hc => hnone ⟨p, hp, hc⟩)
      exact .inr ⟨p, hp, hc, .inr fun eqs₁ q eqs₂ heq _ => hflat eqs₁ q eqs₂ heq⟩

/-- At `a==b`, `b!=a`, whose one join is flat. -/
theorem equationsPossible_right_two :
    ∃ b, equationsPossible 4 [['a', '=', '=', 'b'], ['b', '!', '=', 'a']] 2 = .ok b ∧
      (b = true ↔ Satisfiable [['a', '=', '=', 'b'], ['b', '!', '=', 'a']]) := by
  obtain ⟨b, hb, -, hright, -⟩ := equationsPossible_right [['a', '=', '=', 'b'], ['b', '!', '=', 'a']] (by decide)
    (by decide) 4 (by decide)
  refine ⟨b, hb, hright ?_⟩
  rintro (_ | ⟨q, eqs₁⟩) p eqs₂ hsplit
  · exact fun hseen => absurd rfl hseen
  · have hlength := congrArg List.length hsplit
    rw [List.cons_append, List.length_cons, List.length_append, List.length_cons] at hlength
    have hone : (pairs '=' [['a', '=', '=', 'b'], ['b', '!', '=', 'a']]).length = 1 := by decide
    omega

/-- **Six equations after which `a` and `c` are equal, and are found apart.** -/
theorem equationsPossible_torn :
    (∀ tmp ∈ [['a', '=', '=', 'a'], ['b', '=', '=', 'b'], ['d', '=', '=', 'c'], ['b', '=', '=', 'd'],
      ['a', '=', '=', 'b'], ['a', '!', '=', 'c']], wellFormed tmp = true) ∧
    equationsPossible 8 [['a', '=', '=', 'a'], ['b', '=', '=', 'b'], ['d', '=', '=', 'c'], ['b', '=', '=', 'd'],
      ['a', '=', '=', 'b'], ['a', '!', '=', 'c']] 6 = .ok true ∧
    ¬ Satisfiable [['a', '=', '=', 'a'], ['b', '=', '=', 'b'], ['d', '=', '=', 'c'], ['b', '=', '=', 'd'],
      ['a', '=', '=', 'b'], ['a', '!', '=', 'c']] := by
  refine ⟨by decide, by decide, ?_⟩
  · rintro ⟨v, hv⟩
    have hdc := hv ['d', '=', '=', 'c'] (by decide)
    have hbd := hv ['b', '=', '=', 'd'] (by decide)
    have hab := hv ['a', '=', '=', 'b'] (by decide)
    have hac := hv ['a', '!', '=', 'c'] (by decide)
    exact hac (hab.trans (hbd.trans hdc))

end Equations
end Cc
