import CCplusplus.EquationsBounds
import Mathlib.Logic.Function.Iterate
/-!
# EquationsForest — `eq_set` between the turns of the union loop

After each turn of the first loop `eq_set` holds the links of the equations up to there (`eqSetAt_iff`).  Its entries are
letters that have occurred, each connected to the next, and no access is outside it (`eqSet_tidy`).  It is a forest whose
roots `find_root` returns, after every turn, exactly when every join is flat (`eqSet_forest_iff`).
-/
namespace Cc
namespace Equations

open CLib

/-- `eq_set` after `n` equations: where turn `n` of the first loop starts, or where the loop is left. -/
inductive EqSetAt (fuel : Nat) (equations : List (List Char)) (n : Nat) (eqSet : Int → Int) : Prop where
  | turn {i : Int} (h : (turns (unionCond equations.length) (unionTurn fuel equations) fuel (0, fun _ => -1))[n]? =
      some (i, eqSet))
  | left (hn : n = equations.length) (h : unionLoop fuel equations equations.length = .ok eqSet)

theorem getElem?_linkTurns (equations : List (List Char)) {k n : Nat} (hk : n < k) :
    ((List.range k).map (fun k : Nat => ((k : Int), links (pairs '=' (equations.take k)))))[n]? =
      some ((n : Int), links (pairs '=' (equations.take n))) := by
  rw [List.getElem?_map, List.getElem?_range hk]
  rfl

section
variable {equations : List (List Char)} (hwf : ∀ tmp ∈ equations, wellFormed tmp = true)
include hwf

/-- **The loop comes to the first 32768 equations, and its turns go through the links.** -/
theorem eqSetAt_iff {fuel : Nat} (hfuel : equations.length + 2 ≤ fuel) {n : Nat} {eqSet : Int → Int} :
    EqSetAt fuel equations n eqSet ↔
      (n ≤ equations.length ∧ n ≤ 32768) ∧ eqSet = links (pairs '=' (equations.take n)) := by
  obtain ⟨f, rfl⟩ : ∃ f, fuel = f + 2 := ⟨fuel - 2, by omega⟩
  by_cases hlen : equations.length ≤ 32767
  · have hturns := turns_all hwf hlen (f := f) (by omega)
    constructor
    · rintro (h | ⟨rfl, h⟩)
      · rw [hturns] at h
        have hlt : n < equations.length := by
          by_contra hge
          rw [List.getElem?_eq_none (by simp; omega)] at h
          cases h
        rw [getElem?_linkTurns equations hlt] at h
        exact ⟨⟨by omega, by omega⟩, (Prod.mk.inj (Option.some.inj h)).2.symm⟩
      · rw [unionLoop_eq hwf hlen (by omega)] at h
        rw [List.take_length]
        exact ⟨⟨Nat.le_refl _, by omega⟩, (Except.ok.inj h).symm⟩
    · rintro ⟨⟨hn, -⟩, rfl⟩
      rcases Nat.lt_or_eq_of_le hn with hlt | rfl
      · exact .turn (by rw [hturns]; exact getElem?_linkTurns equations hlt)
      · exact .left rfl (by rw [List.take_length]; exact unionLoop_eq hwf hlen (by omega))
  · obtain ⟨-, hturns⟩ := turns_wrapped hwf (f := f) (by omega) (by omega)
    have hloop := unionLoop_wraps hwf (f := f) (by omega) (by omega)
    constructor
    · rintro (h | ⟨-, h⟩)
      · rw [hturns] at h
        by_cases hlt : n < 32768
        · rw [List.getElem?_append_left (by simpa using hlt), getElem?_linkTurns equations hlt] at h
          exact ⟨⟨by omega, by omega⟩, (Prod.mk.inj (Option.some.inj h)).2.symm⟩
        · by_cases he : n = 32768
          · subst he
            rw [List.getElem?_append_right (by simp)] at h
            simp only [List.length_map, List.length_range, Nat.sub_self, List.getElem?_cons_zero] at h
            exact ⟨⟨by omega, Nat.le_refl _⟩, (Prod.mk.inj (Option.some.inj h)).2.symm⟩
          · rw [List.getElem?_eq_none (by simp; omega)] at h
            cases h
      · rw [hloop] at h
        cases h
    · rintro ⟨⟨-, hn⟩, rfl⟩
      rcases Nat.lt_or_eq_of_le hn with hlt | rfl
      · refine .turn (i := n) ?_
        rw [hturns, List.getElem?_append_left (by simpa using hlt)]
        exact getElem?_linkTurns equations hlt
      · refine .turn (i := -32768) ?_
        rw [hturns, List.getElem?_append_right (by simp)]
        simp

theorem links_take_inv (n : Nat) :
    LinksInv (links (pairs '=' (equations.take n))) (pairs '=' (equations.take n)) :=
  links_inv _ (pairs_inRange (fun tmp ht => hwf tmp (List.mem_of_mem_take ht)) '=')

end

/-! ## Letters that have occurred -/

/-- What `eq_set` holds after the equations `eqs`.  An access outside it would be a fault, so `find_root` and the union of
the next equation stay inside. -/
structure Tidy (fuel : Nat) (eqSet : Int → Int) (eqs : List (Int × Int)) : Prop where
  unseen : ∀ x, 0 ≤ x → x < 26 → (eqSet x = -1 ↔ ¬ Seen eqs x)
  linked : ∀ x, 0 ≤ x → x < 26 → eqSet x ≠ -1 →
    (0 ≤ eqSet x ∧ eqSet x < 26) ∧ Seen eqs (eqSet x) ∧ Connected eqs x (eqSet x)
  root : ∀ x, 0 ≤ x → x < 26 → ∃ r, findRoot fuel x eqSet = .ok r ∧ (r = -1 ↔ ¬ Seen eqs x)
  union : ∀ tmp, wellFormed tmp = true → ∃ eqSet', unionEq fuel tmp eqSet = .ok eqSet'

theorem LinksInv.tidy {P : Int → Int} {eqs : List (Int × Int)} (h : LinksInv P eqs) (n : Nat) :
    Tidy (n + 2) P eqs where
  unseen := fun x _ _ => by rw [← h.seen, not_not]
  linked := fun x _ _ hx =>
    ⟨h.range _ (h.closed x hx), (h.seen _).1 (h.closed x hx), h.connected x hx⟩
  root := fun x h0 h26 => by
    refine ⟨rootOf P x, findRoot_eq h ⟨h0, h26⟩ n, ?_⟩
    rw [← h.seen, ← rootOf_ne h, not_not]
  union := fun tmp htmp => ⟨_, unionEq_eq h htmp n⟩

/-- **After every prefix of the equations `eq_set` is tidy**, and the loop comes to every prefix that its counter can
count. -/
theorem eqSet_tidy (equations : List (List Char)) (hwf : ∀ tmp ∈ equations, wellFormed tmp = true) (fuel : Nat)
    (hfuel : equations.length + 2 ≤ fuel) :
    (∀ n eqSet, EqSetAt fuel equations n eqSet → Tidy fuel eqSet (pairs '=' (equations.take n))) ∧
      ∀ n, n ≤ equations.length → n ≤ 32768 → ∃ eqSet, EqSetAt fuel equations n eqSet := by
  refine ⟨fun n eqSet h => ?_, fun n hlen hn => ⟨_, (eqSetAt_iff hwf hfuel).2 ⟨⟨hlen, hn⟩, rfl⟩⟩⟩
  obtain ⟨-, rfl⟩ := (eqSetAt_iff hwf hfuel).1 h
  obtain ⟨f, rfl⟩ : ∃ f, fuel = f + 2 := ⟨fuel - 2, by omega⟩
  exact (links_take_inv hwf n).tidy f

theorem eqSet_tidy_two :
    ∃ eqSet, EqSetAt 4 [['a', '=', '=', 'b'], ['c', '=', '=', 'b']] 2 eqSet ∧
      Tidy 4 eqSet (pairs '=' [['a', '=', '=', 'b'], ['c', '=', '=', 'b']]) := by
  obtain ⟨htidy, hcomes⟩ := eqSet_tidy [['a', '=', '=', 'b'], ['c', '=', '=', 'b']] (by decide) 4 (by decide)
  obtain ⟨eqSet, h⟩ := hcomes 2 (by decide) (by decide)
  exact ⟨eqSet, h, htidy 2 eqSet h⟩

/-! ## The forest -/

/-- The links are a forest with its roots at self-loops, and `find_root` tells its trees, which are the classes of the
equations, apart. -/
structure Forest (fuel : Nat) (eqSet : Int → Int) (eqs : List (Int × Int)) : Prop where
  cycles : ∀ x n, eqSet x ≠ -1 → 0 < n → eqSet^[n] x = x → eqSet x = x
  root : ∀ x, eqSet x ≠ -1 → ∃ r n, findRoot fuel x eqSet = .ok r ∧ eqSet^[n] x = r ∧ eqSet r = r
  trees : ∀ x y, eqSet x ≠ -1 → eqSet y ≠ -1 →
    (findRoot fuel x eqSet = findRoot fuel y eqSet ↔ Connected eqs x y)

theorem LinksInv.findRoot {P : Int → Int} {eqs : List (Int × Int)} (h : LinksInv P eqs) {x : Int} (hx : P x ≠ -1)
    (n : Nat) : findRoot (n + 2) x P = .ok (P (P x)) := by
  rw [findRoot_eq h (h.range x hx)]
  exact congrArg Except.ok (if_neg hx)

/-- From the second link on, a letter is at its root. -/
theorem TwoLinks.iterate {P : Int → Int} {eqs : List (Int × Int)} (h : TwoLinks P eqs) {x : Int} (hx : P x ≠ -1)
    (n : Nat) : P^[n + 2] x = P (P x) := by
  rw [Function.iterate_add_apply]
  exact Function.iterate_fixed (h.root x hx) n

/-- Two links from a letter lead to its class. -/
theorem LinksInv.connected_twice {P : Int → Int} {eqs : List (Int × Int)} (h : LinksInv P eqs) {x : Int}
    (hx : P x ≠ -1) : Connected eqs x (P (P x)) := .trans _ _ _ (h.connected x hx) (h.connected _ (h.closed x hx))

/-- **The forest is two links deep**: no deeper one is told apart by `find_root`. -/
theorem forest_iff {P : Int → Int} {eqs : List (Int × Int)} (hi : LinksInv P eqs) (n : Nat) :
    Forest (n + 2) P eqs ↔ TwoLinks P eqs := by
  constructor
  · intro h
    refine ⟨fun x hx => ?_, fun p hp => ?_⟩
    · obtain ⟨r, -, hr, -, hfix⟩ := h.root x hx
      rw [hi.findRoot hx] at hr
      obtain rfl := Except.ok.inj hr
      exact hfix
    · have h1 : P p.1 ≠ -1 := (hi.seen _).2 ⟨p, hp, .inl rfl⟩
      have h2 : P p.2 ≠ -1 := (hi.seen _).2 ⟨p, hp, .inr rfl⟩
      have hfind := (h.trees p.1 p.2 h1 h2).2 (.rel _ _ hp)
      rw [hi.findRoot h1, hi.findRoot h2] at hfind
      exact Except.ok.inj hfind
  · intro h
    refine ⟨fun x k hx hk hcycle => ?_, fun x hx => ?_, fun x y hx hy => ?_⟩
    · -- twice around the cycle is two links or more
      have htwice : P^[k + k] x = x := by rw [Function.iterate_add_apply, hcycle, hcycle]
      obtain ⟨d, hd⟩ : ∃ d, k + k = d + 2 := ⟨k + k - 2, by omega⟩
      rw [hd, h.iterate hx] at htwice
      calc P x = P (P (P x)) := by rw [htwice]
        _ = P (P x) := h.root x hx
        _ = x := htwice
    · exact ⟨_, 2, hi.findRoot hx n, h.iterate hx 0, h.root x hx⟩
    · rw [hi.findRoot hx, hi.findRoot hy]
      constructor
      · intro he
        have hroot : P (P x) = P (P y) := Except.ok.inj he
        exact .trans _ _ _ (hi.connected_twice hx) (hroot ▸ .symm _ _ (hi.connected_twice hy))
      · intro hc
        exact congrArg Except.ok (hc.respects (f := fun z => P (P z)) h.joined)

/-- **A join that tears nothing is flat.** -/
theorem flatJoin_of_twoLinks {P : Int → Int} {eqs : List (Int × Int)} {j k : Int} (hi : LinksInv P eqs)
    (h : TwoLinks P eqs) (h' : TwoLinks (join P j k) (eqs ++ [(j, k)])) : FlatJoin P j k := by
  intro hj hk hne x hx
  by_contra hdeep
  simp only [not_or] at hdeep
  obtain ⟨hxk, hxPk, hPxk, hPxPk⟩ := hdeep
  have hxs : P x ≠ -1 := fun he => by
    rw [he] at hx
    have hrange := hi.range (-1) (hx ▸ hi.closed k hk)
    omega
  have hP' : ∀ y, join P j k y = if y = P k ∨ y = k then P (P j) else P y := fun y => by
    unfold join
    rw [if_pos hj, if_pos hk, setAt_twice]
  generalize join P j k = P' at h' hP'
  -- the letter still hangs from the old root
  have hold : P' (P' x) = P (P k) := by
    rw [hP' x, if_neg (not_or.2 ⟨hxPk, hxk⟩), hP', if_neg (not_or.2 ⟨hPxPk, hPxk⟩), hx]
  -- and `k` from the new one
  have hnew : P' (P' k) = P (P j) := by
    rw [hP' k, if_pos (.inr rfl), hP']
    split
    · rfl
    · exact h.root j hj
  have hc : Connected (eqs ++ [(j, k)]) x k := by
    refine Connected.mono (fun p hp => List.mem_append_left _ hp) (.trans _ _ _ (hi.connected_twice hxs) ?_)
    rw [hx]
    exact .symm _ _ (hi.connected_twice hk)
  have hsame := hc.respects (f := fun z => P' (P' z)) h'.joined
  simp only [hold, hnew] at hsame
  exact hne hsame.symm

/-- **The forest stands after every equation exactly when every join is flat.** -/
theorem forests_iff (eqs : List (Int × Int)) (hr : InRange eqs) (n : Nat) :
    (∀ eqs₁ eqs₂, eqs = eqs₁ ++ eqs₂ → Forest (n + 2) (links eqs₁) eqs₁) ↔ FlatJoins eqs := by
  have hinv : ∀ eqs₁ eqs₂, eqs = eqs₁ ++ eqs₂ → LinksInv (links eqs₁) eqs₁ := fun eqs₁ eqs₂ he =>
    links_inv eqs₁ (fun q hq => hr q (he ▸ List.mem_append_left _ hq))
  constructor
  · intro h eqs₁ p eqs₂ he
    have he' : eqs = (eqs₁ ++ [p]) ++ eqs₂ := by rw [he, List.append_assoc, List.singleton_append]
    have hnext := (forest_iff (hinv _ _ he') n).1 (h _ _ he')
    rw [links_concat] at hnext
    exact flatJoin_of_twoLinks (hinv _ _ he) ((forest_iff (hinv _ _ he) n).1 (h _ _ he)) hnext
  · intro h eqs₁ eqs₂ he
    refine (forest_iff (hinv _ _ he) n).2 (links_twoLinks eqs₁ (fun q hq => hr q (he ▸ List.mem_append_left _ hq)) ?_)
    intro l p l' hl
    exact h l p (l' ++ eqs₂) (by rw [he, hl, List.append_assoc, List.cons_append])

theorem pairs_append (c : Char) (l l' : List (List Char)) : pairs c (l ++ l') = pairs c l ++ pairs c l' := by
  unfold pairs
  rw [List.filter_append, List.map_append]

/-- The first pairs come from the first equations. -/
theorem pairs_prefix {c : Char} {l : List (List Char)} {eqs₁ eqs₂ : List (Int × Int)}
    (h : pairs c l = eqs₁ ++ eqs₂) : ∃ n, n ≤ l.length ∧ pairs c (l.take n) = eqs₁ := by
  unfold pairs at h
  obtain ⟨m₁, m₂, hfilter, rfl, -⟩ := List.map_eq_append_iff.1 h
  obtain ⟨a, b, rfl, rfl, -⟩ := List.filter_eq_append_iff.1 hfilter
  refine ⟨a.length, by simp, ?_⟩
  rw [List.take_left]
  rfl

/-- **In every state of the first loop `eq_set` is a forest whose roots `find_root` tells apart exactly when every
equation that the loop comes to joins flat.** -/
theorem eqSet_forest_iff (equations : List (List Char)) (hwf : ∀ tmp ∈ equations, wellFormed tmp = true) (fuel : Nat)
    (hfuel : equations.length + 2 ≤ fuel) :
    (∀ n eqSet, EqSetAt fuel equations n eqSet → Forest fuel eqSet (pairs '=' (equations.take n))) ↔
      FlatJoins (pairs '=' (equations.take 32768)) := by
  have hr : InRange (pairs '=' (equations.take 32768)) :=
    pairs_inRange (fun tmp ht => hwf tmp (List.mem_of_mem_take ht)) '='
  have hat := @eqSetAt_iff equations hwf fuel hfuel
  obtain ⟨f, rfl⟩ : ∃ f, fuel = f + 2 := ⟨fuel - 2, by omega⟩
  rw [← forests_iff _ hr f]
  constructor
  · intro h eqs₁ eqs₂ he
    obtain ⟨n, hn, rfl⟩ := pairs_prefix he
    rw [List.length_take] at hn
    rw [List.take_take, Nat.min_eq_left (by omega)]
    exact h n _ (hat.2 ⟨⟨by omega, by omega⟩, rfl⟩)
  · intro h n eqSet heq
    obtain ⟨⟨-, hn⟩, rfl⟩ := hat.1 heq
    refine h _ (pairs '=' ((equations.take 32768).drop n)) ?_
    have htake : (equations.take 32768).take n = equations.take n := by rw [List.take_take, Nat.min_eq_left hn]
    rw [← htake, ← pairs_append, List.take_append_drop]

/-- `a==b`, `c==b`. -/
theorem eqSet_forest_iff_two :
    (∀ n eqSet, EqSetAt 4 [['a', '=', '=', 'b'], ['c', '=', '=', 'b']] n eqSet →
      Forest 4 eqSet (pairs '=' ([['a', '=', '=', 'b'], ['c', '=', '=', 'b']].take n))) ↔
      FlatJoins (pairs '=' ([['a', '=', '=', 'b'], ['c', '=', '=', 'b']].take 32768)) :=
  eqSet_forest_iff _ (by decide) 4 (by decide)

/-- **Six equations after which `a` and `b` hang from each other.** -/
theorem eqSet_cycle : ∃ eqSet,
    EqSetAt 8 [['a', '=', '=', 'a'], ['b', '=', '=', 'b'], ['d', '=', '=', 'c'], ['b', '=', '=', 'd'],
      ['a', '=', '=', 'b'], ['c', '=', '=', 'a']] 6 eqSet ∧ eqSet 0 = 1 ∧ eqSet 1 = 0 ∧
    ¬ Forest 8 eqSet (pairs '=' [['a', '=', '=', 'a'], ['b', '=', '=', 'b'], ['d', '=', '=', 'c'], ['b', '=', '=', 'd'],
      ['a', '=', '=', 'b'], ['c', '=', '=', 'a']]) := by
  refine ⟨_, .left rfl rfl, by decide, by decide, fun h => ?_⟩
  have hcycle := h.cycles 0 2 (by decide) (by decide) (by decide)
  revert hcycle
  decide

end Equations
end Cc
