import CCplusplus.EquationsPossible
/-!
# EquationsBounds — which equations the two loops read

The counter of the first loop is a `short`: after 32767 it is -32768, which is below any bound, and the next equation
read is `equations[-32768]`.  So the loops end, and read each equation once and in order, exactly for up to 32767
equations (`equationsPossible_reads_iff`).
-/
namespace Cc
namespace Equations

open CLib

/-- `i < equationsSize` of the first loop. -/
def unionCond (equationsSize : Int) (s : Int × (Int → Int)) : Exec Bool := pure (decide (s.1 < equationsSize))

/-- A turn of the first loop. -/
def unionTurn (fuel : Nat) (equations : List (List Char)) (s : Int × (Int → Int)) : Exec (Int × (Int → Int)) := do
  let tmp ← equationAt equations s.1
  let eqSet ← unionEq fuel tmp s.2
  pure (toShort (s.1 + 1), eqSet)

def checkCond (equationsSize : Int) (s : Int × Bool) : Exec Bool := pure (decide (s.1 < equationsSize) && s.2)

def checkTurn (fuel : Nat) (equations : List (List Char)) (eqSet : Int → Int) (s : Int × Bool) : Exec (Int × Bool) := do
  let tmp ← equationAt equations s.1
  pure (s.1 + 1, !(← refutes fuel tmp eqSet))

theorem unionLoop_turns (fuel : Nat) (equations : List (List Char)) (equationsSize : Int) :
    unionLoop fuel equations equationsSize =
      (do pure (← whileLoop (unionCond equationsSize) (unionTurn fuel equations) fuel (0, fun _ => -1)).2) := rfl

/-- The indices of `*(equations + i)`, at the start of every turn of the first loop. -/
def unionReads (fuel : Nat) (equations : List (List Char)) (equationsSize : Int) : List Int :=
  (turns (unionCond equationsSize) (unionTurn fuel equations) fuel (0, fun _ => -1)).map Prod.fst

def checkReads (fuel : Nat) (equations : List (List Char)) (equationsSize : Int) (eqSet : Int → Int) : List Int :=
  (turns (checkCond equationsSize) (checkTurn fuel equations eqSet) fuel (0, true)).map Prod.fst

/-- Indices inside the array, each at most once and in increasing order. -/
structure InOrder (size : Int) (reads : List Int) : Prop where
  inside : ∀ i ∈ reads, 0 ≤ i ∧ i < size
  increasing : reads.Pairwise (· < ·)

/-- Both loops end, whatever the fuel from some number on, and read what they may. -/
def Bounded (equations : List (List Char)) (equationsSize : Int) : Prop :=
  ∃ N, ∀ fuel, N ≤ fuel →
    ∃ eqSet possible, unionLoop fuel equations equationsSize = .ok eqSet ∧
      InOrder equationsSize (unionReads fuel equations equationsSize) ∧
      checkLoop fuel equations equationsSize eqSet = .ok possible ∧
      InOrder equationsSize (checkReads fuel equations equationsSize eqSet)

theorem inOrder_range {size : Int} {n : Nat} (h : (n : Int) ≤ size) :
    InOrder size ((List.range n).map (fun k : Nat => (0 : Int) + k)) where
  inside := by
    intro i hi
    obtain ⟨k, hk, rfl⟩ := List.mem_map.1 hi
    have hlt := List.mem_range.1 hk
    omega
  increasing := by
    rw [List.pairwise_map]
    exact List.pairwise_lt_range.imp (fun hlt => by omega)

theorem checkTurn_count (fuel : Nat) (equations : List (List Char)) (eqSet : Int → Int) (s s' : Int × Bool)
    (hs : checkTurn fuel equations eqSet s = .ok s') : s'.1 = s.1 + 1 := by
  unfold checkTurn at hs
  cases htmp : equationAt equations s.1 with
  | error e =>
    rw [htmp] at hs
    cases hs
  | ok tmp =>
    rw [htmp, ok_bind] at hs
    cases hr : refutes fuel tmp eqSet with
    | error e =>
      rw [hr] at hs
      cases hs
    | ok b =>
      rw [hr] at hs
      cases hs
      rfl

/-- **The second loop reads in order**, for every list and whatever the links are. -/
theorem checkReads_inOrder (fuel : Nat) (equations : List (List Char)) (equationsSize : Int) (eqSet : Int → Int) :
    InOrder equationsSize (checkReads fuel equations equationsSize eqSet) := by
  unfold checkReads
  have hcond : ∀ t ∈ turns (checkCond equationsSize) (checkTurn fuel equations eqSet) fuel (0, true),
      checkCond equationsSize t = .ok true := fun t => cond_of_mem_turns fuel (0, true)
  have hcount : (turns (checkCond equationsSize) (checkTurn fuel equations eqSet) fuel (0, true)).map Prod.fst = _ :=
    turns_count Prod.fst (checkTurn_count fuel equations eqSet) fuel (0, true)
  generalize turns (checkCond equationsSize) (checkTurn fuel equations eqSet) fuel (0, true) = l at hcount hcond
  refine ⟨fun i hi => ?_, ?_⟩
  · obtain ⟨t, ht, rfl⟩ := List.mem_map.1 hi
    have hc : (decide (t.1 < equationsSize) && t.2) = true := Except.ok.inj (hcond t ht)
    rw [hcount] at hi
    obtain ⟨k, -, hk⟩ := List.mem_map.1 hi
    simp only [Bool.and_eq_true, decide_eq_true_eq] at hc
    simp only at hk
    exact ⟨by omega, hc.1⟩
  · rw [hcount]
    exact (inOrder_range (Int.le_refl _)).increasing

section
variable {equations : List (List Char)} (hwf : ∀ tmp ∈ equations, wellFormed tmp = true)
include hwf

/-- The states of the first loop, up to the turn that wraps the counter. -/
theorem unionTurns {k : Nat} (hk : k ≤ equations.length) (hshort : k ≤ 32767) (f n : Nat) :
    whileLoop (unionCond equations.length) (unionTurn (f + 2) equations) (n + k) (0, fun _ => -1) =
      whileLoop (unionCond equations.length) (unionTurn (f + 2) equations) n
        ((k : Int), links (pairs '=' (equations.take k))) ∧
    turns (unionCond equations.length) (unionTurn (f + 2) equations) (n + k) (0, fun _ => -1) =
      (List.range k).map (fun i : Nat => ((i : Int), links (pairs '=' (equations.take i)))) ++
        turns (unionCond equations.length) (unionTurn (f + 2) equations) n
          ((k : Int), links (pairs '=' (equations.take k))) := by
  refine whileLoop_through k (fun i : Nat => ((i : Int), links (pairs '=' (equations.take i)))) (fun i hi => ⟨?_, ?_⟩) n
  · have hlt : (i : Int) < equations.length := by omega
    exact congrArg Except.ok (decide_eq_true hlt)
  · have hnext : toShort ((i : Int) + 1) = ((i + 1 : Nat) : Int) := toShort_eq (by omega) (by omega)
    exact (unionTurn_ok hwf (by omega) f).trans (by rw [hnext])

/-- The turns of the first loop up to 32767 equations: one for each. -/
theorem turns_all (hlen : equations.length ≤ 32767) {f : Nat} (hf : equations.length < f + 2) :
    turns (unionCond equations.length) (unionTurn (f + 2) equations) (f + 2) (0, fun _ => -1) =
      (List.range equations.length).map (fun k : Nat => ((k : Int), links (pairs '=' (equations.take k)))) := by
  obtain ⟨n, hn⟩ : ∃ n, f + 2 = n + 1 + equations.length := ⟨f + 1 - equations.length, by omega⟩
  have hend : turns (unionCond equations.length) (unionTurn (f + 2) equations) (n + 1)
      ((equations.length : Int), links (pairs '=' (equations.take equations.length))) = [] := by
    have hc : unionCond equations.length ((equations.length : Int),
        links (pairs '=' (equations.take equations.length))) = .ok false :=
      congrArg Except.ok (decide_eq_false (Int.lt_irrefl _))
    rw [turns, hc]
  have hturns := (unionTurns hwf (Nat.le_refl _) hlen f (n + 1)).2
  rwa [← hn, hend, List.append_nil] at hturns

/-- The turns of the first loop of more equations: 32768 of them, and then one with a negative index, which fails. -/
theorem turns_wrapped (hlen : 32767 < equations.length) {f : Nat} (hf : 32768 ≤ f) :
    whileLoop (unionCond equations.length) (unionTurn (f + 2) equations) (f + 2) (0, fun _ => -1) =
      .error .outOfBounds ∧
    turns (unionCond equations.length) (unionTurn (f + 2) equations) (f + 2) (0, fun _ => -1) =
      (List.range 32768).map (fun k : Nat => ((k : Int), links (pairs '=' (equations.take k)))) ++
        [(-32768, links (pairs '=' (equations.take 32768)))] := by
  obtain ⟨n, hn⟩ : ∃ n, f + 2 = n + 2 + 32767 := ⟨f - 32767, by omega⟩
  obtain ⟨hrun, hturns⟩ := unionTurns hwf (Nat.le_of_lt hlen) (Nat.le_refl _) f (n + 2)
  rw [← hn] at hrun hturns
  -- the turn at 32767, and the one after it
  have hlast : unionCond equations.length (((32767 : Nat) : Int), links (pairs '=' (equations.take 32767))) = .ok true :=
    congrArg Except.ok (decide_eq_true (Int.ofNat_lt.2 hlen))
  have hbody : unionTurn (f + 2) equations (((32767 : Nat) : Int), links (pairs '=' (equations.take 32767))) =
      .ok (-32768, links (pairs '=' (equations.take 32768))) := unionTurn_ok hwf hlen f
  generalize links (pairs '=' (equations.take 32768)) = eqSet at hbody ⊢
  have hwrapped : unionCond equations.length (-32768, eqSet) = .ok true :=
    congrArg Except.ok (decide_eq_true (by omega))
  have hfault : unionTurn (f + 2) equations (-32768, eqSet) = .error .outOfBounds := rfl
  constructor
  · rw [hrun, whileLoop, hlast, ok_bind]
    simp only
    rw [hbody, ok_bind, whileLoop, hwrapped, ok_bind]
    simp only
    rw [hfault]
    rfl
  · have hrange : List.range 32768 = List.range 32767 ++ [32767] := List.range_succ
    rw [hturns, hrange, List.map_append, List.append_assoc, turns, hlast]
    simp only
    rw [hbody]
    simp only
    rw [turns, hwrapped]
    simp only
    rw [hfault]
    rfl

/-- **Up to 32767 equations**, the first loop reads all of them in order. -/
theorem unionReads_inOrder (hlen : equations.length ≤ 32767) {f : Nat} (hf : equations.length < f + 2) :
    InOrder equations.length (unionReads (f + 2) equations equations.length) := by
  unfold unionReads
  rw [turns_all hwf hlen hf, List.map_map]
  have hmap : (List.range equations.length).map (Prod.fst ∘ fun i : Nat => ((i : Int),
      links (pairs '=' (equations.take i)))) = (List.range equations.length).map (fun k : Nat => (0 : Int) + k) :=
    List.map_congr_left (fun k _ => (Int.zero_add _).symm)
  rw [hmap]
  exact inOrder_range (Int.le_refl _)

/-- **Of more equations** the first loop does not end. -/
theorem unionLoop_wraps (hlen : 32767 < equations.length) {f : Nat} (hf : 32768 ≤ f) :
    unionLoop (f + 2) equations equations.length = .error .outOfBounds := by
  rw [unionLoop_turns, (turns_wrapped hwf hlen hf).1]
  rfl

end

/-- **The loops end and read each equation once and in order exactly for up to 32767 equations.** -/
theorem equationsPossible_reads_iff (equations : List (List Char))
    (hwf : ∀ tmp ∈ equations, wellFormed tmp = true) :
    Bounded equations equations.length ↔ equations.length ≤ 32767 := by
  constructor
  · rintro ⟨N, h⟩
    by_contra hlen
    obtain ⟨eqSet, possible, hok, -⟩ := h (N + 32768 + 2) (by omega)
    rw [unionLoop_wraps hwf (by omega) (by omega)] at hok
    cases hok
  · intro hlen
    refine ⟨equations.length + 2, fun fuel hfuel => ?_⟩
    obtain ⟨f, rfl⟩ : ∃ f, fuel = f + 2 := ⟨fuel - 2, by omega⟩
    have hinv := links_inv _ (pairs_inRange hwf '=')
    obtain ⟨possible, hcheck, -⟩ := checkLoop_eq hwf hinv (n := f) (by omega)
    exact ⟨_, possible, unionLoop_eq hwf hlen (by omega), unionReads_inOrder hwf hlen (by omega), hcheck,
      checkReads_inOrder _ _ _ _⟩

theorem equationsPossible_reads_iff_two :
    Bounded [['a', '=', '=', 'b'], ['b', '!', '=', 'a']] 2 ↔
      [['a', '=', '=', 'b'], ['b', '!', '=', 'a']].length ≤ 32767 :=
  equationsPossible_reads_iff [['a', '=', '=', 'b'], ['b', '!', '=', 'a']] (by decide)

/-- **32768 equations `a==a`** are one too many. -/
theorem equationsPossible_wraps : ¬ Bounded (List.replicate 32768 ['a', '=', '=', 'a']) 32768 := by
  rintro ⟨N, h⟩
  have hwf : ∀ tmp ∈ List.replicate 32768 ['a', '=', '=', 'a'], wellFormed tmp = true := fun tmp ht => by
    rw [List.eq_of_mem_replicate ht]
    decide
  have hlen : (List.replicate 32768 ['a', '=', '=', 'a']).length = 32768 := List.length_replicate
  obtain ⟨eqSet, possible, hok, -⟩ := h (N + 32768 + 2) (by omega)
  have hwraps := unionLoop_wraps hwf (by omega) (f := N + 32768) (by omega)
  rw [hlen] at hwraps
  cases hwraps.symm.trans hok

end Equations
end Cc
