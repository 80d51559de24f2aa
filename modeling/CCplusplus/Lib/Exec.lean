import Mathlib.Logic.Basic
import Mathlib.Tactic.Common
/-!
# Exec — C computations that can fail, their `int` products and their loops

A C computation ends with a value or with a `Fault`.  A `while` is run with fuel (`whileLoop`): a loop that is still
running when the fuel is gone ends with `outOfFuel`, so a program that returns is one that returns for every large
enough fuel.  A counted `for` needs none (`forLoop`).  Two programs that run the same way are compared by `Agree`, which
follows both through sequencing and through their loops.
-/
namespace CLib

/-- How a C computation goes wrong. -/
inductive Fault where
  | outOfBounds
  | overlap
  | overflow
  | assertion
  | outOfFuel
deriving DecidableEq, Repr

abbrev Exec (α : Type) := Except Fault α

@[simp] theorem ok_bind {α β : Type} (a : α) (f : α → Exec β) : ((Except.ok a : Exec α) >>= f) = f a := rfl

@[simp] theorem pure_eq_ok {α : Type} (a : α) : (pure a : Exec α) = Except.ok a := rfl

/-! ## `int` -/

def INT_MAX : Int := 2147483647

def isInt (x : Int) : Bool := decide (-2147483648 ≤ x) && decide (x ≤ INT_MAX)

/-- A product of two `int`s; C leaves an overflow undefined. -/
def imul (x y : Int) : Exec Int := if isInt (x * y) then .ok (x * y) else .error .overflow

theorem imul_ok {x y : Int} (h0 : 0 ≤ x * y) (h1 : x * y ≤ INT_MAX) : imul x y = .ok (x * y) := by
  unfold imul isInt
  rw [if_pos (by simp only [Bool.and_eq_true, decide_eq_true_eq]; omega)]

theorem imul_overflow {x y : Int} (h : INT_MAX < x * y) : imul x y = .error .overflow := by
  unfold imul isInt
  rw [if_neg (by simp only [Bool.and_eq_true, decide_eq_true_eq]; omega)]

/-- A sum of two `int`s, as the machine wraps it. -/
def intAdd (x y : Int) : Int := (x + y).bmod 4294967296

theorem intAdd_eq {x y : Int} (h0 : 0 ≤ x + y) (h1 : x + y ≤ INT_MAX) : intAdd x y = x + y := by
  unfold intAdd
  unfold INT_MAX at h1
  exact Int.bmod_eq_of_le (by omega) (by omega)

/-- An integer converted to `int`. -/
def asInt (x : Int) : Int := x.bmod 4294967296

theorem asInt_eq {x : Int} (h0 : 0 ≤ x) (h1 : x ≤ INT_MAX) : asInt x = x := by
  unfold INT_MAX at h1
  exact Int.bmod_eq_of_le (by omega) (by omega)

/-- An `int` passed as a `size_t`. -/
def asSizeT (x : Int) : Nat := (x % 18446744073709551616).toNat

theorem asSizeT_of_nonneg {x : Int} (h0 : 0 ≤ x) (h1 : x ≤ INT_MAX) : asSizeT x = x.toNat := by
  unfold INT_MAX at h1
  unfold asSizeT
  rw [Int.emod_eq_of_lt h0 (by omega)]

/-! ## Loops -/

def whileLoop {σ : Type} (cond : σ → Exec Bool) (body : σ → Exec σ) : Nat → σ → Exec σ
  | 0, _ => .error .outOfFuel
  | n + 1, s => do
    match ← cond s with
    | true => whileLoop cond body n (← body s)
    | false => pure s

/-- `for (i = start; i < start + n; i++) body`. -/
def forLoop {σ : Type} (body : Int → σ → Exec σ) : Nat → Int → σ → Exec σ
  | 0, _, s => .ok s
  | n + 1, i, s => do forLoop body n (i + 1) (← body i s)

/-- **The total rule of `while`**: an invariant whose variant drops at every turn, with what holds where the loop is
left. -/
theorem whileLoop_total {σ : Type} (cond : σ → Exec Bool) (body : σ → Exec σ) (Inv Post : σ → Prop) (μ : σ → Nat)
    (hstep : ∀ s, Inv s → (cond s = .ok false ∧ Post s) ∨
      (cond s = .ok true ∧ ∃ s', body s = .ok s' ∧ Inv s' ∧ μ s' < μ s)) :
    ∀ (n : Nat) (s : σ), Inv s → μ s < n → ∃ s', whileLoop cond body n s = .ok s' ∧ Post s'
  | 0, _, _, hn => absurd hn (Nat.not_lt_zero _)
  | n + 1, s, hs, hn => by
    rcases hstep s hs with ⟨hc, hp⟩ | ⟨hc, s', hb, hs', hμ⟩
    · exact ⟨s, by simp [whileLoop, hc], hp⟩
    · obtain ⟨t, ht, hp⟩ := whileLoop_total cond body Inv Post μ hstep n s' hs' (by omega)
      exact ⟨t, by simp [whileLoop, hc, hb, ht], hp⟩

/-- Two loops that run the same way where an invariant of the second holds. -/
theorem whileLoop_congr {σ : Type} {cond cond' : σ → Exec Bool} {body body' : σ → Exec σ} (Inv : σ → Prop)
    (hc : ∀ s, Inv s → cond s = cond' s)
    (hb : ∀ s, Inv s → cond' s = .ok true → body s = body' s ∧ ∀ s', body' s = .ok s' → Inv s') :
    ∀ (n : Nat) (s : σ), Inv s → whileLoop cond body n s = whileLoop cond' body' n s
  | 0, _, _ => rfl
  | n + 1, s, hs => by
    unfold whileLoop
    rw [hc s hs]
    cases hcond : cond' s with
    | error e => rfl
    | ok b =>
      cases b with
      | false => rfl
      | true =>
        obtain ⟨heq, hinv⟩ := hb s hs hcond
        rw [heq]
        cases hbody : body' s with
        | error e => rfl
        | ok s' => exact whileLoop_congr Inv hc hb n s' (hinv s' hbody)

/-- The states in which the turns of a `while` begin, as far as its fuel lasts and no turn fails. -/
def turns {σ : Type} (cond : σ → Exec Bool) (body : σ → Exec σ) : Nat → σ → List σ
  | 0, _ => []
  | n + 1, s =>
    match cond s with
    | .ok true =>
      s :: match body s with
        | .ok s' => turns cond body n s'
        | .error _ => []
    | _ => []

/-- **Through turns that are known** a loop comes to the state after them. -/
theorem whileLoop_through {σ : Type} {cond : σ → Exec Bool} {body : σ → Exec σ} : ∀ (k : Nat) (st : Nat → σ),
    (∀ i, i < k → cond (st i) = .ok true ∧ body (st i) = .ok (st (i + 1))) → ∀ n,
      whileLoop cond body (n + k) (st 0) = whileLoop cond body n (st k) ∧
      turns cond body (n + k) (st 0) = (List.range k).map st ++ turns cond body n (st k)
  | 0, _, _, _ => ⟨rfl, rfl⟩
  | k + 1, st, h, n => by
    obtain ⟨hc, hb⟩ := h 0 (Nat.zero_lt_succ k)
    obtain ⟨hrun, hturns⟩ := whileLoop_through k (fun i => st (i + 1)) (fun i hi => h (i + 1) (by omega)) n
    constructor
    · rw [← Nat.add_assoc, whileLoop, hc, hb]
      exact hrun
    · rw [← Nat.add_assoc, turns, hc, hb, List.range_succ_eq_map, List.map_cons, List.map_map, List.cons_append]
      exact congrArg (st 0 :: ·) hturns

/-- A turn begins where the condition holds. -/
theorem cond_of_mem_turns {σ : Type} {cond : σ → Exec Bool} {body : σ → Exec σ} : ∀ (n : Nat) (s : σ) {t : σ},
    t ∈ turns cond body n s → cond t = .ok true
  | n + 1, s, t, h => by
    unfold turns at h
    split at h
    · rename_i hc
      rcases List.mem_cons.1 h with rfl | h
      · exact hc
      · split at h
        · exact cond_of_mem_turns n _ h
        · cases h
    · cases h

/-- A counter that every turn increases by one goes through the turns without a gap. -/
theorem turns_count {σ : Type} {cond : σ → Exec Bool} {body : σ → Exec σ} (c : σ → Int)
    (hc : ∀ s s', body s = .ok s' → c s' = c s + 1) : ∀ (n : Nat) (s : σ),
      (turns cond body n s).map c = (List.range (turns cond body n s).length).map (fun k : Nat => c s + k)
  | 0, _ => rfl
  | n + 1, s => by
    unfold turns
    split
    · rw [List.map_cons, List.length_cons, List.range_succ_eq_map, List.map_cons, List.map_map]
      congr 1
      · exact (Int.add_zero _).symm
      · split
        · rename_i s' hs'
          rw [turns_count c hc n s']
          refine List.map_congr_left (fun k _ => ?_)
          rw [hc s s' hs', Function.comp_apply, Nat.succ_eq_add_one]
          omega
        · rfl
    · rfl

/-- **The rule of `for`**: an invariant indexed by the counter. -/
theorem forLoop_total {σ : Type} (body : Int → σ → Exec σ) (stop : Int) (Inv : Int → σ → Prop)
    (hstep : ∀ i s, i < stop → Inv i s → ∃ s', body i s = .ok s' ∧ Inv (i + 1) s') :
    ∀ (n : Nat) (i : Int) (s : σ), i + n = stop → Inv i s → ∃ s', forLoop body n i s = .ok s' ∧ Inv stop s'
  | 0, i, s, hn, hs => ⟨s, rfl, by rwa [← hn, Int.natCast_zero, Int.add_zero]⟩
  | n + 1, i, s, hn, hs => by
    obtain ⟨s', hb, hs'⟩ := hstep i s (by omega) hs
    obtain ⟨t, ht, hp⟩ := forLoop_total body stop Inv hstep n (i + 1) s' (by omega) hs'
    exact ⟨t, by simp [forLoop, hb, ht], hp⟩

/-- No fault but running out of fuel. -/
def OnlyFuel {α : Type} (x : Exec α) : Prop := ∀ e, x = .error e → e = .outOfFuel

namespace OnlyFuel

theorem ok {α : Type} (a : α) : OnlyFuel (.ok a) := fun _ h => by cases h

theorem outOfFuel {α : Type} : OnlyFuel (.error .outOfFuel : Exec α) := fun _ h => (Except.error.inj h).symm

theorem bind {α β : Type} {x : Exec α} {f : α → Exec β} (hx : OnlyFuel x) (hf : ∀ a, OnlyFuel (f a)) :
    OnlyFuel (x >>= f) := by
  cases x with
  | ok a => exact hf a
  | error e =>
    intro e' h
    exact (Except.error.inj h) ▸ hx e rfl

theorem ite {α : Type} {c : Prop} [Decidable c] {x y : Exec α} (hx : OnlyFuel x) (hy : OnlyFuel y) :
    OnlyFuel (if c then x else y) := by
  split
  · exact hx
  · exact hy

theorem whileLoop {σ : Type} {cond : σ → Exec Bool} {body : σ → Exec σ} (hc : ∀ s, OnlyFuel (cond s))
    (hb : ∀ s, OnlyFuel (body s)) : ∀ (n : Nat) (s : σ), OnlyFuel (CLib.whileLoop cond body n s)
  | 0, _ => outOfFuel
  | n + 1, s => (hc s).bind (fun b => by
      cases b with
      | true => exact (hb s).bind (fun s' => whileLoop hc hb n s')
      | false => exact ok s)

theorem forLoop {σ : Type} {body : Int → σ → Exec σ} (hb : ∀ i s, OnlyFuel (body i s)) :
    ∀ (n : Nat) (i : Int) (s : σ), OnlyFuel (CLib.forLoop body n i s)
  | 0, _, s => ok s
  | n + 1, i, s => (hb i s).bind (fun s' => forLoop hb n (i + 1) s')

end OnlyFuel

/-! ## Two computations side by side -/

/-- The two end alike: with related values, or with the same fault; a fault in `E` may stop the first one alone. -/
inductive Agree {α β : Type} (E : Fault → Prop) (R : α → β → Prop) : Exec α → Exec β → Prop where
  | ok {a : α} {b : β} : R a b → Agree E R (.ok a) (.ok b)
  | error (e : Fault) : Agree E R (.error e) (.error e)
  | stop {e : Fault} {y : Exec β} : E e → Agree E R (.error e) y

namespace Agree

theorem imp {α β : Type} {E : Fault → Prop} {R S : α → β → Prop} {x : Exec α} {y : Exec β} (h : Agree E R x y)
    (hRS : ∀ a b, R a b → S a b) : Agree E S x y := by
  cases h with
  | ok h => exact .ok (hRS _ _ h)
  | error e => exact .error e
  | stop h => exact .stop h

theorem bind {α β γ δ : Type} {E : Fault → Prop} {R : α → β → Prop} {S : γ → δ → Prop} {x : Exec α} {y : Exec β}
    {f : α → Exec γ} {g : β → Exec δ} (h : Agree E R x y) (hfg : ∀ a b, R a b → Agree E S (f a) (g b)) :
    Agree E S (x >>= f) (y >>= g) := by
  cases h with
  | ok h => exact hfg _ _ h
  | error e => exact .error e
  | stop h => exact .stop h

/-- The first one makes a step that the second is spared. -/
theorem first {α β γ δ : Type} {E : Fault → Prop} {R : α → β → Prop} {S : γ → δ → Prop} {x : Exec α} {b : β}
    {f : α → Exec γ} {y : Exec δ} (h : Agree E R x (.ok b)) (hf : ∀ a, R a b → Agree E S (f a) y) :
    Agree E S (x >>= f) y := by
  cases h with
  | ok h => exact hf _ h
  | stop h => exact .stop h

/-- What is known of a returned value may recall where it came from. -/
theorem returned {α β : Type} {E : Fault → Prop} {R : α → β → Prop} {x : Exec α} {y : Exec β} (h : Agree E R x y) :
    Agree E (fun a b => R a b ∧ y = .ok b) x y := by
  cases h with
  | ok h => exact .ok ⟨h, rfl⟩
  | error e => exact .error e
  | stop h => exact .stop h

/-- Beside a computation that can only run out of fuel, the first one has no fault of its own but those of `E`. -/
theorem fault {α β : Type} {E : Fault → Prop} {R : α → β → Prop} {x : Exec α} {y : Exec β} (h : Agree E R x y)
    (hy : OnlyFuel y) {e : Fault} (he : x = .error e) : e = .outOfFuel ∨ E e := by
  subst he
  cases h with
  | error _ => exact .inl (hy e rfl)
  | stop h => exact .inr h

/-- Where the second one returns, so does the first, unless a fault of `E` stopped it. -/
theorem of_ok {α β : Type} {E : Fault → Prop} {R : α → β → Prop} {x : Exec α} {b : β} (h : Agree E R x (.ok b)) :
    (∃ a, x = .ok a ∧ R a b) ∨ ∃ e, x = .error e ∧ E e := by
  cases h with
  | ok h => exact .inl ⟨_, rfl, h⟩
  | stop h => exact .inr ⟨_, rfl, h⟩

theorem whileLoop {σ τ : Type} {E : Fault → Prop} {R : σ → τ → Prop} {cond : σ → Exec Bool} {cond' : τ → Exec Bool}
    {body : σ → Exec σ} {body' : τ → Exec τ} (hc : ∀ s t, R s t → Agree E Eq (cond s) (cond' t))
    (hb : ∀ s t, R s t → cond' t = .ok true → Agree E R (body s) (body' t)) :
    ∀ (n : Nat) (s : σ) (t : τ), R s t → Agree E R (CLib.whileLoop cond body n s) (CLib.whileLoop cond' body' n t)
  | 0, _, _, _ => .error _
  | n + 1, s, t, h => by
    unfold CLib.whileLoop
    refine (hc s t h).returned.bind (fun b b' hbb => ?_)
    obtain ⟨rfl, ht⟩ := hbb
    cases b with
    | true => exact (hb s t h ht).bind (fun s' t' h' => Agree.whileLoop hc hb n s' t' h')
    | false => exact .ok h

theorem forLoop {σ τ : Type} {E : Fault → Prop} {R : Int → σ → τ → Prop} (stop : Int) (body : Int → σ → Exec σ)
    (body' : Int → τ → Exec τ)
    (hb : ∀ i s t, i < stop → R i s t → Agree E (R (i + 1)) (body i s) (body' i t)) :
    ∀ (n : Nat) (i : Int) (s : σ) (t : τ), i + n = stop → R i s t →
      Agree E (R stop) (CLib.forLoop body n i s) (CLib.forLoop body' n i t)
  | 0, i, s, t, hn, h => by
    have : i = stop := by omega
    exact .ok (this ▸ h)
  | n + 1, i, s, t, hn, h =>
    (hb i s t (by omega) h).bind (fun s' t' h' => Agree.forLoop stop body body' hb n (i + 1) s' t' (by omega) h')

end Agree
end CLib
