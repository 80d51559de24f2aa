import Mathlib.Data.List.Perm.Basic
import Mathlib.Data.List.Nodup
import Mathlib.Logic.Equiv.Basic
import Mathlib.Tactic.Common
/-!
# Seg — segments of an indexed array

An array is a function of its index; a segment of it is a list (`seg`).  `PermOn lo hi a b` says that `b` is `a` with
the entries of `lo..hi` permuted and every other entry in place, which is what an in-place algorithm on `lo..hi` owes.
-/
namespace CLib

variable {α : Type}

/-- `a[lo], a[lo+1], …`, `n` entries. -/
def seg (a : Int → α) : Int → Nat → List α
  | _, 0 => []
  | lo, n + 1 => a lo :: seg a (lo + 1) n

@[simp] theorem seg_zero (a : Int → α) (lo : Int) : seg a lo 0 = [] := rfl

theorem seg_succ (a : Int → α) (lo : Int) (n : Nat) : seg a lo (n + 1) = a lo :: seg a (lo + 1) n := rfl

@[simp] theorem length_seg (a : Int → α) : ∀ (lo : Int) (n : Nat), (seg a lo n).length = n
  | _, 0 => rfl
  | lo, n + 1 => by rw [seg_succ, List.length_cons, length_seg a (lo + 1) n]

theorem seg_append (a : Int → α) : ∀ (lo : Int) (n k : Nat), seg a lo n ++ seg a (lo + n) k = seg a lo (n + k)
  | lo, 0, k => by simp
  | lo, n + 1, k => by
    rw [seg_succ, List.cons_append, Nat.succ_add, seg_succ, ← seg_append a (lo + 1) n k]
    congr 3; omega

theorem seg_concat (a : Int → α) (lo : Int) (n : Nat) : seg a lo (n + 1) = seg a lo n ++ [a (lo + n)] := by
  rw [← seg_append a lo n 1]; rfl

theorem seg_congr {a b : Int → α} : ∀ {lo : Int} {n : Nat}, (∀ i, lo ≤ i → i < lo + n → a i = b i) →
    seg a lo n = seg b lo n
  | _, 0, _ => rfl
  | lo, n + 1, h => by
    rw [seg_succ, seg_succ, h lo (by omega) (by omega), seg_congr (fun i h1 h2 => h i (by omega) (by omega))]

theorem mem_seg {a : Int → α} {x : α} : ∀ {lo : Int} {n : Nat},
    x ∈ seg a lo n ↔ ∃ i, lo ≤ i ∧ i < lo + n ∧ a i = x
  | lo, 0 => by simp only [seg_zero, List.not_mem_nil, false_iff]; rintro ⟨i, h1, h2, -⟩; omega
  | lo, n + 1 => by
    rw [seg_succ, List.mem_cons, mem_seg]
    constructor
    · rintro (rfl | ⟨i, h1, h2, h3⟩)
      · exact ⟨lo, by omega, by omega, rfl⟩
      · exact ⟨i, by omega, by omega, h3⟩
    · rintro ⟨i, h1, h2, h3⟩
      by_cases hi : i = lo
      · subst hi; exact .inl h3.symm
      · exact .inr ⟨i, by omega, by omega, h3⟩

theorem pairwise_seg {a : Int → α} {R : α → α → Prop} : ∀ {lo : Int} {n : Nat},
    (∀ i j, lo ≤ i → i < j → j < lo + n → R (a i) (a j)) → (seg a lo n).Pairwise R
  | _, 0, _ => List.Pairwise.nil
  | lo, n + 1, h => by
    rw [seg_succ]
    refine List.Pairwise.cons (fun x hx => ?_) (pairwise_seg (fun i j h1 h2 h3 => h i j (by omega) h2 (by omega)))
    obtain ⟨i, h1, h2, rfl⟩ := mem_seg.1 hx
    exact h lo i (by omega) (by omega) (by omega)

theorem getElem?_seg (a : Int → α) : ∀ (lo : Int) (n k : Nat), k < n → (seg a lo n)[k]? = some (a (lo + k))
  | _, 0, _, h => absurd h (Nat.not_lt_zero _)
  | lo, n + 1, 0, _ => by simp [seg_succ]
  | lo, n + 1, k + 1, h => by
    rw [seg_succ, List.getElem?_cons_succ, getElem?_seg a (lo + 1) n k (by omega)]
    congr 2; omega

/-- The entry `k` deleted: those after it move down one place. -/
theorem eraseIdx_seg (a : Int → α) {n k : Nat} (hk : k < n) :
    (seg a 0 n).eraseIdx k = seg (fun j => if (k : Int) ≤ j then a (j + 1) else a j) 0 (n - 1) := by
  apply List.ext_getElem?
  intro j
  rw [List.getElem?_eraseIdx]
  by_cases hj : j < n - 1
  · rw [getElem?_seg _ 0 (n - 1) j hj]
    by_cases hjk : j < k
    · rw [if_pos hjk, getElem?_seg a 0 n j (by omega), if_neg (by omega)]
    · rw [if_neg hjk, getElem?_seg a 0 n (j + 1) (by omega), if_pos (by omega)]
      congr 2
  · rw [if_neg (by omega)]
    have h1 : (seg a 0 n).length ≤ j + 1 := by rw [length_seg]; omega
    have h2 : ∀ b : Int → α, (seg b 0 (n - 1)).length ≤ j := fun b => by rw [length_seg]; omega
    rw [List.getElem?_eq_none h1, List.getElem?_eq_none (h2 _)]

theorem seg_map {β : Type} (f : α → β) (a : Int → α) : ∀ (lo : Int) (n : Nat),
    seg (fun i => f (a i)) lo n = (seg a lo n).map f
  | _, 0 => rfl
  | lo, n + 1 => by rw [seg_succ, seg_succ, List.map_cons, seg_map f a (lo + 1) n]

/-- `a[lo], …, a[hi]`. -/
def slice (a : Int → α) (lo hi : Int) : List α := seg a lo (hi + 1 - lo).toNat

theorem slice_nil {a : Int → α} {lo hi : Int} (h : hi < lo) : slice a lo hi = [] := by
  unfold slice; rw [show (hi + 1 - lo).toNat = 0 by omega, seg_zero]

theorem slice_cons {a : Int → α} {lo hi : Int} (h : lo ≤ hi) : slice a lo hi = a lo :: slice a (lo + 1) hi := by
  unfold slice; rw [show (hi + 1 - lo).toNat = (hi + 1 - (lo + 1)).toNat + 1 by omega, seg_succ]

theorem slice_congr {a b : Int → α} {lo hi : Int} (h : ∀ i, lo ≤ i → i ≤ hi → a i = b i) :
    slice a lo hi = slice b lo hi := seg_congr (fun i h1 h2 => h i h1 (by omega))

theorem slice_append (a : Int → α) {lo mid hi : Int} (h : lo ≤ mid + 1) (h' : mid ≤ hi) :
    slice a lo mid ++ slice a (mid + 1) hi = slice a lo hi := by
  unfold slice
  have e : (hi + 1 - lo).toNat = (mid + 1 - lo).toNat + (hi + 1 - (mid + 1)).toNat := by omega
  rw [e, ← seg_append]
  congr 2; omega

@[simp] theorem length_slice (a : Int → α) (lo hi : Int) : (slice a lo hi).length = (hi + 1 - lo).toNat :=
  length_seg _ _ _

/-! ## Writing -/

def setAt (a : Int → α) (p : Int) (x : α) : Int → α := fun i => if i = p then x else a i

def swapAt (a : Int → α) (p p2 : Int) : Int → α := fun i => if i = p then a p2 else if i = p2 then a p else a i

@[simp] theorem setAt_same (a : Int → α) (p : Int) (x : α) : setAt a p x p = x := if_pos rfl

theorem setAt_of_ne {a : Int → α} {p i : Int} {x : α} (h : i ≠ p) : setAt a p x i = a i := if_neg h

theorem swapAt_of_ne {a : Int → α} {p p2 i : Int} (h : i ≠ p) (h2 : i ≠ p2) : swapAt a p p2 i = a i := by
  unfold swapAt; rw [if_neg h, if_neg h2]

@[simp] theorem swapAt_left (a : Int → α) (p p2 : Int) : swapAt a p p2 p = a p2 := if_pos rfl

@[simp] theorem swapAt_right (a : Int → α) (p p2 : Int) : swapAt a p p2 p2 = a p := by
  unfold swapAt
  split
  · rename_i h; rw [h]
  · rw [if_pos rfl]

theorem seg_setAt_concat (a : Int → α) (lo : Int) (n : Nat) (x : α) :
    seg (setAt a (lo + n) x) lo (n + 1) = seg a lo n ++ [x] := by
  rw [seg_concat, setAt_same, seg_congr (fun i _ h => setAt_of_ne (by omega))]

/-! ## Permuting a range -/

/-- `b` is `a` with the entries of `lo..hi` permuted. -/
def PermOn (lo hi : Int) (a b : Int → α) : Prop :=
  ∃ σ : Equiv.Perm Int, (∀ i, σ i ≠ i → lo ≤ i ∧ i ≤ hi) ∧ ∀ i, b i = a (σ i)

namespace PermOn

variable {lo hi : Int} {a b c : Int → α}

theorem refl (lo hi : Int) (a : Int → α) : PermOn lo hi a a := ⟨Equiv.refl Int, fun _ h => absurd rfl h, fun _ => rfl⟩

theorem range_of_perm {σ : Equiv.Perm Int} (hσ : ∀ i, σ i ≠ i → lo ≤ i ∧ i ≤ hi) {i : Int} (h : lo ≤ i ∧ i ≤ hi) :
    lo ≤ σ i ∧ σ i ≤ hi := by
  by_cases hi' : σ i = i
  · rwa [hi']
  · exact hσ (σ i) (fun h => hi' (σ.injective h))

theorem trans (h : PermOn lo hi a b) (h' : PermOn lo hi b c) : PermOn lo hi a c := by
  obtain ⟨σ, hσ, hb⟩ := h
  obtain ⟨τ, hτ, hc⟩ := h'
  refine ⟨τ.trans σ, fun i hi => ?_, fun i => by rw [hc, hb]; rfl⟩
  by_cases hτi : τ i = i
  · exact hσ i (fun h => hi (by rw [Equiv.trans_apply, hτi, h]))
  · exact hτ i hτi

theorem symm (h : PermOn lo hi a b) : PermOn lo hi b a := by
  obtain ⟨σ, hσ, hb⟩ := h
  refine ⟨σ.symm, fun i hi => hσ i (fun h => hi (σ.symm_apply_eq.2 h.symm)), fun i => ?_⟩
  rw [hb, σ.apply_symm_apply]

theorem widen {lo' hi' : Int} (h : PermOn lo hi a b) (hl : lo' ≤ lo) (hh : hi ≤ hi') : PermOn lo' hi' a b := by
  obtain ⟨σ, hσ, hb⟩ := h
  exact ⟨σ, fun i hi => by have := hσ i hi; omega, hb⟩

theorem swapAt {p p2 : Int} (a : Int → α) (hp : lo ≤ p ∧ p ≤ hi) (hp2 : lo ≤ p2 ∧ p2 ≤ hi) :
    PermOn lo hi a (swapAt a p p2) := by
  refine ⟨Equiv.swap p p2, fun i hi => ?_, fun i => ?_⟩
  · by_cases h : i = p
    · subst h; exact hp
    · by_cases h2 : i = p2
      · subst h2; exact hp2
      · exact absurd (Equiv.swap_apply_of_ne_of_ne h h2) hi
  · simp only [CLib.swapAt, Equiv.swap_apply_def]
    split
    · rfl
    · split <;> rfl

theorem eq_outside (h : PermOn lo hi a b) {i : Int} (hi' : i < lo ∨ hi < i) : b i = a i := by
  obtain ⟨σ, hσ, hb⟩ := h
  rw [hb]
  by_cases hσi : σ i = i
  · rw [hσi]
  · have := hσ i hσi; omega

/-- What holds of every entry of the range still does. -/
theorem all (h : PermOn lo hi a b) {P : α → Prop} (ha : ∀ i, lo ≤ i → i ≤ hi → P (a i)) :
    ∀ i, lo ≤ i → i ≤ hi → P (b i) := by
  obtain ⟨σ, hσ, hb⟩ := h
  intro i h1 h2
  have := range_of_perm hσ ⟨h1, h2⟩
  rw [hb]; exact ha _ this.1 this.2

theorem perm_seg (h : PermOn lo hi a b) (n : Nat) (hn : hi < lo + n) : (seg b lo n).Perm (seg a lo n) := by
  obtain ⟨σ, hσ, hb⟩ := h
  have hσ' : ∀ i, σ i ≠ i → lo ≤ i ∧ i ≤ lo + n - 1 := fun i hi => by have := hσ i hi; omega
  have hidx : ((seg id lo n).map σ).Perm (seg id lo n) := by
    have hnd : (seg id lo n).Nodup := by
      rw [List.nodup_iff_pairwise_ne]; exact pairwise_seg (fun i j _ h _ => by simp only [id]; omega)
    refine (List.perm_ext_iff_of_nodup (hnd.map σ.injective) hnd).2 (fun x => ?_)
    rw [List.mem_map, mem_seg]
    constructor
    · rintro ⟨i, hi, rfl⟩
      obtain ⟨_, h1, h2, rfl⟩ := mem_seg.1 hi
      have := range_of_perm hσ' (i := _) ⟨h1, by omega⟩
      exact ⟨_, this.1, by omega, rfl⟩
    · rintro ⟨i, h1, h2, rfl⟩
      refine ⟨σ.symm i, mem_seg.2 ⟨_, ?_, ?_, rfl⟩, σ.apply_symm_apply i⟩ <;>
      · by_cases hi : σ i = i
        · rw [σ.symm_apply_eq.2 hi.symm]; omega
        · have := hσ' (σ.symm i) (fun h => hi (by
            rw [σ.apply_symm_apply] at h; exact σ.eq_symm_apply.1 h))
          omega
  have e : b = fun i => a (σ i) := funext hb
  rw [e]
  have h1 := seg_map (fun i => a (σ i)) id lo n
  have h2 := seg_map a id lo n
  simp only [id] at h1 h2
  rw [h1, h2, show (fun i => a (σ i)) = a ∘ σ from rfl, ← List.map_map]
  exact hidx.map a

end PermOn
end CLib
