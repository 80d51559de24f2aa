import CCplusplus.Lib.Seg
/-!
# Merge — sorted lists merged by their heads

The lists that are still to be merged are an array of lists.  Whatever list is taken from, as long as its head is below
every other head, what has been taken is sorted and below what is left (`Merging.take`); when nothing is left, it is the
sorted permutation of all that there was (`Merging.done`).
-/
namespace CLib

variable {α : Type}

/-- What is left in `n` lists. -/
def remains (rests : Int → List α) (n : Nat) : List α := (seg rests 0 n).flatten

theorem mem_remains {rests : Int → List α} {n : Nat} {x : α} :
    x ∈ remains rests n ↔ ∃ i : Int, 0 ≤ i ∧ i < n ∧ x ∈ rests i := by
  unfold remains
  rw [List.mem_flatten]
  constructor
  · rintro ⟨l, hl, hx⟩
    obtain ⟨i, h0, h1, rfl⟩ := mem_seg.1 hl
    exact ⟨i, h0, by omega, hx⟩
  · rintro ⟨i, h0, h1, hx⟩
    exact ⟨rests i, mem_seg.2 ⟨i, h0, by omega, rfl⟩, hx⟩

/-- An array of `n` entries about its entry `m`. -/
theorem seg_split (a : Int → α) {n : Nat} {m : Int} (h0 : 0 ≤ m) (h1 : m < n) :
    seg a 0 n = seg a 0 m.toNat ++ a m :: seg a (m + 1) (n - 1 - m.toNat) := by
  rw [← seg_succ, show n - 1 - m.toNat + 1 = n - m.toNat by omega]
  have happ := seg_append a 0 m.toNat (n - m.toNat)
  rw [show (0 : Int) + (m.toNat : Int) = m by omega, show m.toNat + (n - m.toNat) = n by omega] at happ
  exact happ.symm

/-- The head of one list is taken out. -/
theorem remains_perm {rests : Int → List α} {n : Nat} {m : Int} {x : α} {xs : List α} (h0 : 0 ≤ m) (h1 : m < n)
    (hm : rests m = x :: xs) : (remains rests n).Perm (x :: remains (setAt rests m xs) n) := by
  have hlow : seg (setAt rests m xs) 0 m.toNat = seg rests 0 m.toNat :=
    seg_congr (fun i _ h => setAt_of_ne (by omega))
  have hhigh : seg (setAt rests m xs) (m + 1) (n - 1 - m.toNat) = seg rests (m + 1) (n - 1 - m.toNat) :=
    seg_congr (fun i h _ => setAt_of_ne (by omega))
  unfold remains
  rw [seg_split rests h0 h1, seg_split (setAt rests m xs) h0 h1, setAt_same, hm, hlow, hhigh]
  rw [List.flatten_append, List.flatten_append, List.flatten_cons, List.flatten_cons, List.cons_append]
  exact List.perm_middle

section Order

variable [LE α]

/-- `out` has been merged from the `n` lists that made up `all`. -/
structure Merging (all : List α) (rests : Int → List α) (n : Nat) (out : List α) : Prop where
  perm : (out ++ remains rests n).Perm all
  sorted : out.Pairwise (· ≤ ·)
  rest : ∀ i : Int, 0 ≤ i → i < n → (rests i).Pairwise (· ≤ ·)
  below : ∀ x ∈ out, ∀ y ∈ remains rests n, x ≤ y

namespace Merging

variable {all out : List α} {rests : Int → List α} {n : Nat}

theorem start (h : ∀ i : Int, 0 ≤ i → i < n → (rests i).Pairwise (· ≤ ·)) : Merging (remains rests n) rests n [] where
  perm := .refl _
  sorted := .nil
  rest := h
  below := fun x hx => by cases hx

/-- A head below all heads is below all that is left. -/
theorem least [Std.IsPreorder α] (h : Merging all rests n out) {x : α}
    (hx : ∀ (i : Int) y ys, 0 ≤ i → i < n → rests i = y :: ys → x ≤ y) :
    ∀ y ∈ remains rests n, x ≤ y := by
  intro y hy
  obtain ⟨i, h0, h1, hy⟩ := mem_remains.1 hy
  cases hi : rests i with
  | nil =>
    rw [hi] at hy
    cases hy
  | cons z zs =>
    have hz := hx i z zs h0 h1 hi
    have hrest := h.rest i h0 h1
    rw [hi] at hy hrest
    rcases List.mem_cons.1 hy with rfl | hy
    · exact hz
    · exact Std.IsPreorder.le_trans x z y hz ((List.pairwise_cons.1 hrest).1 y hy)

/-- **The step**: a least head is taken. -/
theorem take [Std.IsPreorder α] (h : Merging all rests n out) {m : Int} {x : α} {xs : List α} (h0 : 0 ≤ m) (h1 : m < n)
    (hm : rests m = x :: xs) (hx : ∀ (i : Int) y ys, 0 ≤ i → i < n → rests i = y :: ys → x ≤ y) :
    Merging all (setAt rests m xs) n (out ++ [x]) := by
  have hperm := remains_perm h0 h1 hm
  have hleast := h.least hx
  have hkept : ∀ y ∈ remains (setAt rests m xs) n, y ∈ remains rests n := fun y hy =>
    hperm.mem_iff.2 (List.mem_cons_of_mem x hy)
  refine ⟨?_, ?_, fun i hi0 hi1 => ?_, fun y hy z hz => ?_⟩
  · rw [List.append_assoc]
    exact (hperm.symm.append_left out).trans h.perm
  · rw [List.pairwise_append]
    refine ⟨h.sorted, List.pairwise_singleton _ x, fun y hy z hz => ?_⟩
    rw [List.mem_singleton.1 hz]
    exact h.below y hy x (hperm.mem_iff.2 List.mem_cons_self)
  · by_cases him : i = m
    · rw [him, setAt_same]
      have hrest := h.rest m h0 h1
      rw [hm] at hrest
      exact (List.pairwise_cons.1 hrest).2
    · rw [setAt_of_ne him]
      exact h.rest i hi0 hi1
  · rcases List.mem_append.1 hy with hy | hy
    · exact h.below y hy z (hkept z hz)
    · rw [List.mem_singleton.1 hy]
      exact hleast z (hkept z hz)

theorem done (h : Merging all rests n out) (hempty : remains rests n = []) : out.Perm all ∧ out.Pairwise (· ≤ ·) := by
  have hperm := h.perm
  rw [hempty, List.append_nil] at hperm
  exact ⟨hperm, h.sorted⟩

end Merging
end Order

/-- Consecutive slices of one length are a longer one. -/
theorem remains_slices (a : Int → α) (t : Nat) : ∀ n : Nat, remains (fun i => seg a (i * t) t) n = seg a 0 (n * t)
  | 0 => by
    rw [Nat.zero_mul]
    rfl
  | n + 1 => by
    have ih := remains_slices a t n
    unfold remains at ih ⊢
    rw [seg_concat, List.flatten_append, ih, List.flatten_singleton, Nat.succ_mul, ← seg_append a 0 (n * t) t]
    rw [Int.zero_add, Int.natCast_mul, Int.zero_add]

end CLib
