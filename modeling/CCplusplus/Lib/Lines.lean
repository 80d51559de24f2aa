import Mathlib.Tactic.Common
/-!
# Lines — a text in lines, and the pieces that `fgets` reads of it

A line goes up to its end mark and contains it; the last line may have none (`linesOf`).  `fgets n` reads the first
line, or its first `n` characters if it is longer; what is left of the line is then the next line of the rest.
-/
namespace CLib

variable {α : Type} [DecidableEq α] (eol : α)

def linesOf : List α → List (List α)
  | [] => []
  | c :: text =>
    if c = eol then [c] :: linesOf text
    else
      match linesOf text with
      | [] => [[c]]
      | line :: lines => (c :: line) :: lines

/-- What is read, and the rest of the text. -/
def fgets : Nat → List α → List α × List α
  | 0, text => ([], text)
  | _ + 1, [] => ([], [])
  | n + 1, c :: text =>
    if c = eol then ([c], text)
    else (c :: (fgets n text).1, (fgets n text).2)

theorem ne_nil_of_mem_linesOf : ∀ (text : List α), ∀ line ∈ linesOf eol text, line ≠ []
  | [], line, h => by cases h
  | c :: text, line, h => by
    have ih := ne_nil_of_mem_linesOf text
    unfold linesOf at h
    split at h
    · rcases List.mem_cons.1 h with rfl | h
      · simp
      · exact ih line h
    · split at h
      · rw [List.mem_singleton.1 h]
        simp
      · rename_i first lines heq
        rcases List.mem_cons.1 h with rfl | h
        · simp
        · exact ih line (heq ▸ List.mem_cons_of_mem _ h)

theorem linesOf_eq_nil {text : List α} (h : linesOf eol text = []) : text = [] := by
  cases text with
  | nil => rfl
  | cons c text =>
    unfold linesOf at h
    split at h
    · cases h
    · split at h
      · cases h
      · cases h

theorem fgets_append : ∀ (n : Nat) (text : List α), (fgets eol n text).1 ++ (fgets eol n text).2 = text
  | 0, _ => rfl
  | _ + 1, [] => rfl
  | n + 1, c :: text => by
    unfold fgets
    split
    · rfl
    · exact congrArg (List.cons c) (fgets_append n text)

theorem length_fgets_le : ∀ (n : Nat) (text : List α), (fgets eol n text).1.length ≤ n
  | 0, _ => Nat.le_refl _
  | _ + 1, [] => Nat.zero_le _
  | n + 1, c :: text => by
    have ih := length_fgets_le n text
    unfold fgets
    split
    · exact Nat.succ_le_succ (Nat.zero_le n)
    · exact Nat.succ_le_succ ih

/-- **A piece is the first line, or its first `n` characters.** -/
theorem linesOf_fgets : ∀ (n : Nat) (text : List α), text ≠ [] →
    linesOf eol text = (fgets eol n text).1 :: linesOf eol (fgets eol n text).2 ∨
      (fgets eol n text).1.length = n ∧ ∃ more lines, linesOf eol (fgets eol n text).2 = more :: lines ∧
        linesOf eol text = ((fgets eol n text).1 ++ more) :: lines
  | 0, text, h => by
    right
    cases hl : linesOf eol text with
    | nil => exact absurd (linesOf_eq_nil eol hl) h
    | cons line lines => exact ⟨rfl, line, lines, hl, rfl⟩
  | n + 1, [], h => absurd rfl h
  | n + 1, c :: text, _ => by
    by_cases hc : c = eol
    · left
      simp only [fgets, linesOf, if_pos hc]
    · simp only [fgets, linesOf, if_neg hc]
      by_cases ht : text = []
      · subst ht
        left
        cases n <;> rfl
      · rcases linesOf_fgets n text ht with h | ⟨hn, more, lines, hmore, h⟩
        · left
          rw [h]
        · right
          refine ⟨by rw [List.length_cons, hn], more, lines, hmore, ?_⟩
          rw [h]
          rfl

/-- **A first line that fits is read whole.** -/
theorem fgets_first {n : Nat} {text line : List α} {lines : List (List α)} (h : linesOf eol text = line :: lines)
    (hn : line.length ≤ n) : (fgets eol n text).1 = line ∧ linesOf eol (fgets eol n text).2 = lines := by
  have htext : text ≠ [] := by
    rintro rfl
    cases h
  rcases linesOf_fgets eol n text htext with h' | ⟨hlen, more, lines', hmore, h'⟩
  · rw [h] at h'
    cases h'
    exact ⟨rfl, rfl⟩
  · rw [h] at h'
    cases h'
    have hne : more ≠ [] := ne_nil_of_mem_linesOf eol _ more (hmore ▸ List.mem_cons_self)
    have hpos := List.length_pos_iff.2 hne
    rw [List.length_append] at hn
    omega

/-- A piece of a text that is not over is not empty. -/
theorem length_fgets_rest {n : Nat} {text : List α} (hn : 0 < n) (h : text ≠ []) :
    (fgets eol n text).2.length < text.length := by
  obtain ⟨k, rfl⟩ : ∃ k, n = k + 1 := ⟨n - 1, by omega⟩
  cases text with
  | nil => exact absurd rfl h
  | cons c text =>
    have happend := fgets_append eol (k + 1) (c :: text)
    have hlen := congrArg List.length happend
    have hpos : 0 < (fgets eol (k + 1) (c :: text)).1.length := by
      unfold fgets
      split <;> simp
    rw [List.length_append] at hlen
    omega

end CLib
