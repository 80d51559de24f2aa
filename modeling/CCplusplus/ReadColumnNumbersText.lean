import CCplusplus.ReadColumnNumbersBounds
/-!
# ReadColumnNumbersText — the string that `rearrange` leaves

A range that runs past the end of the line is padded with NULs up to its width, and the position goes on behind them:
the string ends there, whatever is copied later.  So the string is the concatenation of the ranges exactly if such a range
is the last one copied (`rearrange_text_iff`).
-/
namespace Cc
namespace ReadColumnNumbers

open CLib

variable {m : Mem} {output input : Ptr} {line : List UInt8}

/-- The characters of the ranges, up to the first that starts at the end of the line or past it. -/
def selected (line : List UInt8) : List (Int × Int) → List UInt8
  | [] => []
  | p :: pairs =>
    if p.1 ≥ line.length then []
    else (line.drop p.1.toNat).take (min p.2 (line.length - 1) - p.1 + 1).toNat ++ selected line pairs

/-- A range that runs past the end of the line has no range copied after it. -/
def clippedLast (len : Int) : List (Int × Int) → Bool
  | [] => true
  | p :: pairs =>
    decide (p.1 ≥ len) ||
      if p.2 < len then clippedLast len pairs else pairs.head?.all (fun q => decide (q.1 ≥ len))

def totalWidth : List (Int × Int) → Int
  | [] => 0
  | p :: pairs => width p + totalWidth pairs

/-- What is written to the output before the NUL. -/
def copied (line : List UInt8) : List (Int × Int) → List UInt8
  | [] => []
  | p :: pairs =>
    if p.1 ≥ line.length then [] else Mem.padded (line.drop p.1.toNat) (width p).toNat ++ copied line pairs

/-! ## The bytes of the output -/

theorem width_pos {p : Int × Int} (h : p.1 ≤ p.2) : 1 ≤ width p := by
  unfold width
  omega

theorem length_copied_le : ∀ {pairs : List (Int × Int)}, (∀ p ∈ pairs, 0 ≤ p.1 ∧ p.1 ≤ p.2) →
    ((copied line pairs).length : Int) ≤ totalWidth pairs
  | [], _ => Int.le_refl 0
  | p :: pairs, h => by
    have hw := width_pos (h p List.mem_cons_self).2
    have ih := length_copied_le (fun q hq => h q (List.mem_cons_of_mem _ hq))
    unfold copied totalWidth
    split
    · simp only [List.length_nil]
      omega
    · rw [List.length_append, Mem.length_padded]
      omega

/-- **The loop writes the ranges one after the other.** -/
theorem rearrangeFrom_copied (pairs : List (Int × Int)) (h : Buffers m output input line) (outputCol : Int)
    (hp : ∀ p ∈ pairs, 0 ≤ p.1 ∧ p.1 ≤ p.2) (h0 : 0 ≤ outputCol) (hroom : outputCol + totalWidth pairs < 999) :
    ∃ m', rearrangeFrom m output input line.length (columnsOf pairs) outputCol =
        .ok (m', outputCol + (copied line pairs).length) ∧
      Mem.At m' (output.add outputCol) (copied line pairs) ∧
      Mem.SameOutside (output.add outputCol) (copied line pairs).length m m' := by
  induction pairs generalizing m outputCol with
  | nil => exact ⟨m, by simp [copied, columnsOf, rearrangeFrom], trivial, .refl _ _ m⟩
  | cons p pairs ih =>
    obtain ⟨hp1, hp2⟩ := hp p List.mem_cons_self
    have hrest := fun q hq => hp q (List.mem_cons_of_mem p hq)
    have hw := width_pos hp2
    have hle : ((copied line pairs).length : Int) ≤ totalWidth pairs := length_copied_le hrest
    unfold totalWidth at hroom
    by_cases hstop : p.1 ≥ line.length
    · refine ⟨m, ?_, ?_, ?_⟩
      · rw [columnsOf, rearrangeFrom_stop _ (.inl hstop), copied, if_pos hstop, List.length_nil, Int.natCast_zero,
          Int.add_zero]
      · rw [copied, if_pos hstop]
        trivial
      · exact .refl _ _ m
    · obtain ⟨m₁, hturn, hat, hsame⟩ := rearrangeFrom_copy h (columnsOf pairs) hp1 (by omega) h0 (by omega) (by omega)
      obtain ⟨m', hrun, hat', hsame'⟩ := ih (h.frame (Ptr.add_block output _) hsame) (outputCol + width p) hrest
        (by omega) (by omega)
      rw [copied, if_neg hstop, List.length_append, Mem.length_padded]
      have hadd : (output.add outputCol).add (width p).toNat = output.add (outputCol + width p) := by
        rw [Ptr.add_add, Int.toNat_of_nonneg (by omega)]
      refine ⟨m', ?_, Mem.at_append.2 ⟨?_, ?_⟩, ?_⟩
      · rw [columnsOf, hturn, hrun]
        congr 2
        omega
      · refine hat.outside hsame' ?_ ?_
        · exact Mem.lt_next_of_size (h.frame (Ptr.add_block output _) hsame).outputSize
        · rw [Mem.apart_iff, Mem.length_padded]
          simp only [Ptr.add_off]
          omega
      · rw [Mem.length_padded, hadd]
        exact hat'
      · refine (hsame.widen (fun b o hi => ?_)).trans (hsame'.widen (fun b o hi => ?_))
        · rw [Mem.inside_iff] at hi ⊢
          simp only [Ptr.add_off, Ptr.add_block] at hi ⊢
          omega
        · rw [Mem.inside_iff] at hi ⊢
          simp only [Ptr.add_off, Ptr.add_block] at hi ⊢
          omega

/-- **The output's string** is what was copied, up to the first NUL. -/
theorem rearrange_string (h : Buffers m output input line) {pairs : List (Int × Int)}
    (hp : ∀ p ∈ pairs, 0 ≤ p.1 ∧ p.1 ≤ p.2) (hroom : totalWidth pairs < 999) :
    ∃ m', rearrange m output input (columnsOf pairs) = .ok m' ∧
      m'.cString output = .ok ((copied line pairs ++ [0]).takeWhile (fun c => c != 0)) := by
  have hle : ((copied line pairs).length : Int) ≤ totalWidth pairs := length_copied_le hp
  have h0 : output.add 0 = output := by
    unfold Ptr.add
    rw [Int.add_zero]
  obtain ⟨m₁, hloop, hat, hsame⟩ := rearrangeFrom_copied pairs h 0 hp (Int.le_refl 0) (by omega)
  rw [Int.zero_add] at hloop
  rw [h0] at hat hsame
  have h₁ := h.frame rfl hsame
  have hv : m₁.valid (output.add (copied line pairs).length) 1 = true := (h₁.output_valid (by omega)).2 (by omega)
  obtain ⟨m', hstore, hnul, hsame'⟩ := Mem.store_at hv 0
  refine ⟨m', ?_, ?_⟩
  · rw [rearrange_eq h, hloop, ok_bind]
    exact hstore
  · refine Mem.cString_takeWhile ?_ (by simp) (Mem.at_append.2 ⟨?_, hnul⟩)
    · have hv := ((h₁.frame (Ptr.add_block output _) hsame').output_valid (n := (copied line pairs ++ [0]).length)
        (Int.le_refl 0)).2 (by rw [List.length_append]; simp only [List.length_singleton]; omega)
      rwa [h0] at hv
    · refine hat.outside hsame' (Mem.lt_next_of_size h₁.outputSize) ?_
      rw [Mem.apart_iff]
      simp only [Ptr.add_off]
      omega

/-! ## The ranges -/

theorem selected_eq_nil_iff {pairs : List (Int × Int)} (hp : ∀ p ∈ pairs, 0 ≤ p.1 ∧ p.1 ≤ p.2) :
    selected line pairs = [] ↔ pairs.head?.all (fun q => decide (q.1 ≥ (line.length : Int))) = true := by
  cases pairs with
  | nil => simp [selected]
  | cons p pairs =>
    obtain ⟨hp1, hp2⟩ := hp p List.mem_cons_self
    rw [selected]
    by_cases hstop : p.1 ≥ line.length
    · simp [hstop]
    · have hne : (line.drop p.1.toNat).take (min p.2 (line.length - 1) - p.1 + 1).toNat ≠ [] := by
        intro hnil
        have hlen := congrArg List.length hnil
        rw [List.length_take, List.length_drop, List.length_nil] at hlen
        omega
      simp [hstop, hne]

/-- **The string is the concatenation of the ranges exactly if a clipped one is the last.** -/
theorem visible_iff (hclean : Mem.Clean line) : ∀ {pairs : List (Int × Int)}, (∀ p ∈ pairs, 0 ≤ p.1 ∧ p.1 ≤ p.2) →
    ((copied line pairs ++ [0]).takeWhile (fun c => c != 0) = selected line pairs ↔
      clippedLast line.length pairs = true)
  | [], _ => by simp [copied, selected, clippedLast]
  | p :: pairs, h => by
    obtain ⟨hp1, hp2⟩ := h p List.mem_cons_self
    have hrest := fun q hq => h q (List.mem_cons_of_mem p hq)
    have hlen : (line.drop p.1.toNat).length = line.length - p.1.toNat := List.length_drop
    rw [copied, selected, clippedLast]
    by_cases hstop : p.1 ≥ line.length
    · simp [hstop]
    · rw [if_neg hstop, if_neg hstop, decide_eq_false hstop, Bool.false_or]
      have hchars : ∀ c ∈ line.drop p.1.toNat, (c != 0) = true := fun c hc =>
        bne_iff_ne.2 (hclean c (List.mem_of_mem_drop hc))
      by_cases hin : p.2 < line.length
      · -- the whole range is in the line
        have hmin : min p.2 ((line.length : Int) - 1) - p.1 + 1 = width p := by
          unfold width
          omega
        rw [if_pos hin, hmin, Mem.padded_of_le (by unfold width; omega), List.append_assoc,
          List.takeWhile_append_of_pos (fun c hc => hchars c (List.mem_of_mem_take hc)), List.append_cancel_left_eq]
        exact visible_iff hclean hrest
      · -- it is padded
        obtain ⟨t, ht⟩ := Mem.padded_of_lt (s := line.drop p.1.toNat) (n := (width p).toNat) (by unfold width; omega)
        have htake : (line.drop p.1.toNat).take (min p.2 ((line.length : Int) - 1) - p.1 + 1).toNat =
            line.drop p.1.toNat := List.take_of_length_le (by omega)
        rw [if_neg hin, ht, htake, List.append_assoc, List.append_assoc, List.takeWhile_append_of_pos hchars,
          List.append_cancel_left_eq, ← selected_eq_nil_iff hrest]
        exact eq_comm

/-- **The string left in the output is that of the ranges exactly if a range that runs past the end of the line is the
last one copied.** -/
theorem rearrange_text_iff (h : Buffers m output input line) (pairs : List (Int × Int))
    (hp : ∀ p ∈ pairs, 0 ≤ p.1 ∧ p.1 ≤ p.2) (hwidth : totalWidth pairs < (MAX_INPUT : Int) - 1) :
    ∃ m', rearrange m output input (columnsOf pairs) = .ok m' ∧
      (m'.cString output = .ok (selected line pairs) ↔ clippedLast line.length pairs = true) := by
  obtain ⟨m', hrun, hstr⟩ := rearrange_string h hp hwidth
  refine ⟨m', hrun, ?_⟩
  rw [hstr, Except.ok.injEq]
  exact visible_iff h.clean hp

theorem rearrange_text_two :
    ∃ m', rearrange (workspace [97, 98, 99, 100]) ⟨0, 0⟩ ⟨1, 0⟩ (columnsOf [(2, 3), (0, 0)]) = .ok m' ∧
      (m'.cString ⟨0, 0⟩ = .ok (selected [97, 98, 99, 100] [(2, 3), (0, 0)]) ↔
        clippedLast 4 [(2, 3), (0, 0)] = true) :=
  rearrange_text_iff (workspace_buffers (by decide) (by decide)) [(2, 3), (0, 0)] (by decide) (by decide)

/-- **After the range 2 to 9 of `abcd`, the range 0 to 0 is lost.** -/
theorem rearrange_lost :
    ∃ m', rearrange (workspace [97, 98, 99, 100]) ⟨0, 0⟩ ⟨1, 0⟩ (columnsOf [(2, 9), (0, 0)]) = .ok m' ∧
      m'.cString ⟨0, 0⟩ = .ok [99, 100] ∧ selected [97, 98, 99, 100] [(2, 9), (0, 0)] = [99, 100, 97] := by
  have hbuffers : Buffers (workspace [97, 98, 99, 100]) ⟨0, 0⟩ ⟨1, 0⟩ [97, 98, 99, 100] :=
    workspace_buffers (by decide) (by decide)
  have hp : ∀ p ∈ [((2 : Int), (9 : Int)), (0, 0)], 0 ≤ p.1 ∧ p.1 ≤ p.2 := by decide
  obtain ⟨m', hrun, hstr⟩ := rearrange_string hbuffers hp (by decide)
  exact ⟨m', hrun, hstr, rfl⟩

end ReadColumnNumbers
end Cc
