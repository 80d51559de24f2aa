import CCplusplus.ReadColumnNumbers
/-!
# ReadColumnNumbersBounds — where `rearrange` writes

The position in the output grows by the width of each range, whatever was copied, and one value of it stops the loop.
So `rearrange` stays inside the output exactly if, up to the pair where the loop stops, no range is reversed and the
widths add up to less than the output has room for (`rearrange_safe_iff`).
-/
namespace Cc
namespace ReadColumnNumbers

open CLib

variable {m : Mem} {output input : Ptr} {line : List UInt8}

/-! ## The buffers -/

theorem Buffers.len_eq (h : Buffers m output input line) : intAdd line.length 0 = line.length := by
  have hshort := h.short
  rw [intAdd_eq (by omega) (by omega), Int.add_zero]

theorem Buffers.output_valid (h : Buffers m output input line) {col : Int} {n : Nat} (h0 : 0 ≤ col) :
    m.valid (output.add col) n = true ↔ col + n ≤ 1000 := by
  have hoff := h.outputOff
  rw [Mem.valid_iff]
  simp only [Ptr.add_block, Ptr.add_off, h.outputSize, MAX_INPUT, Option.some.injEq, exists_eq_left', hoff]
  omega

theorem Buffers.cString_eq (h : Buffers m output input line) {from' : Int} (h0 : 0 ≤ from')
    (hlt : from' < line.length) : m.cString (input.add from') = .ok (line.drop from'.toNat) := by
  have hoff := h.inputOff
  have hlen : (line.drop from'.toNat).length = line.length - from'.toNat := List.length_drop
  refine Mem.cString_at ?_ (fun c hc => h.clean c (List.mem_of_mem_drop hc)) ?_
  · refine (Mem.valid_iff _ _ _).2 ⟨_, h.inputSize, ?_, ?_⟩
    · simp only [Ptr.add_off]
      omega
    · simp only [Ptr.add_off]
      omega
  · have htext := h.text
    rw [← List.take_append_drop from'.toNat line, List.append_assoc, Mem.at_append] at htext
    have htake : ((line.take from'.toNat).length : Int) = from' := by
      rw [List.length_take]
      omega
    rw [htake] at htext
    exact htext.2

theorem Buffers.line_eq (h : Buffers m output input line) : m.cString input = .ok line := by
  refine Mem.cString_at ((Mem.valid_iff _ _ _).2 ⟨_, h.inputSize, ?_, ?_⟩) h.clean h.text
  · exact Int.le_of_eq h.inputOff.symm
  · rw [h.inputOff]
    omega

/-- What is written to the output leaves the line. -/
theorem Buffers.frame (h : Buffers m output input line) {m' : Mem} {q : Ptr} {n : Nat} (hq : q.block = output.block)
    (hsame : Mem.SameOutside q n m m') : Buffers m' output input line where
  outputSize := by rw [hsame.size, h.outputSize]
  outputOff := h.outputOff
  inputSize := by rw [hsame.size, h.inputSize]
  inputOff := h.inputOff
  apart := h.apart
  text := h.text.outside hsame (Mem.lt_next_of_size h.inputSize)
    ((Mem.apart_iff _ _ _ _).2 (.inl (hq ▸ h.apart)))
  clean := h.clean
  short := h.short

/-! ## A turn of the loop -/

theorem nchars_eq (p : Int × Int) : intAdd (intAdd p.2 (-p.1)) 1 = (width p).bmod 4294967296 := by
  unfold intAdd width
  rw [Int.bmod_add_bmod, Int.sub_eq_add_neg]

theorem nchars_of_fits {p : Int × Int} {outputCol : Int} (h0 : 0 ≤ outputCol) (hw : 0 ≤ width p)
    (hfit : outputCol + width p ≤ 1000) :
    intAdd (intAdd p.2 (-p.1)) 1 = width p ∧ intAdd outputCol (width p) = outputCol + width p := by
  rw [nchars_eq, Int.bmod_eq_of_le (by omega) (by omega)]
  exact ⟨rfl, intAdd_eq (by omega) (by unfold INT_MAX; omega)⟩

/-- A negative length is a huge `size_t`. -/
theorem asSizeT_of_neg {x : Int} (h0 : x < 0) (h1 : -2147483648 ≤ x) : 1000 < asSizeT x := by
  unfold asSizeT
  omega

theorem last_eq : (MAX_INPUT : Int) - 1 = 999 := rfl

theorem rearrangeFrom_stop {len from' to' outputCol : Int} (columns : List Int)
    (h : from' ≥ len ∨ outputCol = 999) :
    rearrangeFrom m output input len (from' :: to' :: columns) outputCol = .ok (m, outputCol) := if_pos h

/-- **A range that fits is copied**, padded to its width. -/
theorem rearrangeFrom_copy (h : Buffers m output input line) {p : Int × Int} {outputCol : Int} (columns : List Int)
    (hp : 0 ≤ p.1) (hgo : ¬ (p.1 ≥ line.length ∨ outputCol = 999)) (h0 : 0 ≤ outputCol) (hw : 0 ≤ width p)
    (hfit : outputCol + width p ≤ 1000) :
    ∃ m', rearrangeFrom m output input line.length (p.1 :: p.2 :: columns) outputCol =
        rearrangeFrom m' output input line.length columns (outputCol + width p) ∧
      Mem.At m' (output.add outputCol) (Mem.padded (line.drop p.1.toNat) (width p).toNat) ∧
      Mem.SameOutside (output.add outputCol) (width p).toNat m m' := by
  obtain ⟨hn, hcol⟩ := nchars_of_fits h0 hw hfit
  obtain ⟨m', hcpy, hat, hsame⟩ := Mem.strncpy_ok (s := line.drop p.1.toNat)
    ((h.output_valid (n := (width p).toNat) h0).2 (by omega))
  refine ⟨m', ?_, hat, hsame⟩
  rw [rearrangeFrom, last_eq, if_neg hgo, h.cString_eq hp (by omega), ok_bind, hn, hcol,
    asSizeT_of_nonneg hw (by unfold INT_MAX; omega), hcpy, ok_bind]

/-- **A range that does not fit, or a reversed one, is written past the output.** -/
theorem rearrangeFrom_fault (h : Buffers m output input line) {p : Int × Int} {outputCol : Int} (columns : List Int)
    (hp : 0 ≤ p.1) (hp2 : 0 ≤ p.2 ∧ p.2 ≤ INT_MAX) (hgo : ¬ (p.1 ≥ line.length ∨ outputCol = 999)) (h0 : 0 ≤ outputCol)
    (h1 : outputCol ≤ 1000) (hbad : width p < 0 ∨ 1000 < outputCol + width p) :
    rearrangeFrom m output input line.length (p.1 :: p.2 :: columns) outputCol = .error .outOfBounds := by
  have hshort := h.short
  have hlow : -2147483648 ≤ width p := by
    unfold width
    unfold INT_MAX at hshort
    omega
  have hhigh : width p ≤ 2147483648 := by
    unfold width
    unfold INT_MAX at hp2
    omega
  have hlong : 1000 < outputCol + asSizeT (intAdd (intAdd p.2 (-p.1)) 1) := by
    rw [nchars_eq]
    rcases Int.lt_or_le (width p) 0 with hneg | hpos
    · have := asSizeT_of_neg hneg hlow
      rw [Int.bmod_eq_of_le (by omega) (by omega)]
      omega
    · by_cases hmax : width p = 2147483648
      · have : 1000 < asSizeT ((width p).bmod 4294967296) := by
          rw [hmax]
          decide
        omega
      · rw [Int.bmod_eq_of_le (by omega) (by omega), asSizeT_of_nonneg hpos (by unfold INT_MAX; omega)]
        omega
  have hv : ¬ m.valid (output.add outputCol) (asSizeT (intAdd (intAdd p.2 (-p.1)) 1)) = true := fun hv => by
    have := (h.output_valid h0).1 hv
    omega
  have hpos : 0 < asSizeT (intAdd (intAdd p.2 (-p.1)) 1) := by omega
  rw [rearrangeFrom, last_eq, if_neg hgo, h.cString_eq hp (by omega), ok_bind, Mem.strncpy_fault _ hpos hv]
  rfl

/-! ## The whole loop -/

/-- Up to where the loop stops, no range is reversed and the widths leave room for the NUL. -/
def fits (len : Int) : List (Int × Int) → Int → Bool
  | p :: pairs, outputCol =>
    decide (p.1 ≥ len) || decide (outputCol = 999) ||
      decide (0 ≤ width p) && decide (outputCol + width p ≤ 999) && fits len pairs (outputCol + width p)
  | [], _ => true

/-- The lengths that `strncpy` is called with. -/
def lengths (len : Int) : List Int → Int → List Int
  | from' :: to' :: columns, outputCol =>
    let nchars := intAdd (intAdd to' (-from')) 1
    if from' ≥ len ∨ outputCol = (MAX_INPUT : Int) - 1 then []
    else nchars :: lengths len columns (intAdd outputCol nchars)
  | _, _ => []

/-- `rearrange` returns with no access outside the two buffers, has written to the output only, and has not passed a
negative length. -/
structure Safe (m : Mem) (output input : Ptr) (line : List UInt8) (columns : List Int) : Prop where
  inside : ∃ m', rearrange m output input columns = .ok m' ∧ Mem.SameOutside output MAX_INPUT m m'
  lengths : ∀ n ∈ lengths line.length columns 0, 0 ≤ n

theorem inside_output {outputCol : Int} {n b : Nat} {o : Int} (h0 : 0 ≤ outputCol) (h1 : outputCol + n ≤ 1000)
    (hi : Mem.inside (output.add outputCol) n b o = true) : Mem.inside output MAX_INPUT b o = true := by
  rw [Mem.inside_iff] at hi ⊢
  simp only [Ptr.add_off, Ptr.add_block] at hi
  unfold MAX_INPUT
  omega

theorem rearrangeFrom_fits (pairs : List (Int × Int)) (h : Buffers m output input line) {outputCol : Int}
    (hp : ∀ p ∈ pairs, 0 ≤ p.1) (h0 : 0 ≤ outputCol) (h1 : outputCol ≤ 999)
    (hfits : fits line.length pairs outputCol = true) :
    (∃ m' col, rearrangeFrom m output input line.length (columnsOf pairs) outputCol = .ok (m', col) ∧
      0 ≤ col ∧ col ≤ 999 ∧ Mem.SameOutside output MAX_INPUT m m') ∧
    ∀ n ∈ lengths line.length (columnsOf pairs) outputCol, 0 ≤ n := by
  induction pairs generalizing m outputCol with
  | nil => exact ⟨⟨m, outputCol, rfl, h0, h1, .refl output MAX_INPUT m⟩, fun n hn => by cases hn⟩
  | cons p pairs ih =>
    by_cases hstop : p.1 ≥ line.length ∨ outputCol = 999
    · refine ⟨⟨m, outputCol, rearrangeFrom_stop _ hstop, h0, h1, .refl output MAX_INPUT m⟩, ?_⟩
      rw [columnsOf, lengths, last_eq, if_pos hstop]
      intro n hn
      cases hn
    · unfold fits at hfits
      rw [Bool.or_eq_true, Bool.or_eq_true, decide_eq_true_eq, decide_eq_true_eq] at hfits
      have hfit := hfits.resolve_left hstop
      simp only [Bool.and_eq_true, decide_eq_true_eq] at hfit
      obtain ⟨⟨hw, hroom⟩, hrest⟩ := hfit
      have hpair := hp p List.mem_cons_self
      obtain ⟨m₁, hturn, -, hsame⟩ := rearrangeFrom_copy h (columnsOf pairs) hpair hstop h0 hw (by omega)
      obtain ⟨⟨m', col, hrun, hc0, hc1, hsame'⟩, hlengths⟩ := ih (h.frame (Ptr.add_block output _) hsame)
        (fun q hq => hp q (List.mem_cons_of_mem _ hq)) (by omega) hroom hrest
      refine ⟨⟨m', col, hturn.trans hrun, hc0, hc1,
        (hsame.widen (fun b o hi => inside_output h0 (by omega) hi)).trans hsame'⟩, ?_⟩
      obtain ⟨hn, hcol⟩ := nchars_of_fits h0 hw (Int.le_trans hroom (by decide))
      rw [columnsOf, lengths, last_eq, if_neg hstop, hn, hcol]
      intro n hmem
      rcases List.mem_cons.1 hmem with rfl | hmem
      · exact hw
      · exact hlengths n hmem

/-- Where it does not fit, the loop fails, or it leaves the position behind the output. -/
theorem rearrangeFrom_unfit (pairs : List (Int × Int)) (h : Buffers m output input line) {outputCol : Int}
    (hp : ∀ p ∈ pairs, 0 ≤ p.1 ∧ 0 ≤ p.2 ∧ p.2 ≤ INT_MAX) (h0 : 0 ≤ outputCol) (h1 : outputCol ≤ 1000)
    (hbad : outputCol = 1000 ∨ fits line.length pairs outputCol = false) {m' : Mem} {col : Int}
    (hok : rearrangeFrom m output input line.length (columnsOf pairs) outputCol = .ok (m', col)) :
    col = 1000 ∧ m'.size = m.size := by
  induction pairs generalizing m outputCol with
  | nil =>
    have hfull : outputCol = 1000 := hbad.resolve_right (fun hf => by cases hf)
    cases hok
    exact ⟨hfull, rfl⟩
  | cons p pairs ih =>
    obtain ⟨hp1, hp2⟩ := hp p List.mem_cons_self
    by_cases hstop : p.1 ≥ line.length ∨ outputCol = 999
    · have hfull : outputCol = 1000 := by
        refine hbad.resolve_right (fun hf => ?_)
        unfold fits at hf
        rcases hstop with hs | hs
        · simp [hs] at hf
        · simp [hs] at hf
      rw [columnsOf, rearrangeFrom_stop _ hstop] at hok
      cases hok
      exact ⟨hfull, rfl⟩
    · by_cases hin : width p < 0 ∨ 1000 < outputCol + width p
      · rw [columnsOf, rearrangeFrom_fault h (columnsOf pairs) hp1 hp2 hstop h0 h1 hin] at hok
        cases hok
      · obtain ⟨m₁, hturn, -, hsame⟩ := rearrangeFrom_copy h (columnsOf pairs) hp1 hstop h0 (by omega) (by omega)
        rw [columnsOf, hturn] at hok
        refine (ih (h.frame (Ptr.add_block output _) hsame) (fun q hq => hp q (List.mem_cons_of_mem _ hq)) (by omega)
          (by omega) ?_ hok).imp_right (fun hsize => hsize.trans hsame.size)
        by_cases hfull : outputCol + width p = 1000
        · exact .inl hfull
        · right
          have hf := hbad.resolve_left (by omega)
          unfold fits at hf
          rw [not_or] at hstop
          have hw : 0 ≤ width p := by omega
          have hroom : outputCol + width p ≤ 999 := by omega
          simpa [hstop.1, hstop.2, hw, hroom] using hf

/-- The loop from the start of the output, and the NUL behind what it wrote. -/
theorem rearrange_eq (h : Buffers m output input line) (columns : List Int) :
    rearrange m output input columns =
      rearrangeFrom m output input line.length columns 0 >>= fun r => r.1.store (output.add r.2) 0 := by
  unfold rearrange
  rw [h.line_eq, ok_bind, h.len_eq]

theorem safe_iff_fits (h : Buffers m output input line) {columns : List Int} (hpaired : columns.length % 2 = 0)
    (hpairs : ∀ p ∈ pairsOf columns, 0 ≤ p.1 ∧ 0 ≤ p.2 ∧ p.2 ≤ INT_MAX) :
    Safe m output input line columns ↔ fits line.length (pairsOf columns) 0 = true := by
  have hcolumns := columnsOf_pairsOf columns hpaired
  have hrun : rearrange m output input columns = rearrangeFrom m output input line.length (columnsOf (pairsOf columns)) 0
      >>= fun r => r.1.store (output.add r.2) 0 := by
    rw [rearrange_eq h, hcolumns]
  constructor
  · rintro ⟨⟨m', hok, -⟩, -⟩
    by_contra hunfit
    rw [hrun] at hok
    cases hloop : rearrangeFrom m output input line.length (columnsOf (pairsOf columns)) 0 with
    | error e =>
      rw [hloop] at hok
      cases hok
    | ok r =>
      obtain ⟨m₁, col⟩ := r
      obtain ⟨rfl, hsize⟩ := rearrangeFrom_unfit _ h hpairs (Int.le_refl 0) (by omega) (.inr (by simpa using hunfit))
        hloop
      have hv : ¬ m₁.valid (output.add 1000) 1 = true := fun hv => by
        rw [Mem.valid_congr (congrFun hsize _), h.output_valid (by decide)] at hv
        omega
      have hfault : m₁.store (output.add 1000) 0 = .error .outOfBounds := if_neg hv
      rw [hloop, ok_bind] at hok
      cases hfault.symm.trans hok
  · intro hfits
    obtain ⟨⟨m₁, col, hloop, h0, h1, hsame⟩, hlengths⟩ := rearrangeFrom_fits _ h (fun p hp => (hpairs p hp).1)
      (Int.le_refl 0) (by omega) hfits
    rw [hcolumns] at hlengths
    have hv := ((h.frame rfl hsame).output_valid (n := 1) h0).2 (by omega)
    obtain ⟨m', hstore, -, hsame'⟩ := Mem.store_at hv 0
    refine ⟨⟨m', ?_, hsame.trans (hsame'.widen (fun b o hi => inside_output h0 (by omega) hi))⟩, hlengths⟩
    rw [hrun, hloop, ok_bind]
    exact hstore

/-- **`rearrange` is safe exactly if the ranges fit**, for every line and all the columns that `read_column_number` can
return. -/
theorem rearrange_safe_iff (h : Buffers m output input line) (scanned columns : List Int)
    (hint : ∀ c ∈ scanned, isInt c = true) (hread : readColumnNumber scanned MAX_COLS = .ok columns) :
    Safe m output input line columns ↔ fits line.length (pairsOf columns) 0 = true := by
  obtain ⟨hpaired, -, hcols⟩ := readColumnNumber_ok hread
  refine safe_iff_fits h hpaired (fun p hp => ?_)
  obtain ⟨h1, h2⟩ := mem_pairsOf hp
  have hint2 := hint p.2 (hcols p.2 h2).1
  unfold isInt at hint2
  simp only [Bool.and_eq_true, decide_eq_true_eq] at hint2
  exact ⟨(hcols p.1 h1).2, (hcols p.2 h2).2, hint2.2⟩

/-- Two buffers, 0 and 1, with a line in the second. -/
def workspace (s : List UInt8) : Mem where
  byte := fun _ o => (s[o.toNat]?).getD 0
  size := fun b => if b = 0 then some MAX_INPUT else if b = 1 then some (s.length + 1) else none
  next := 2
  os := fun _ => .refuse
  fresh := fun b hb => by rw [if_neg (by omega), if_neg (by omega)]

theorem workspace_buffers {line : List UInt8} (hclean : Mem.Clean line) (hshort : (line.length : Int) ≤ INT_MAX) :
    Buffers (workspace line) ⟨0, 0⟩ ⟨1, 0⟩ line where
  outputSize := rfl
  outputOff := rfl
  inputSize := rfl
  inputOff := rfl
  apart := by decide
  text := Mem.at_of_getElem (fun k c hk => by
    show (List.getD line (0 + (k : Int)).toNat 0) = c
    rw [Int.zero_add, Int.toNat_natCast, List.getD_eq_getElem?_getD]
    rcases Nat.lt_or_ge k line.length with hlt | hge
    · rw [List.getElem?_append_left hlt] at hk
      rw [hk]
      rfl
    · rw [List.getElem?_append_right hge] at hk
      rw [List.getElem?_eq_none hge]
      obtain ⟨hlt, rfl⟩ := List.getElem?_eq_some_iff.1 hk
      simp)
  clean := hclean
  short := hshort

theorem rearrange_safe_two :
    Safe (workspace [97, 98, 99, 100]) ⟨0, 0⟩ ⟨1, 0⟩ [97, 98, 99, 100] [2, 3, 0, 0] ↔
      fits 4 [(2, 3), (0, 0)] 0 = true :=
  rearrange_safe_iff (workspace_buffers (by decide) (by decide)) [2, 3, 0, 0, -1] [2, 3, 0, 0] (by decide) rfl

/-- **A reversed range, and one wider than the output.** -/
theorem rearrange_unsafe :
    readColumnNumber [3, 1, -1] MAX_COLS = .ok [3, 1] ∧
    ¬ Safe (workspace [97, 98, 99, 100]) ⟨0, 0⟩ ⟨1, 0⟩ [97, 98, 99, 100] [3, 1] ∧
    readColumnNumber [0, 999, -1] MAX_COLS = .ok [0, 999] ∧
    ¬ Safe (workspace [97, 98, 99, 100]) ⟨0, 0⟩ ⟨1, 0⟩ [97, 98, 99, 100] [0, 999] := by
  have hbuffers : Buffers (workspace [97, 98, 99, 100]) ⟨0, 0⟩ ⟨1, 0⟩ [97, 98, 99, 100] :=
    workspace_buffers (by decide) (by decide)
  refine ⟨rfl, fun h => ?_, rfl, fun h => ?_⟩
  · exact absurd ((safe_iff_fits hbuffers rfl (by decide)).1 h) (by decide)
  · exact absurd ((safe_iff_fits hbuffers rfl (by decide)).1 h) (by decide)

end ReadColumnNumbers
end Cc
