import CCplusplus.Lib.Str
/-!
# ReadColumnNumbers — `read_column_numbers.c`

`rearrange` copies the ranges of columns of a line, one after the other, into the output.  The two buffers are blocks of
their own.  The line is read where it and its NUL are, so a read past the NUL is a fault; the output has `MAX_INPUT`
bytes.  A length is an `int` that `strncpy` takes as a `size_t`.
-/
namespace Cc
namespace ReadColumnNumbers

open CLib

def MAX_COLS : Nat := 20
def MAX_INPUT : Nat := 1000

/-- The loop of `read_column_number`, on the numbers that `scanf` reads until it fails, with room for `n` more. -/
def columnsFrom : Nat → List Int → List Int
  | n + 1, column :: scanned => if column ≥ 0 then column :: columnsFrom n scanned else []
  | _, _ => []

/-- `read_column_number`: the columns, or the status of its `exit` and what is printed before. -/
def readColumnNumber (scanned : List Int) (max : Nat) : Except (Int × String) (List Int) :=
  let columns := columnsFrom max scanned
  if columns.length % 2 ≠ 0 then .error (-1, "Last column number is not paired.") else .ok columns

/-- The loop of `rearrange`, over the columns to come: the memory and the output's position where it ends. -/
def rearrangeFrom (m : Mem) (output input : Ptr) (len : Int) : List Int → Int → Exec (Mem × Int)
  | from' :: to' :: columns, outputCol => do
    let nchars := intAdd (intAdd to' (-from')) 1
    if from' ≥ len ∨ outputCol = (MAX_INPUT : Int) - 1 then pure (m, outputCol)
    else
      let s ← m.cString (input.add from')
      let m ← m.strncpy (output.add outputCol) s (asSizeT nchars)
      rearrangeFrom m output input len columns (intAdd outputCol nchars)
  | [_], _ => .error .outOfBounds
  | [], outputCol => pure (m, outputCol)

def rearrange (m : Mem) (output input : Ptr) (columns : List Int) : Exec Mem := do
  let s ← m.cString input
  let len := intAdd s.length 0
  let (m, outputCol) ← rearrangeFrom m output input len columns 0
  m.store (output.add outputCol) 0

/-- The two buffers, with a line in the second. -/
structure Buffers (m : Mem) (output input : Ptr) (line : List UInt8) : Prop where
  outputSize : m.size output.block = some MAX_INPUT
  outputOff : output.off = 0
  inputSize : m.size input.block = some (line.length + 1)
  inputOff : input.off = 0
  apart : output.block ≠ input.block
  text : Mem.At m input (line ++ [0])
  clean : Mem.Clean line
  short : (line.length : Int) ≤ INT_MAX

def pairsOf : List Int → List (Int × Int)
  | from' :: to' :: columns => (from', to') :: pairsOf columns
  | _ => []

def columnsOf : List (Int × Int) → List Int
  | [] => []
  | (from', to') :: pairs => from' :: to' :: columnsOf pairs

theorem columnsOf_pairsOf : ∀ (columns : List Int), columns.length % 2 = 0 → columnsOf (pairsOf columns) = columns
  | [], _ => rfl
  | [_], h => by cases h
  | from' :: to' :: columns, h => by
    have hrest : columns.length % 2 = 0 := by
      simp only [List.length_cons] at h
      omega
    simp only [pairsOf, columnsOf, columnsOf_pairsOf columns hrest]

def width (p : Int × Int) : Int := p.2 - p.1 + 1

/-! ## What `read_column_number` returns -/

theorem mem_columnsFrom : ∀ {n : Nat} {scanned : List Int} {c : Int}, c ∈ columnsFrom n scanned → c ∈ scanned ∧ 0 ≤ c
  | n + 1, column :: scanned, c, h => by
    unfold columnsFrom at h
    split at h
    · rename_i h0
      rcases List.mem_cons.1 h with rfl | h
      · exact ⟨List.mem_cons_self, h0⟩
      · exact (mem_columnsFrom h).imp_left (List.mem_cons_of_mem column)
    · cases h

theorem length_columnsFrom : ∀ (n : Nat) (scanned : List Int), (columnsFrom n scanned).length ≤ n
  | 0, _ => Nat.le_of_eq (by simp [columnsFrom])
  | n + 1, [] => Nat.zero_le _
  | n + 1, column :: scanned => by
    unfold columnsFrom
    split
    · exact Nat.succ_le_succ (length_columnsFrom n scanned)
    · exact Nat.zero_le _

/-- **The columns are paired, at most `max`, and not negative.** -/
theorem readColumnNumber_ok {scanned columns : List Int} {max : Nat} (h : readColumnNumber scanned max = .ok columns) :
    columns.length % 2 = 0 ∧ columns.length ≤ max ∧ ∀ c ∈ columns, c ∈ scanned ∧ 0 ≤ c := by
  unfold readColumnNumber at h
  simp only at h
  split at h
  · cases h
  · rename_i hpaired
    cases h
    exact ⟨Decidable.not_not.1 hpaired, length_columnsFrom max scanned, fun c hc => mem_columnsFrom hc⟩

theorem mem_pairsOf : ∀ {columns : List Int} {p : Int × Int}, p ∈ pairsOf columns → p.1 ∈ columns ∧ p.2 ∈ columns
  | from' :: to' :: columns, p, h => by
    unfold pairsOf at h
    rcases List.mem_cons.1 h with rfl | h
    · exact ⟨List.mem_cons_self, List.mem_cons_of_mem _ List.mem_cons_self⟩
    · obtain ⟨h1, h2⟩ := mem_pairsOf h
      exact ⟨List.mem_cons_of_mem _ (List.mem_cons_of_mem _ h1), List.mem_cons_of_mem _ (List.mem_cons_of_mem _ h2)⟩

end ReadColumnNumbers
end Cc
