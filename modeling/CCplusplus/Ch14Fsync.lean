import CCplusplus.Ch14Async
/-!
# Ch14Fsync — `apue/ch14/ch14_fsync.c`

The filter reads a block, translates it in place and writes it.  An action is the return of `read` or of `write` with its
result; a `read` of a regular file takes as many bytes as it likes, up to the block's size, and none at the end.  The
files are open where the model starts.

`translate` moves every letter as ROT13 does, but `n`: it tests for the letters above `n`, and `n` is moved up, to `\x7b`.
So the filter is ROT13, and is undone by a second run, exactly on the files without `n` and without `a`
(`rot13_filter_iff`).
-/
namespace Cc
namespace Ch14Fsync

open CLib

def BSZ : Nat := 4096

/-- In the C locale. -/
def isalpha (c : UInt8) : Bool :=
  decide (0x41 ≤ c) && decide (c ≤ 0x5A) || decide (0x61 ≤ c) && decide (c ≤ 0x7A)

def translate (c : UInt8) : UInt8 :=
  if isalpha c then
    if c > 0x6E then c - 13
    else if c ≥ 0x61 then c + 13
    else if c ≥ 0x4E then c - 13
    else c + 13
  else c

inductive Ending where
  | exit (status : Int)
  | errSys (msg : String)
  | errQuit (msg : String) (nw n : Int)
deriving DecidableEq, Repr

inductive Pc where
  | read
  /-- `n` bytes of the buffer have been translated -/
  | write (n : Nat)
  | ended (e : Ending)
deriving DecidableEq, Repr

structure State where
  pc : Pc
  /-- the position in the input file -/
  off : Nat
  buf : Nat → UInt8
  /-- the output file -/
  out : List UInt8

def init : State := ⟨.read, 0, fun _ => 0, []⟩

inductive Act where
  | read (n : Int)
  | write (nw : Int)

/-- The bytes that `read` has put into the buffer, and behind them what it held. -/
def fill (buf : Nat → UInt8) (bytes : List UInt8) : Nat → UInt8 := fun j => (bytes[j]?).getD (buf j)

/-- `for (i = 0; i < n; i++)`, from `i` on, with `n` turns left. -/
def translateFrom : Nat → Nat → (Nat → UInt8) → Nat → UInt8
  | 0, _, buf => buf
  | n + 1, i, buf => translateFrom n (i + 1) (Function.update buf i (translate (buf i)))

def first (n : Nat) (buf : Nat → UInt8) : List UInt8 := (List.range n).map buf

def step (file : List UInt8) (s : State) : Act → Option State
  | .read n =>
    if s.pc = .read then
      if n > 0 then
        if n ≤ BSZ ∧ s.off + n ≤ file.length then
          some { s with
            pc := .write n.toNat
            off := s.off + n.toNat
            buf := translateFrom n.toNat 0 (fill s.buf ((file.drop s.off).take n.toNat)) }
        else none
      -- at the end of the file, or failed; then `fsync`
      else if n < 0 ∨ file.length ≤ s.off then some { s with pc := .ended (.exit 0) }
      else none
    else none
  | .write nw =>
    match s.pc with
    | .write n =>
      if nw = n then some { s with pc := .read, out := s.out ++ first n s.buf }
      else if nw < 0 then some { s with pc := .ended (.errSys "write failed") }
      else if nw < n then
        some { s with pc := .ended (.errQuit "short write" nw n), out := s.out ++ first nw.toNat s.buf }
      else none
    | _ => none

/-- No call fails, and a `write` transfers all bytes. -/
def works (s : State) : Act → Bool
  | .read n => decide (0 ≤ n)
  | .write nw => s.pc == .write nw.toNat && decide (0 ≤ nw)

/-- However `read` splits the file, the filter ends, with this output. -/
def Outputs (file out : List UInt8) : Prop :=
  Inevitably (restrict works (step file)) (fun s => s.pc = .ended (.exit 0) ∧ s.out = out) init

/-! ## `translate` and ROT13 -/

/-- A letter 13 places on, within its case. -/
def rot13 (c : UInt8) : UInt8 :=
  if 0x41 ≤ c ∧ c ≤ 0x5A then 0x41 + (c - 0x41 + 13) % 26
  else if 0x61 ≤ c ∧ c ≤ 0x7A then 0x61 + (c - 0x61 + 13) % 26
  else c

/-- A property of every byte, tried on each. -/
theorem forall_byte {P : UInt8 → Prop} (h : ∀ n : Fin 256, P (UInt8.ofFin n)) (c : UInt8) : P c := h c.toFin

theorem rot13_rot13 (c : UInt8) : rot13 (rot13 c) = c :=
  forall_byte (P := fun c => rot13 (rot13 c) = c) (by decide +kernel) c

theorem translate_iff (c : UInt8) : translate c = rot13 c ↔ c ≠ 0x6E :=
  forall_byte (P := fun c => translate c = rot13 c ↔ c ≠ 0x6E) (by decide +kernel) c

theorem rot13_eq_n (c : UInt8) : rot13 c = 0x6E ↔ c = 0x61 :=
  forall_byte (P := fun c => rot13 c = 0x6E ↔ c = 0x61) (by decide +kernel) c

/-- The copy in `ch14_async.c`. -/
theorem translate_eq_async : translate = Ch14Async.translate := rfl

/-! ## The buffer -/

theorem translateFrom_eq : ∀ (n i : Nat) (buf : Nat → UInt8) (j : Nat),
    translateFrom n i buf j = if i ≤ j ∧ j < i + n then translate (buf j) else buf j
  | 0, i, buf, j => by
    rw [if_neg (by omega)]
    rfl
  | n + 1, i, buf, j => by
    rw [translateFrom, translateFrom_eq n (i + 1)]
    by_cases hij : j = i
    · subst hij
      rw [if_neg (by omega), if_pos (by omega), Function.update_self]
    · rw [Function.update_of_ne hij]
      by_cases hin : i ≤ j ∧ j < i + (n + 1)
      · rw [if_pos hin, if_pos (by omega)]
      · rw [if_neg hin, if_neg (by omega)]

/-- **The bytes read are translated**, each once. -/
theorem first_translated {bytes : List UInt8} {n : Nat} (hn : bytes.length = n) (buf : Nat → UInt8) :
    first n (translateFrom n 0 (fill buf bytes)) = bytes.map translate := by
  refine List.ext_getElem (by simp [first, hn]) (fun j h₁ h₂ => ?_)
  have hj : j < bytes.length := by simpa using h₂
  simp only [first, List.getElem_map, List.getElem_range]
  rw [translateFrom_eq, if_pos (by omega)]
  simp [fill, hj]

/-! ## The run -/

/-- What has been written, and what is translated and not written yet, is the file so far. -/
structure Copied (file : List UInt8) (s : State) : Prop where
  off : s.off ≤ file.length
  out : match s.pc with
    | .read => s.out = (file.take s.off).map translate
    | .write n => 0 < n ∧ s.out ++ first n s.buf = (file.take s.off).map translate
    | .ended e => e = .exit 0 ∧ s.out = file.map translate

theorem copied_init (file : List UInt8) : Copied file init := ⟨Nat.zero_le _, rfl⟩

/-- The bytes to come: every step takes some, or writes what it took. -/
def rest (file : List UInt8) (s : State) : Nat :=
  match s.pc with
  | .read => 2 * (file.length - s.off) + 1
  | .write _ => 2 * (file.length - s.off) + 2
  | .ended _ => 0

theorem copied_step {file : List UInt8} {s s' : State} {a : Act} (h : Copied file s)
    (hs : restrict works (step file) s a = some s') : Copied file s' ∧ rest file s' < rest file s := by
  obtain ⟨hok, hs⟩ := restrict_some hs
  have hoff := h.off
  have hout := h.out
  cases a with
  | read n =>
    simp only [works, decide_eq_true_eq] at hok
    simp only [step] at hs
    split at hs
    · rename_i hpc
      rw [hpc] at hout
      split at hs
      · rename_i hpos
        split at hs
        · rename_i hn
          cases hs
          have hlen : ((file.drop s.off).take n.toNat).length = n.toNat := by
            rw [List.length_take, List.length_drop]
            omega
          refine ⟨⟨by simp only; omega, ⟨by omega, ?_⟩⟩, ?_⟩
          · simp only
            rw [first_translated hlen, hout, List.take_add, List.map_append]
          · simp only [rest, hpc]
            omega
        · cases hs
      · rename_i hpos
        split at hs
        · rename_i heof
          cases hs
          have hall : file.take s.off = file := List.take_of_length_le (by omega)
          refine ⟨⟨hoff, rfl, ?_⟩, ?_⟩
          · rw [hall] at hout
            exact hout
          · simp only [rest, hpc]
            omega
        · cases hs
    · cases hs
  | write nw =>
    simp only [works, Bool.and_eq_true, beq_iff_eq, decide_eq_true_eq] at hok
    obtain ⟨hpc, hnw⟩ := hok
    simp only [step, hpc] at hs
    rw [hpc] at hout
    rw [if_pos (by omega)] at hs
    cases hs
    refine ⟨⟨hoff, hout.2⟩, ?_⟩
    simp only [rest, hpc]
    omega

theorem Copied.goes_on {file : List UInt8} {s : State} (h : Copied file s) (hend : ∀ e, s.pc ≠ .ended e) :
    ∃ a s', restrict works (step file) s a = some s' := by
  have hoff := h.off
  cases hpc : s.pc with
  | read =>
    by_cases heof : s.off = file.length
    · refine ⟨.read 0, { s with pc := .ended (.exit 0) }, ?_⟩
      unfold restrict
      rw [if_pos (by rfl)]
      simp only [step, if_pos hpc]
      rw [if_neg (by decide), if_pos (by omega)]
    · have hn : 0 < min BSZ (file.length - s.off) := Nat.lt_min.2 ⟨by decide, by omega⟩
      have hle : min BSZ (file.length - s.off) ≤ file.length - s.off := Nat.min_le_right _ _
      have hblock : min BSZ (file.length - s.off) ≤ BSZ := Nat.min_le_left _ _
      refine ⟨.read (min BSZ (file.length - s.off) : Nat), ?_⟩
      unfold restrict
      rw [if_pos (by simp only [works, decide_eq_true_eq]; omega)]
      simp only [step, if_pos hpc]
      rw [if_pos (by omega), if_pos (by omega)]
      exact ⟨_, rfl⟩
  | write n =>
    refine ⟨.write n, { s with pc := .read, out := s.out ++ first n s.buf }, ?_⟩
    unfold restrict
    rw [if_pos (by simp [works, hpc])]
    simp only [step, hpc, if_true]
  | ended e => exact absurd hpc (hend e)

/-- **However `read` splits the file, the output is the file translated.** -/
theorem outputs_translate (file : List UInt8) : Outputs file (file.map translate) := by
  refine inevitably_of_measure (rest file) (fun s (h : Copied file s) hend => h.goes_on (fun e hpc => ?_))
    (fun s a s' h _ hs => .inr (copied_step h hs)) init (copied_init file)
  have hout := h.out
  rw [hpc] at hout
  exact hend ⟨by rw [hpc, hout.1], hout.2⟩

theorem ended_stuck {file : List UInt8} {s : State} {e : Ending} (hpc : s.pc = .ended e) (a : Act) :
    restrict works (step file) s a = none := by
  cases a with
  | read n => simp [restrict, step, hpc]
  | write nw => simp [restrict, step, hpc]

theorem outputs_iff {file out : List UInt8} : Outputs file out ↔ out = file.map translate := by
  constructor
  · intro h
    obtain ⟨s, hs, hs'⟩ := h.meet (outputs_translate file) (fun s hs a => ended_stuck hs.1 a)
      (fun s hs a => ended_stuck hs.1 a)
    exact hs.2.symm.trans hs'.2
  · rintro rfl
    exact outputs_translate file

/-! ## ROT13 -/

/-- The filter is ROT13 on a file, and a second run undoes it. -/
structure Rot13Filter (file : List UInt8) : Prop where
  ciphers : Outputs file (file.map rot13)
  length : ∀ out, Outputs file out → out.length = file.length
  restores : ∀ out, Outputs file out → Outputs out file

theorem map_rot13_rot13 (file : List UInt8) : (file.map rot13).map rot13 = file := by
  rw [List.map_map]
  exact (List.map_congr_left (fun c _ => rot13_rot13 c)).trans (List.map_id file)

/-- **The first run is ROT13 exactly on the files without `n`.** -/
theorem ciphers_iff (file : List UInt8) : Outputs file (file.map rot13) ↔ 0x6E ∉ file := by
  rw [outputs_iff, List.map_inj_left]
  constructor
  · intro h hn
    exact (translate_iff 0x6E).1 (h 0x6E hn).symm rfl
  · intro h c hc
    exact ((translate_iff c).2 (fun he => h (he ▸ hc))).symm

/-- **The filter is ROT13, and undone by a second run, exactly on the files without `n` and without `a`**: the one letter
that `translate` gets wrong, and the one that becomes it. -/
theorem rot13_filter_iff (file : List UInt8) : Rot13Filter file ↔ 0x6E ∉ file ∧ 0x61 ∉ file := by
  -- the second run is ROT13 of the first one's output
  have hagain := ciphers_iff (file.map rot13)
  rw [map_rot13_rot13] at hagain
  constructor
  · intro h
    have hcoded := hagain.1 (h.restores _ h.ciphers)
    exact ⟨(ciphers_iff file).1 h.ciphers, fun ha => hcoded (List.mem_map.2 ⟨0x61, ha, rfl⟩)⟩
  · rintro ⟨hn, ha⟩
    have hciphers := (ciphers_iff file).2 hn
    refine ⟨hciphers, fun out hout => ?_, fun out hout => ?_⟩
    · rw [outputs_iff.1 hout, List.length_map]
    · rw [outputs_iff.1 hout, ← outputs_iff.1 hciphers]
      refine hagain.2 (fun hmem => ?_)
      obtain ⟨c, hc, he⟩ := List.mem_map.1 hmem
      exact ha ((rot13_eq_n c).1 he ▸ hc)

/-- **A file of one `n`** becomes `\x7b`, which is no letter; ROT13 makes it `a`. -/
theorem rot13_filter_n : Outputs [0x6E] [0x7B] ∧ [0x6E].map rot13 = [0x61] ∧ Outputs [0x7B] [0x7B] ∧
    ¬ Rot13Filter [0x6E] :=
  ⟨outputs_translate [0x6E], rfl, outputs_translate [0x7B], fun h => by
    cases (outputs_iff.1 h.ciphers)⟩

end Ch14Fsync
end Cc
