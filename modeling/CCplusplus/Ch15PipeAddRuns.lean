import CCplusplus.Ch15PipeAdd
import Mathlib.Data.List.TakeWhile
/-!
# Ch15PipeAddRuns — the answers that `ch15_pipe_add` prints

As long as every line goes through as one string that `ch15_add` answers, at most one of the pipes holds anything, one
line or one answer (`Inv`).  A line that begins with a NUL writes nothing, and both processes wait; a line that `fgets`
cuts gets an answer for each piece.
-/
namespace Cc
namespace Ch15PipeAdd

open CLib

/-! ## Strings and answers -/

theorem cString_cString (line : List UInt8) : cString (cString line) = cString line := List.takeWhile_idem

theorem cString_of_clean {line : List UInt8} (h : ∀ c ∈ line, c ≠ 0) : cString line = line :=
  List.takeWhile_eq_self_iff.2 (fun c hc => bne_iff_ne.2 (h c hc))

theorem length_cString_le (line : List UInt8) : (cString line).length ≤ line.length :=
  (List.takeWhile_sublist _).length_le

theorem cString_eq_nil {line : List UInt8} (hne : line ≠ []) : cString line = [] ↔ line.head? = some 0 := by
  cases line with
  | nil => exact absurd rfl hne
  | cons c line =>
    unfold cString
    rw [List.takeWhile_cons, List.head?_cons, Option.some.injEq]
    by_cases hc : c = 0
    · simp [hc]
    · simp [hc]

theorem add_eq (line : List UInt8) : add line = if fits line then .ok (answer line) else .error .overflow := by
  unfold add fits answer
  cases scanInt (cString line) with
  | none => rfl
  | some p =>
    obtain ⟨x, rest⟩ := p
    cases hx : isInt x with
    | false => simp [hx]
    | true =>
      cases hr : scanInt rest with
      | none => simp [hx, hr]
      | some q => simp [hx, hr]

theorem answer_cString (line : List UInt8) : answer (cString line) = answer line := by
  unfold answer
  rw [cString_cString]

theorem fits_cString (line : List UInt8) : fits (cString line) = fits line := by
  unfold fits
  rw [cString_cString]

theorem decimal_clean (x : Int) : ∀ c ∈ decimal x, c ≠ 0 := by
  have hdigits : ∀ c ∈ (Nat.toDigits 10 x.natAbs).map (fun c => UInt8.ofNat c.toNat), c ≠ 0 := by
    intro c hc
    obtain ⟨d, hd, rfl⟩ := List.mem_map.1 hc
    have hdigit := Nat.isDigit_of_mem_toDigits (by decide) (by decide) hd
    rw [Char.isDigit_iff_toNat] at hdigit
    obtain ⟨hlow, hhigh⟩ := hdigit
    change 48 ≤ d.toNat at hlow
    change d.toNat ≤ 57 at hhigh
    intro h
    have hnat := congrArg UInt8.toNat h
    rw [UInt8.toNat_ofNat_of_lt' (show d.toNat < 256 by omega)] at hnat
    change d.toNat = 0 at hnat
    omega
  intro c hc
  unfold decimal at hc
  dsimp only at hc
  split at hc
  · rcases List.mem_cons.1 hc with rfl | hc
    · decide
    · exact hdigits c hc
  · exact hdigits c hc

theorem length_decimal {x : Int} (h : isInt x = true) : (decimal x).length ≤ 11 := by
  have hdigits : ((Nat.toDigits 10 x.natAbs).map (fun c => UInt8.ofNat c.toNat)).length ≤ 10 := by
    rw [List.length_map, Nat.length_toDigits_le_iff (by decide) (by decide)]
    unfold isInt INT_MAX at h
    simp only [Bool.and_eq_true, decide_eq_true_eq] at h
    omega
  unfold decimal
  dsimp only
  split
  · rw [List.length_cons]
    omega
  · omega

theorem answer_cases (line : List UInt8) : answer line = invalidArgs ∨ ∃ x, answer line = decimal x ++ [10] ∧
    (fits line = true → isInt x = true) := by
  unfold answer fits
  cases scanInt (cString line) with
  | none => exact .inl rfl
  | some p =>
    obtain ⟨x, rest⟩ := p
    cases hr : scanInt rest with
    | none => exact .inl (by simp [hr])
    | some q => exact .inr ⟨x + q.1, by simp [hr], fun h => by simp_all⟩

theorem answer_clean (line : List UInt8) : ∀ c ∈ answer line, c ≠ 0 := by
  rcases answer_cases line with h | ⟨x, h, -⟩
  · rw [h]
    have hall : invalidArgs.all (· != 0) = true := rfl
    exact fun c hc => bne_iff_ne.1 (List.all_eq_true.1 hall c hc)
  · rw [h]
    intro c hc
    rcases List.mem_append.1 hc with hc | hc
    · exact decimal_clean x c hc
    · rw [List.mem_singleton.1 hc]
      decide

theorem answer_ne_nil (line : List UInt8) : answer line ≠ [] := by
  rcases answer_cases line with h | ⟨x, h, -⟩
  · rw [h]
    decide
  · rw [h]
    simp

theorem length_answer {line : List UInt8} (hf : fits line = true) : (answer line).length < MAXLINE := by
  unfold MAXLINE
  rcases answer_cases line with h | ⟨x, h, hx⟩
  · rw [h]
    decide
  · have := length_decimal (hx hf)
    rw [h, List.length_append, List.length_singleton]
    omega

/-! ## The invariant -/

/-- A line that goes through as one string, which `ch15_add` answers. -/
structure Sound (line : List UInt8) : Prop where
  short : line.length < MAXLINE
  some_byte : cString line ≠ []
  fits : fits line = true

/-- Nothing is on its way. -/
structure Quiet (s : State) : Prop where
  fd1 : s.fd1 = []
  fd2 : s.fd2 = []
  child : s.child = .read ∨ s.child.hasEnded = true

/-- Where `line` or its answer is while the parent waits for it. -/
inductive Asked (s : State) (line : List UInt8) : Prop where
  | sent (fd1 : s.fd1 = cString line) (fd2 : s.fd2 = []) (child : s.child = .read)
  | read (fd1 : s.fd1 = []) (fd2 : s.fd2 = []) (child : s.child = .write (answer line))
  | answered (fd1 : s.fd1 = []) (fd2 : s.fd2 = answer line) (child : s.child = .read ∨ s.child.hasEnded = true)
  | lost (fd2 : s.fd2 = []) (child : s.child.hasEnded = true)

/-- The lines still to be answered are `rest`. -/
def Stage (s : State) (rest : List (List UInt8)) : Prop :=
  match s.parent with
  | .fgets => linesOf 10 s.stdin = rest ∧ Quiet s
  | .write line => line :: linesOf 10 s.stdin = rest ∧ Quiet s
  | .read => ∃ line, line :: linesOf 10 s.stdin = rest ∧ Asked s line
  | .fputs text => ∃ line, line :: linesOf 10 s.stdin = rest ∧ text = answer line ∧ Quiet s
  | .ended e => (e = .eof → rest = []) ∧ ∀ f, e ≠ .fault f

structure Inv (lines : List (List UInt8)) (s : State) : Prop where
  stage : ∃ rest, lines.map answer = s.printed ++ rest.map answer ∧ (∀ line ∈ rest, Sound line) ∧ Stage s rest
  defined : ∀ f, s.child ≠ .ended (.fault f)
  sent : s.fd1 = [] ∨ ∃ line, Sound line ∧ s.fd1 = cString line

theorem Sound.take {line : List UInt8} (h : Sound line) : (cString line).take MAXLINE = cString line :=
  List.take_of_length_le (Nat.le_of_lt (Nat.lt_of_le_of_lt (length_cString_le line) h.short))

theorem Sound.add_eq {line : List UInt8} (h : Sound line) : add (cString line) = .ok (answer line) := by
  rw [Ch15PipeAdd.add_eq, fits_cString, h.fits, answer_cString]
  rfl

/-- `ch15_add` reads a line that was sent whole. -/
theorem childStep_sent {s : State} {line : List UInt8} (h : Sound line) (hpc : s.child = .read)
    (hfd : s.fd1 = cString line) : childStep s false = some { s with fd1 := [], child := .write (answer line) } := by
  have hlen : (cString line).length < MAXLINE := Nat.lt_of_le_of_lt (length_cString_le line) h.short
  unfold childStep
  rw [hpc]
  dsimp only
  rw [hfd, h.take, if_neg (by simp), if_neg h.some_byte, if_neg (Nat.ne_of_lt hlen), h.add_eq,
    List.drop_eq_nil_of_le (Nat.le_of_lt hlen)]

/-- The parent reads an answer whole. -/
theorem parentStep_answered {s : State} {line : List UInt8} (hf : fits line = true) (hpc : s.parent = .read)
    (hfd : s.fd2 = answer line) : parentStep s false = some { s with fd2 := [], parent := .fputs (answer line) } := by
  have hlen := length_answer hf
  unfold parentStep
  rw [hpc]
  dsimp only
  rw [hfd, List.take_of_length_le (Nat.le_of_lt hlen), if_neg (by simp), if_neg (answer_ne_nil line),
    if_neg (Nat.ne_of_lt hlen), List.drop_eq_nil_of_le (Nat.le_of_lt hlen)]

theorem inv_start {stdin : List UInt8} (h : ∀ line ∈ linesOf 10 stdin, Sound line) :
    Inv (linesOf 10 stdin) (start stdin) :=
  ⟨⟨linesOf 10 stdin, rfl, h, rfl, rfl, rfl, .inl rfl⟩, fun f hf => (by cases hf), .inl rfl⟩

section Parent

variable {lines : List (List UInt8)} {s : State}

/-- The parent ends before the end of its input. -/
theorem Inv.parentEnds (h : Inv lines s) {e : Ending} (he : e ≠ .eof) (hf : ∀ f, e ≠ .fault f) :
    Inv lines { s with parent := .ended e } := by
  obtain ⟨rest, htexts, hsound, -⟩ := h.stage
  exact ⟨⟨rest, htexts, hsound, fun heof => absurd heof he, hf⟩, h.defined, h.sent⟩

theorem Inv.fgets (h : Inv lines s) (hpc : s.parent = .fgets) {fails : Bool} {s' : State}
    (hstep : parentStep s fails = some s') : Inv lines s' := by
  obtain ⟨rest, htexts, hsound, hstage⟩ := h.stage
  unfold Stage at hstage
  rw [hpc] at hstage
  obtain ⟨hlines, hquiet⟩ := hstage
  unfold parentStep at hstep
  rw [hpc] at hstep
  dsimp only at hstep
  split at hstep
  · cases hstep
    exact h.parentEnds (by simp) (by simp)
  · split at hstep
    · rename_i hempty
      cases hstep
      refine ⟨⟨rest, htexts, hsound, fun _ => ?_, by simp⟩, h.defined, h.sent⟩
      rw [← hlines, hempty]
      rfl
    · rename_i hne
      cases hstep
      cases rest with
      | nil => exact absurd (linesOf_eq_nil 10 hlines) hne
      | cons line rest =>
        have hshort := (hsound line List.mem_cons_self).short
        obtain ⟨hfirst, hrest⟩ := fgets_first 10 hlines (Nat.le_sub_one_of_lt hshort)
        refine ⟨⟨line :: rest, htexts, hsound, ?_, ?_⟩, h.defined, h.sent⟩
        · rw [hfirst, hrest]
        · exact ⟨hquiet.fd1, hquiet.fd2, hquiet.child⟩

theorem Inv.write (h : Inv lines s) {line : List UInt8} (hpc : s.parent = .write line) {fails : Bool} {s' : State}
    (hstep : parentStep s fails = some s') : Inv lines s' := by
  obtain ⟨rest, htexts, hsound, hstage⟩ := h.stage
  unfold Stage at hstage
  rw [hpc] at hstage
  obtain ⟨hlines, hquiet⟩ := hstage
  have hline : Sound line := hsound line (hlines ▸ List.mem_cons_self)
  have hfd : s.fd1 ++ cString line = cString line := by rw [hquiet.fd1, List.nil_append]
  unfold parentStep at hstep
  rw [hpc] at hstep
  dsimp only at hstep
  split at hstep
  · cases hstep
    exact h.parentEnds (by simp) (by simp)
  · split at hstep
    · cases hstep
      exact h.parentEnds (by simp) (by simp)
    · cases hstep
      refine ⟨⟨rest, htexts, hsound, line, hlines, ?_⟩, h.defined, .inr ⟨line, hline, hfd⟩⟩
      rcases hquiet.child with hread | hended
      · exact .sent hfd hquiet.fd2 hread
      · exact .lost hquiet.fd2 hended

theorem Inv.read (h : Inv lines s) (hpc : s.parent = .read) {fails : Bool} {s' : State}
    (hstep : parentStep s fails = some s') : Inv lines s' := by
  obtain ⟨rest, htexts, hsound, hstage⟩ := h.stage
  unfold Stage at hstage
  rw [hpc] at hstage
  obtain ⟨line, hlines, hasked⟩ := hstage
  have hline : Sound line := hsound line (hlines ▸ List.mem_cons_self)
  -- the parent waits, unless the child has ended
  have hempty : s.fd2 = [] → Inv lines s' := fun hfd => by
    unfold parentStep at hstep
    rw [hpc] at hstep
    dsimp only at hstep
    split at hstep
    · cases hstep
      exact h.parentEnds (by simp) (by simp)
    · split at hstep
      · cases hstep
        exact h.parentEnds (by simp) (by simp)
      · cases hstep
  cases hasked with
  | sent _ hfd => exact hempty hfd
  | read _ hfd => exact hempty hfd
  | lost hfd => exact hempty hfd
  | answered hfd1 hfd2 hchild =>
    cases fails with
    | true =>
      unfold parentStep at hstep
      rw [hpc] at hstep
      cases hstep
      exact h.parentEnds (by simp) (by simp)
    | false =>
      rw [parentStep_answered hline.fits hpc hfd2] at hstep
      cases hstep
      exact ⟨⟨rest, htexts, hsound, line, hlines, rfl, hfd1, rfl, hchild⟩, h.defined, h.sent⟩

theorem Inv.fputs (h : Inv lines s) {text : List UInt8} (hpc : s.parent = .fputs text) {fails : Bool} {s' : State}
    (hstep : parentStep s fails = some s') : Inv lines s' := by
  obtain ⟨rest, htexts, hsound, hstage⟩ := h.stage
  unfold Stage at hstage
  rw [hpc] at hstage
  obtain ⟨line, hlines, htext, hquiet⟩ := hstage
  unfold parentStep at hstep
  rw [hpc] at hstep
  dsimp only at hstep
  split at hstep
  · cases hstep
    exact h.parentEnds (by simp) (by simp)
  · cases hstep
    subst hlines
    refine ⟨⟨linesOf 10 s.stdin, ?_, fun l hl => hsound l (List.mem_cons_of_mem _ hl), rfl, hquiet.fd1, hquiet.fd2,
      hquiet.child⟩, h.defined, h.sent⟩
    rw [htexts, htext, cString_of_clean (answer_clean line), List.map_cons, List.append_assoc]
    rfl

theorem Inv.parent (h : Inv lines s) {fails : Bool} {s' : State} (hstep : parentStep s fails = some s') :
    Inv lines s' := by
  cases hpc : s.parent with
  | fgets => exact h.fgets hpc hstep
  | write line => exact h.write hpc hstep
  | read => exact h.read hpc hstep
  | fputs text => exact h.fputs hpc hstep
  | ended e =>
    unfold parentStep at hstep
    rw [hpc] at hstep
    cases hstep

end Parent

section Child

variable {lines : List (List UInt8)} {s : State}

/-- What a step of the child leaves alone. -/
structure SameParent (s s' : State) : Prop where
  parent : s'.parent = s.parent
  stdin : s'.stdin = s.stdin
  printed : s'.printed = s.printed

/-- A child that waits for a line: it ends, or it reads one that was sent. -/
theorem childStep_read (hsent : s.fd1 = [] ∨ ∃ line, Sound line ∧ s.fd1 = cString line) (hpc : s.child = .read)
    {fails : Bool} {s' : State} (hstep : childStep s fails = some s') :
    s' = { s with child := .ended .eof } ∨
      ∃ line, Sound line ∧ s.fd1 = cString line ∧ s' = { s with fd1 := [], child := .write (answer line) } := by
  cases fails with
  | true =>
    unfold childStep at hstep
    rw [hpc] at hstep
    cases hstep
    exact .inl rfl
  | false =>
    rcases hsent with hempty | ⟨line, hline, hfd⟩
    · unfold childStep at hstep
      rw [hpc] at hstep
      simp only [hempty, Bool.false_eq_true, if_false, if_true] at hstep
      split at hstep
      · cases hstep
        exact .inl rfl
      · cases hstep
    · rw [childStep_sent hline hpc hfd] at hstep
      cases hstep
      exact .inr ⟨line, hline, hfd, rfl⟩

/-- A child that has an answer: it ends, or writes it. -/
theorem childStep_write {text : List UInt8} (hpc : s.child = .write text) {fails : Bool} {s' : State}
    (hstep : childStep s fails = some s') :
    (∃ e, (∀ f, e ≠ .fault f) ∧ s' = { s with child := .ended e }) ∨
      s.parent.hasEnded = false ∧ s' = { s with fd2 := s.fd2 ++ text, child := .read } := by
  unfold childStep at hstep
  rw [hpc] at hstep
  dsimp only at hstep
  split at hstep
  · cases hstep
    exact .inl ⟨_, by simp, rfl⟩
  · split at hstep
    · cases hstep
      exact .inl ⟨_, by simp, rfl⟩
    · rename_i hended
      cases hstep
      exact .inr ⟨Bool.eq_false_iff.2 hended, rfl⟩

theorem childStep_ended (hended : s.child.hasEnded = true) {fails : Bool} : childStep s fails = none := by
  unfold childStep
  cases hpc : s.child with
  | read =>
    rw [hpc] at hended
    cases hended
  | write text =>
    rw [hpc] at hended
    cases hended
  | ended e => rfl

theorem Quiet.child_step (h : Quiet s) {fails : Bool} {s' : State} (hstep : childStep s fails = some s') :
    Quiet s' := by
  rcases h.child with hread | hended
  · rcases childStep_read (.inl h.fd1) hread hstep with rfl | ⟨line, hline, hfd, -⟩
    · exact ⟨h.fd1, h.fd2, .inr rfl⟩
    · exact absurd (hfd.symm.trans h.fd1) hline.some_byte
  · rw [childStep_ended hended] at hstep
    cases hstep

theorem Asked.child_step {line : List UInt8} (h : Asked s line) (hline : Sound line) {fails : Bool} {s' : State}
    (hstep : childStep s fails = some s') : Asked s' line := by
  cases h with
  | sent hfd1 hfd2 hchild =>
    rcases childStep_read (.inr ⟨line, hline, hfd1⟩) hchild hstep with rfl | ⟨line', -, hfd, rfl⟩
    · exact .lost hfd2 rfl
    · refine .read rfl hfd2 ?_
      rw [← answer_cString line', ← hfd, hfd1, answer_cString]
  | read hfd1 hfd2 hchild =>
    rcases childStep_write hchild hstep with ⟨e, -, rfl⟩ | ⟨-, rfl⟩
    · exact .lost hfd2 rfl
    · refine .answered hfd1 ?_ (.inl rfl)
      rw [hfd2]
      rfl
  | answered hfd1 hfd2 hchild =>
    rcases hchild with hread | hended
    · rcases childStep_read (.inl hfd1) hread hstep with rfl | ⟨line', hline', hfd, -⟩
      · exact .answered hfd1 hfd2 (.inr rfl)
      · exact absurd (hfd.symm.trans hfd1) hline'.some_byte
    · rw [childStep_ended hended] at hstep
      cases hstep
  | lost hfd2 hended =>
    rw [childStep_ended hended] at hstep
    cases hstep

/-- What a step of the child leaves, whatever the parent is at. -/
theorem Inv.child_leaves (h : Inv lines s) {fails : Bool} {s' : State} (hstep : childStep s fails = some s') :
    SameParent s s' ∧ (∀ f, s'.child ≠ .ended (.fault f)) ∧
      (s'.fd1 = [] ∨ ∃ line, Sound line ∧ s'.fd1 = cString line) := by
  cases hpc : s.child with
  | read =>
    rcases childStep_read h.sent hpc hstep with rfl | ⟨line, -, -, rfl⟩
    · exact ⟨⟨rfl, rfl, rfl⟩, by simp, h.sent⟩
    · exact ⟨⟨rfl, rfl, rfl⟩, by simp, .inl rfl⟩
  | write text =>
    rcases childStep_write hpc hstep with ⟨e, he, rfl⟩ | ⟨-, rfl⟩
    · exact ⟨⟨rfl, rfl, rfl⟩, fun f hf => he f (by cases hf; rfl), h.sent⟩
    · exact ⟨⟨rfl, rfl, rfl⟩, by simp, h.sent⟩
  | ended e =>
    rw [childStep_ended (by rw [hpc]; rfl)] at hstep
    cases hstep

theorem Inv.child (h : Inv lines s) {fails : Bool} {s' : State} (hstep : childStep s fails = some s') :
    Inv lines s' := by
  obtain ⟨⟨hparent, hstdin, hprinted⟩, hdefined, hsent⟩ := h.child_leaves hstep
  obtain ⟨rest, htexts, hsound, hstage⟩ := h.stage
  refine ⟨⟨rest, hprinted ▸ htexts, hsound, ?_⟩, hdefined, hsent⟩
  unfold Stage at hstage ⊢
  rw [hparent]
  rw [hstdin]
  cases hpc : s.parent with
  | fgets =>
    rw [hpc] at hstage
    exact ⟨hstage.1, hstage.2.child_step hstep⟩
  | write line =>
    rw [hpc] at hstage
    exact ⟨hstage.1, hstage.2.child_step hstep⟩
  | read =>
    rw [hpc] at hstage
    obtain ⟨line, hlines, hasked⟩ := hstage
    exact ⟨line, hlines, hasked.child_step (hsound line (hlines ▸ List.mem_cons_self)) hstep⟩
  | fputs text =>
    rw [hpc] at hstage
    obtain ⟨line, hlines, htext, hquiet⟩ := hstage
    exact ⟨line, hlines, htext, hquiet.child_step hstep⟩
  | ended e =>
    rw [hpc] at hstage
    exact hstage

end Child

theorem step_inv (lines : List (List UInt8)) (s : State) (a : Action) (s' : State) (h : Inv lines s)
    (hstep : step s a = some s') : Inv lines s' := by
  cases a with
  | parent fails => exact h.parent hstep
  | child fails => exact h.child hstep

theorem Inv.inStep {lines : List (List UInt8)} {s : State} (h : Inv lines s) : InStep lines s := by
  obtain ⟨rest, htexts, hsound, hstage⟩ := h.stage
  unfold Stage at hstage
  refine ⟨⟨rest.map answer, htexts⟩, fun hpc => ?_, ?_, fun f hpc => ?_, h.defined⟩
  · rw [hpc] at hstage
    rw [htexts, hstage.1 rfl, List.map_nil, List.append_nil]
  · rintro ⟨hpc, hfd2, hread, hfd1⟩
    rw [hpc] at hstage
    obtain ⟨line, hlines, hasked⟩ := hstage
    have hline := hsound line (hlines ▸ List.mem_cons_self)
    cases hasked with
    | sent hfd => exact hline.some_byte (hfd.symm.trans hfd1)
    | read _ _ hchild =>
      rw [hread] at hchild
      cases hchild
    | answered _ hfd => exact answer_ne_nil line (hfd.symm.trans hfd2)
    | lost _ hended =>
      rw [hread] at hended
      cases hended
  · rw [hpc] at hstage
    exact hstage.2 f rfl

/-! ## Runs in which every call succeeds -/

/-- Both processes are at the head of their loops. -/
def ready (stdin : List UInt8) (printed : List (List UInt8)) : State := ⟨stdin, .fgets, .read, [], [], printed⟩

/-- A state from which no more answers come. -/
def Spoilt (s : State) : Prop := Deadlocked s ∨ ∃ f, s.child = .ended (.fault f)

variable {stdin : List UInt8} (printed : List (List UInt8))

/-- The parent sends a piece. -/
theorem sends (h : stdin ≠ []) : Reach step (ready stdin printed)
    ⟨(fgets 10 (MAXLINE - 1) stdin).2, .read, .read, cString (fgets 10 (MAXLINE - 1) stdin).1, [], printed⟩ := by
  refine Reach.trans (.of_step (a := .parent false) (t := ⟨(fgets 10 (MAXLINE - 1) stdin).2,
    .write (fgets 10 (MAXLINE - 1) stdin).1, .read, [], [], printed⟩) ?_) (.of_step (a := .parent false) ?_)
  · show parentStep (ready stdin printed) false = _
    unfold parentStep ready
    dsimp only
    rw [if_neg (by simp), if_neg h]
  · rw [← List.nil_append (cString _)]
    unfold step parentStep
    dsimp only
    rw [if_neg (by simp), if_neg (by simp [ChildPc.hasEnded])]

/-- A piece that is sent whole is answered. -/
theorem answers {line : List UInt8} (h : Sound line) :
    Reach step ⟨stdin, .read, .read, cString line, [], printed⟩ (ready stdin (printed ++ [answer line])) := by
  have hread := childStep_sent (s := ⟨stdin, .read, .read, cString line, [], printed⟩) h rfl rfl
  have hanswer : childStep ⟨stdin, .read, .write (answer line), [], [], printed⟩ false =
      some ⟨stdin, .read, .read, [], answer line, printed⟩ := rfl
  have hback := parentStep_answered (s := ⟨stdin, .read, .read, [], answer line, printed⟩) h.fits rfl rfl
  have hprint : step ⟨stdin, .fputs (answer line), .read, [], [], printed⟩ (.parent false) =
      some (ready stdin (printed ++ [answer line])) := by
    conv => rhs; rw [← cString_of_clean (answer_clean line)]
    rfl
  exact (Reach.of_step (a := .child false) hread).trans ((Reach.of_step (a := .child false) hanswer).trans
    ((Reach.of_step (a := .parent false) hback).trans (.of_step hprint)))

/-- **A turn of the loops**: the piece is answered, or no more answers come. -/
theorem turn (h : stdin ≠ []) : (∃ t, Reach step (ready stdin printed) t ∧ Spoilt t) ∨
    Sound (fgets 10 (MAXLINE - 1) stdin).1 ∧
      Reach step (ready stdin printed)
        (ready (fgets 10 (MAXLINE - 1) stdin).2 (printed ++ [answer (fgets 10 (MAXLINE - 1) stdin).1])) := by
  have hsends := sends printed h
  have hle := length_fgets_le (10 : UInt8) (MAXLINE - 1) stdin
  generalize (fgets 10 (MAXLINE - 1) stdin).1 = line at hsends hle ⊢
  generalize (fgets 10 (MAXLINE - 1) stdin).2 = rest at hsends ⊢
  have hshort : line.length < MAXLINE := Nat.lt_of_le_of_lt hle (by decide)
  have hlen : (cString line).length < MAXLINE := Nat.lt_of_le_of_lt (length_cString_le line) hshort
  by_cases hempty : cString line = []
  · exact .inl ⟨_, hsends, .inl ⟨rfl, rfl, rfl, hempty⟩⟩
  · cases hfits : fits line with
    | true =>
      have hsound : Sound line := ⟨hshort, hempty, hfits⟩
      exact .inr ⟨hsound, hsends.trans (answers printed hsound)⟩
    | false =>
      have hfault : childStep ⟨rest, .read, .read, cString line, [], printed⟩ false =
          some ⟨rest, .read, .ended (.fault .overflow), cString line, [], printed⟩ := by
        unfold childStep
        dsimp only
        rw [if_neg (by simp), if_neg hempty, List.take_of_length_le (Nat.le_of_lt hlen), if_neg (Nat.ne_of_lt hlen),
          add_eq, fits_cString, hfits]
        rfl
      exact .inl ⟨_, hsends.trans (.of_step (a := .child false) hfault), .inr ⟨_, rfl⟩⟩

/-- **All of the input**: no more answers come at some point, or there is an answer for each piece, so as many as lines
only if every line is one. -/
theorem plays : ∀ (n : Nat) (stdin : List UInt8) (printed : List (List UInt8)), stdin.length ≤ n →
    (∃ t, Reach step (ready stdin printed) t ∧ Spoilt t) ∨
      ∃ texts, Reach step (ready stdin printed) { ready [] (printed ++ texts) with parent := .ended .eof } ∧
        (linesOf 10 stdin).length ≤ texts.length ∧
        (texts.length = (linesOf 10 stdin).length → ∀ line ∈ linesOf 10 stdin, Sound line)
  | n, [], printed, _ => by
    refine .inr ⟨[], .of_step (a := .parent false) ?_, Nat.le_refl _, fun _ line hl => (by cases hl)⟩
    rw [List.append_nil]
    rfl
  | 0, c :: stdin, _, hn => absurd hn (Nat.not_succ_le_zero _)
  | n + 1, c :: stdin, printed, hn => by
    have hne : c :: stdin ≠ [] := List.cons_ne_nil c stdin
    have hrest := length_fgets_rest 10 (n := MAXLINE - 1) (by decide) hne
    have hlines := linesOf_fgets 10 (MAXLINE - 1) (c :: stdin) hne
    rcases turn printed hne with hspoilt | ⟨hsound, hreach⟩
    · exact .inl hspoilt
    · generalize (fgets 10 (MAXLINE - 1) (c :: stdin)).1 = line at hlines hsound hreach
      generalize (fgets 10 (MAXLINE - 1) (c :: stdin)).2 = rest at hrest hlines hreach
      rcases plays n rest (printed ++ [answer line]) (by omega) with ⟨t, ht, hspoilt⟩ | ⟨texts, ht, hle, hall⟩
      · exact .inl ⟨t, hreach.trans ht, hspoilt⟩
      · rw [List.append_assoc] at ht
        refine .inr ⟨answer line :: texts, hreach.trans ht, ?_, fun hlen => ?_⟩
        · rcases hlines with h | ⟨-, more, lines, hmore, h⟩
          · rw [h, List.length_cons, List.length_cons]
            omega
          · rw [hmore, List.length_cons] at hle
            rw [h, List.length_cons, List.length_cons]
            omega
        · rw [List.length_cons] at hlen
          rcases hlines with h | ⟨-, more, lines, hmore, h⟩
          · rw [h, List.length_cons] at hlen
            rw [h]
            intro l hl
            rcases List.mem_cons.1 hl with rfl | hl
            · exact hsound
            · exact hall (by omega) l hl
          · -- a piece too many
            rw [hmore, List.length_cons] at hle
            rw [h, List.length_cons] at hlen
            omega

/-- **Every line gets its answer** in every order of steps exactly when each is at most `MAXLINE - 1` bytes long, does
not begin with a NUL and has integers that are `int`s, with their sum. -/
theorem answers_in_step_iff (stdin : List UInt8) :
    (∀ as s, run step as (start stdin) = some s → InStep (linesOf 10 stdin) s) ↔
      ∀ line ∈ linesOf 10 stdin, line.length < MAXLINE ∧ line.head? ≠ some 0 ∧ fits line = true := by
  constructor
  · intro hall line hline
    have hsound : Sound line := by
      rcases plays stdin.length stdin [] (Nat.le_refl _) with ⟨t, ⟨as, ht⟩, hspoilt⟩ | ⟨texts, ⟨as, ht⟩, hle, hlines⟩
      · rcases hspoilt with hdead | ⟨f, hf⟩
        · exact absurd hdead (hall as t ht).free
        · exact absurd hf ((hall as t ht).defined.2 f)
      · have hwhole : texts = (linesOf 10 stdin).map answer := (hall as _ ht).whole rfl
        refine hlines ?_ line hline
        rw [hwhole, List.length_map]
    have hne := ne_nil_of_mem_linesOf 10 stdin line hline
    exact ⟨hsound.short, fun h0 => hsound.some_byte ((cString_eq_nil hne).2 h0), hsound.fits⟩
  · intro hlines as s hrun
    have hsound : ∀ line ∈ linesOf 10 stdin, Sound line := fun line hl =>
      have hne := ne_nil_of_mem_linesOf 10 stdin line hl
      ⟨(hlines line hl).1, fun h => (hlines line hl).2.1 ((cString_eq_nil hne).1 h), (hlines line hl).2.2⟩
    exact (run_inv (Inv (linesOf 10 stdin)) (step_inv (linesOf 10 stdin)) as (start stdin) s (inv_start hsound)
      hrun).inStep

/-- **A line that begins with a NUL**: nothing is written, and both processes wait. -/
theorem answers_stuck : ∃ as s, run step as (start [0, 10]) = some s ∧ Deadlocked s :=
  ⟨[.parent false, .parent false], _, rfl, rfl, rfl, rfl, rfl⟩

end Ch15PipeAdd
end Cc
