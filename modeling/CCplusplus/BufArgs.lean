import CCplusplus.Lib.Str
/-!
# BufArgs — `buf_args` of `apue/lib/bufargs.c`

The buffer is cut into its words in place: a NUL takes the place of the white space after each, and the arguments are
where the words are in the buffer.  All but the first: `argv[0]` is the buffer itself, whatever white space it begins with
(`buf_args_words`).
-/
namespace Cc
namespace BufArgs

open CLib.Mem (Clean)

def MAXARGC : Nat := 50

/-- `WHITE`, `" \t\n"` -/
def isWhite (c : UInt8) : Bool := c == 32 || c == 9 || c == 10

/-- A byte of a word. -/
def isWord (c : UInt8) : Bool := !isWhite c && c != 0

/-- `strtok` from an offset on: the offset of the next word, the buffer with a NUL after it, and where to go on.  A word
that ends with the string has its NUL already. -/
def strtok (buf : List UInt8) (save : Nat) : Option (Nat × List UInt8 × Nat) :=
  let ptr := save + ((buf.drop save).takeWhile isWhite).length
  let stop := ptr + ((buf.drop ptr).takeWhile isWord).length
  if stop = ptr then none
  else if buf[stop]?.getD 0 = 0 then some (ptr, buf, stop)
  else some (ptr, buf.set stop 0, stop + 1)

/-- The loop of `buf_args`, with room for so many arguments more. -/
def collect : Nat → List UInt8 → Nat → List Nat → Option (List UInt8 × List Nat)
  | room, buf, save, argv =>
    match strtok buf save with
    | none => some (buf, argv)
    | some (ptr, buf, save) =>
      match room with
      | 0 => none
      | room + 1 => collect room buf save (argv ++ [ptr])

/-- The buffer and the offsets in it that `optfunc` is called with, or `none` for -1. -/
def bufArgs (buf : List UInt8) : Option (List UInt8 × List Nat) :=
  match strtok buf 0 with
  | none => none
  | some (_, buf, save) => collect (MAXARGC - 2) buf save [0]

/-- The string at an offset. -/
def stringAt (buf : List UInt8) (ptr : Nat) : List UInt8 := (buf.drop ptr).takeWhile (fun c => c != 0)

/-- The words of a line. -/
def words (line : List UInt8) : List (List UInt8) := (line.splitOnP isWhite).filter (fun w => !w.isEmpty)

example : (bufArgs [32, 97, 98, 9, 10, 99, 10, 0]).map (fun r => r.2.map (stringAt r.1)) = some [[32, 97, 98], [99]] := by
  decide

/-! ## One word -/

theorem words_white {lead : List UInt8} (hlead : ∀ c ∈ lead, isWhite c = true) (t : List UInt8) :
    words (lead ++ t) = words t := by
  induction lead with
  | nil => rfl
  | cons c lead ih =>
    have hc : isWhite c = true := hlead c List.mem_cons_self
    rw [← ih (fun d hd => hlead d (List.mem_cons_of_mem c hd))]
    unfold words
    rw [List.cons_append, List.splitOnP_cons_eq_if_modifyHead, if_pos hc]
    rfl

theorem words_word {w : List UInt8} (hw : ∀ c ∈ w, isWhite c = false) (hne : w ≠ []) : words w = [w] := by
  unfold words
  rw [List.splitOnP_eq_singleton hw]
  cases w with
  | nil => exact absurd rfl hne
  | cons c w => rfl

theorem words_cons {w t : List UInt8} {c : UInt8} (hw : ∀ c ∈ w, isWhite c = false) (hne : w ≠ [])
    (hc : isWhite c = true) : words (w ++ c :: t) = w :: words t := by
  unfold words
  rw [List.splitOnP_append_cons_of_forall_mem hw c hc t]
  cases w with
  | nil => exact absurd rfl hne
  | cons d w => rfl

/-- What is left of a line: white space only, or white space and a word that ends the line or is followed by white
space. -/
inductive Next : List UInt8 → Prop where
  | done {lead : List UInt8} : (∀ c ∈ lead, isWhite c = true) → Next lead
  | last {lead w : List UInt8} : (∀ c ∈ lead, isWhite c = true) → (∀ c ∈ w, isWord c = true) → w ≠ [] →
      Next (lead ++ w)
  | more {lead w t : List UInt8} {c : UInt8} : (∀ c ∈ lead, isWhite c = true) → (∀ c ∈ w, isWord c = true) → w ≠ [] →
      isWhite c = true → Next (lead ++ w ++ c :: t)

theorem exists_split (p : UInt8 → Bool) : ∀ l : List UInt8, ∃ a b, l = a ++ b ∧ (∀ c ∈ a, p c = true) ∧
    ∀ c r, b = c :: r → p c = false
  | [] => ⟨[], [], rfl, nofun, nofun⟩
  | c :: l => by
    by_cases hc : p c = true
    · obtain ⟨a, b, rfl, ha, hb⟩ := exists_split p l
      exact ⟨c :: a, b, rfl, List.forall_mem_cons.2 ⟨hc, ha⟩, hb⟩
    · refine ⟨[], c :: l, rfl, nofun, fun d r h => ?_⟩
      cases h
      exact Bool.eq_false_iff.2 hc

theorem next_of_clean {line : List UInt8} (hclean : Clean line) : Next line := by
  obtain ⟨lead, rest, rfl, hlead, hrest⟩ := exists_split isWhite line
  obtain ⟨w, after, rfl, hw, hafter⟩ := exists_split isWord rest
  have hwhite : ∀ c r, after = c :: r → isWhite c = true := by
    rintro c r rfl
    have hc := hclean c (by simp)
    have hnot := hafter c r rfl
    simpa [isWord, hc] using hnot
  by_cases hne : w = []
  · subst hne
    cases after with
    | nil =>
      rw [List.append_nil]
      exact .done (by simpa using hlead)
    | cons c r =>
      have hstop := hrest c r rfl
      rw [hwhite c r rfl] at hstop
      cases hstop
  · cases after with
    | nil =>
      rw [List.append_nil]
      exact .last hlead hw hne
    | cons c r =>
      rw [← List.append_assoc]
      exact .more hlead hw hne (hwhite c r rfl)

theorem takeWhile_stop {p : UInt8 → Bool} {l t : List UInt8} {d : UInt8} (hl : ∀ c ∈ l, p c = true) (hd : p d = false) :
    (l ++ d :: t).takeWhile p = l := by
  rw [List.takeWhile_append_of_pos hl, List.takeWhile_cons_of_neg (by rw [hd]; decide), List.append_nil]

theorem not_white_of_word {c : UInt8} (h : isWord c = true) : isWhite c = false := by
  simp only [isWord, Bool.and_eq_true, Bool.not_eq_true'] at h
  exact h.1

theorem not_word_of_white {c : UInt8} (h : isWhite c = true) : isWord c = false := by
  simp [isWord, h]

theorem not_nul_of_white {c : UInt8} (h : isWhite c = true) : c ≠ 0 := by
  rintro rfl
  cases h

theorem strtok_done {lead : List UInt8} (hlead : ∀ c ∈ lead, isWhite c = true) (before rest : List UInt8) :
    strtok (before ++ (lead ++ 0 :: rest)) before.length = none := by
  have hwhite : ((before ++ (lead ++ 0 :: rest)).drop before.length).takeWhile isWhite = lead := by
    rw [List.drop_left, takeWhile_stop hlead rfl]
  have hstop : ((before ++ (lead ++ 0 :: rest)).drop (before.length + lead.length)).takeWhile isWord = [] := by
    rw [← List.append_assoc, ← List.length_append, List.drop_left]
    rfl
  unfold strtok
  dsimp only
  rw [hwhite, hstop, List.length_nil, Nat.add_zero, if_pos rfl]

/-- **A word**: it is found, and ends with a NUL. -/
theorem strtok_word {lead w : List UInt8} (hlead : ∀ c ∈ lead, isWhite c = true) (hw : ∀ c ∈ w, isWord c = true)
    (hne : w ≠ []) {d : UInt8} (hd : isWord d = false) (before tail : List UInt8) :
    strtok (before ++ (lead ++ (w ++ d :: tail))) before.length =
      if d = 0 then some ((before ++ lead).length, before ++ (lead ++ (w ++ 0 :: tail)), (before ++ lead ++ w).length)
      else some ((before ++ lead).length, before ++ (lead ++ (w ++ 0 :: tail)), (before ++ lead ++ w ++ [0]).length) := by
  have hwhite : ((before ++ (lead ++ (w ++ d :: tail))).drop before.length).takeWhile isWhite = lead := by
    obtain ⟨c, r, rfl⟩ := List.exists_cons_of_ne_nil hne
    rw [List.drop_left, List.cons_append]
    exact takeWhile_stop hlead (not_white_of_word (hw c List.mem_cons_self))
  have hword : ((before ++ (lead ++ (w ++ d :: tail))).drop (before.length + lead.length)).takeWhile isWord = w := by
    rw [← List.append_assoc, ← List.length_append, List.drop_left]
    exact takeWhile_stop hw hd
  have hassoc : ∀ e, before ++ (lead ++ (w ++ e :: tail)) = before ++ lead ++ w ++ e :: tail := fun e => by
    simp only [List.append_assoc]
  have hlen : before.length + lead.length + w.length = (before ++ lead ++ w).length := by
    simp only [List.length_append]
  have hget : (before ++ (lead ++ (w ++ d :: tail)))[before.length + lead.length + w.length]? = some d := by
    rw [hlen, hassoc, List.getElem?_append_right (Nat.le_refl _), Nat.sub_self]
    rfl
  have hset : (before ++ (lead ++ (w ++ d :: tail))).set (before.length + lead.length + w.length) 0 =
      before ++ (lead ++ (w ++ 0 :: tail)) := by
    rw [hlen, hassoc, hassoc, List.set_append_right _ _ (Nat.le_refl _), Nat.sub_self]
    rfl
  have hpos := List.length_pos_iff.2 hne
  unfold strtok
  dsimp only
  rw [hwhite, hword, if_neg (by omega), hget, hset, hlen, ← List.length_append]
  by_cases hnul : d = 0
  · subst hnul
    rfl
  · rw [if_neg hnul, Option.getD_some, if_neg hnul]
    simp only [List.length_append, List.length_singleton]

/-! ## All the words -/

theorem collect_none {room : Nat} {buf : List UInt8} {save : Nat} {argv : List Nat} (h : strtok buf save = none) :
    collect room buf save argv = some (buf, argv) := by
  unfold collect
  rw [h]

theorem collect_full {buf buf' : List UInt8} {save save' ptr : Nat} {argv : List Nat}
    (h : strtok buf save = some (ptr, buf', save')) : collect 0 buf save argv = none := by
  unfold collect
  rw [h]

theorem collect_room {room : Nat} {buf buf' : List UInt8} {save save' ptr : Nat} {argv : List Nat}
    (h : strtok buf save = some (ptr, buf', save')) :
    collect (room + 1) buf save argv = collect room buf' save' (argv ++ [ptr]) := by
  conv => lhs; unfold collect
  rw [h]

theorem stringAt_eq {s : List UInt8} (hs : Clean s) (before tail : List UInt8) :
    stringAt (before ++ (s ++ 0 :: tail)) before.length = s := by
  unfold stringAt
  rw [List.drop_left]
  exact takeWhile_stop (fun c hc => bne_iff_ne.2 (hs c hc)) rfl

theorem clean_of_word {w : List UInt8} (hw : ∀ c ∈ w, isWord c = true) : Clean w := fun c hc => by
  have h := hw c hc
  simp only [isWord, Bool.and_eq_true, bne_iff_ne] at h
  exact h.2

theorem words_last {lead w : List UInt8} (hlead : ∀ c ∈ lead, isWhite c = true) (hw : ∀ c ∈ w, isWord c = true)
    (hne : w ≠ []) : words (lead ++ w) = [w] := by
  rw [words_white hlead, words_word (fun c hc => not_white_of_word (hw c hc)) hne]

theorem words_more {lead w t : List UInt8} {c : UInt8} (hlead : ∀ c ∈ lead, isWhite c = true)
    (hw : ∀ c ∈ w, isWord c = true) (hne : w ≠ []) (hc : isWhite c = true) :
    words (lead ++ w ++ c :: t) = w :: words t := by
  rw [List.append_assoc, words_white hlead, words_cons (fun c hc => not_white_of_word (hw c hc)) hne hc]

/-- What `strtok` finds in what is left of a line: nothing, or a word, which is where it says as long as what comes after is
as long as it was; and with the white space before it, where it went on from. -/
theorem strtok_next {line : List UInt8} (hclean : Clean line) (before rest : List UInt8) :
    (words line = [] ∧ strtok (before ++ (line ++ 0 :: rest)) before.length = none) ∨
      ∃ mid w t ptr, Clean t ∧ mid.length + t.length = line.length ∧ words line = w :: words t ∧
        strtok (before ++ (line ++ 0 :: rest)) before.length =
          some (ptr, before ++ mid ++ (t ++ 0 :: rest), (before ++ mid).length) ∧
        ∀ t', t'.length = t.length → stringAt (before ++ mid ++ (t' ++ 0 :: rest)) ptr = w ∧
          stringAt (before ++ mid ++ (t' ++ 0 :: rest)) before.length = line.takeWhile isWhite ++ w := by
  cases next_of_clean hclean with
  | done hlead =>
    refine .inl ⟨?_, strtok_done hlead before rest⟩
    have hnil := words_white hlead []
    rw [List.append_nil] at hnil
    exact hnil
  | @last lead w hlead hw hne =>
    have hstrtok := strtok_word hlead hw hne (d := 0) rfl before rest
    have hspace : (lead ++ w).takeWhile isWhite = lead := by
      obtain ⟨c, r, rfl⟩ := List.exists_cons_of_ne_nil hne
      exact takeWhile_stop hlead (not_white_of_word (hw c List.mem_cons_self))
    refine .inr ⟨lead ++ w, w, [], (before ++ lead).length, nofun, Nat.add_zero _,
      words_last hlead hw hne, ?_, fun t' ht' => ?_⟩
    · rw [if_pos rfl] at hstrtok
      simpa only [List.append_assoc, List.nil_append] using hstrtok
    · obtain rfl := List.length_eq_zero_iff.1 ht'
      have hword := stringAt_eq (clean_of_word hw) (before ++ lead) rest
      have hfirst := stringAt_eq hclean before rest
      rw [hspace]
      exact ⟨by simpa only [List.append_assoc, List.nil_append] using hword,
        by simpa only [List.append_assoc, List.nil_append] using hfirst⟩
  | @more lead w t c hlead hw hne hc =>
    have hstrtok := strtok_word hlead hw hne (not_word_of_white hc) before (t ++ 0 :: rest)
    have hclean' : Clean (lead ++ w) := fun d hd => hclean d (List.mem_append_left _ hd)
    have hspace : (lead ++ w ++ c :: t).takeWhile isWhite = lead := by
      obtain ⟨d, r, rfl⟩ := List.exists_cons_of_ne_nil hne
      rw [List.append_assoc]
      exact takeWhile_stop hlead (not_white_of_word (hw d List.mem_cons_self))
    refine .inr ⟨lead ++ w ++ [0], w, t, (before ++ lead).length, fun d hd => hclean d (by simp [hd]),
      by simp; omega, words_more hlead hw hne hc, ?_, fun t' ht' => ?_⟩
    · rw [if_neg (not_nul_of_white hc)] at hstrtok
      simpa only [List.append_assoc, List.cons_append, List.nil_append] using hstrtok
    · have hword := stringAt_eq (clean_of_word hw) (before ++ lead) (t' ++ 0 :: rest)
      have hfirst := stringAt_eq hclean' before (t' ++ 0 :: rest)
      rw [hspace]
      exact ⟨by simpa only [List.append_assoc, List.cons_append, List.nil_append] using hword,
        by simpa only [List.append_assoc, List.cons_append, List.nil_append] using hfirst⟩

/-- **The loop**: where there is room for the words that are left, it finds them all, and else it gives up. -/
theorem collect_words : ∀ (room : Nat) (line before rest : List UInt8) (argv : List Nat), Clean line →
    ((words line).length ≤ room ∧ ∃ line' ptrs, line'.length = line.length ∧
      collect room (before ++ (line ++ 0 :: rest)) before.length argv =
        some (before ++ (line' ++ 0 :: rest), argv ++ ptrs) ∧
      ptrs.map (stringAt (before ++ (line' ++ 0 :: rest))) = words line) ∨
    room < (words line).length ∧ collect room (before ++ (line ++ 0 :: rest)) before.length argv = none := by
  intro room
  induction room with
  | zero =>
    intro line before rest argv hclean
    rcases strtok_next hclean before rest with ⟨hwords, hstrtok⟩ | ⟨mid, w, t, ptr, -, -, hwords, hstrtok, -⟩
    · rw [hwords]
      exact .inl ⟨Nat.le_refl _, line, [], rfl, by rw [collect_none hstrtok, List.append_nil], rfl⟩
    · rw [hwords]
      exact .inr ⟨by simp, collect_full hstrtok⟩
  | succ room ih =>
    intro line before rest argv hclean
    rcases strtok_next hclean before rest with ⟨hwords, hstrtok⟩ | ⟨mid, w, t, ptr, ht, hmid, hwords, hstrtok, hstring⟩
    · rw [hwords]
      exact .inl ⟨Nat.zero_le _, line, [], rfl, by rw [collect_none hstrtok, List.append_nil], rfl⟩
    · rw [hwords, collect_room hstrtok, List.length_cons]
      rcases ih t (before ++ mid) rest (argv ++ [ptr]) ht with ⟨hle, t', ptrs, hlen, hrun, hmap⟩ | ⟨hlt, hrun⟩
      · have hassoc : before ++ (mid ++ t' ++ 0 :: rest) = before ++ mid ++ (t' ++ 0 :: rest) := by
          simp only [List.append_assoc]
        refine .inl ⟨by omega, mid ++ t', ptr :: ptrs, ?_, ?_, ?_⟩
        · rw [List.length_append]
          omega
        · rw [hrun, hassoc]
          simp only [List.append_assoc, List.singleton_append]
        · rw [hassoc, List.map_cons, hmap, (hstring t' hlen).1]
      · exact .inr ⟨by omega, hrun⟩

theorem bufArgs_cases {line : List UInt8} (hclean : Clean line) (rest : List UInt8) :
    (words line = [] ∨ MAXARGC ≤ (words line).length) ∧ bufArgs (line ++ 0 :: rest) = none ∨
      (words line).length < MAXARGC ∧ ∃ w ws buf argv, words line = w :: ws ∧
        bufArgs (line ++ 0 :: rest) = some (buf, argv) ∧
        argv.map (stringAt buf) = (line.takeWhile isWhite ++ w) :: ws ∧
        ∃ line', buf = line' ++ 0 :: rest ∧ line'.length = line.length := by
  have hstart := strtok_next hclean [] rest
  rw [List.nil_append, List.length_nil] at hstart
  unfold bufArgs
  rcases hstart with ⟨hwords, hstrtok⟩ | ⟨mid, w, t, ptr, ht, hmid, hwords, hstrtok, hstring⟩
  · rw [hstrtok]
    exact .inl ⟨.inl hwords, rfl⟩
  · rw [hstrtok, hwords]
    dsimp only
    rcases collect_words (MAXARGC - 2) t mid rest [0] ht with ⟨hle, t', ptrs, hlen, hrun, hmap⟩ | ⟨hlt, hrun⟩
    · rw [List.nil_append, hrun]
      unfold MAXARGC at hle ⊢
      refine .inr ⟨by rw [List.length_cons]; omega, w, words t, _, _, rfl, rfl, ?_, ?_⟩
      · rw [List.singleton_append, List.map_cons, hmap, ← (hstring t' hlen).2]
        rfl
      · refine ⟨mid ++ t', by simp only [List.append_assoc], ?_⟩
        rw [List.length_append]
        omega
    · rw [List.nil_append, hrun]
      unfold MAXARGC at hlt ⊢
      exact .inl ⟨.inr (by rw [List.length_cons]; omega), rfl⟩

/-- Words with a blank between them. -/
def joined : List (List UInt8) → List UInt8
  | [] => []
  | [w] => w
  | w :: ws => w ++ 32 :: joined ws

theorem words_joined : ∀ {ws : List (List UInt8)}, (∀ w ∈ ws, w ≠ [] ∧ ∀ c ∈ w, isWord c = true) → words (joined ws) = ws
  | [], _ => rfl
  | [w], h => by
    obtain ⟨hne, hw⟩ := h w List.mem_cons_self
    exact words_word (fun c hc => not_white_of_word (hw c hc)) hne
  | w :: v :: ws, h => by
    obtain ⟨hne, hw⟩ := h w List.mem_cons_self
    have hrest : words (joined (v :: ws)) = v :: ws := words_joined fun u hu => h u (List.mem_cons_of_mem w hu)
    calc words (joined (w :: v :: ws)) = words (w ++ 32 :: joined (v :: ws)) := rfl
      _ = w :: words (joined (v :: ws)) := words_cons (fun c hc => not_white_of_word (hw c hc)) hne rfl
      _ = w :: v :: ws := by rw [hrest]

/-- Such a line has no NUL, and begins with a word. -/
theorem joined_word : ∀ {ws : List (List UInt8)}, ws ≠ [] → (∀ w ∈ ws, w ≠ [] ∧ ∀ c ∈ w, isWord c = true) →
    Clean (joined ws) ∧ (joined ws).takeWhile isWhite = []
  | [w], _, h => by
    obtain ⟨hne, hw⟩ := h w List.mem_cons_self
    obtain ⟨c, r, rfl⟩ := List.exists_cons_of_ne_nil hne
    refine ⟨clean_of_word hw, List.takeWhile_cons_of_neg ?_⟩
    rw [not_white_of_word (hw c List.mem_cons_self)]
    decide
  | w :: v :: ws, _, h => by
    obtain ⟨hne, hw⟩ := h w List.mem_cons_self
    have hrest := (@joined_word (v :: ws) nofun fun u hu => h u (List.mem_cons_of_mem w hu)).1
    obtain ⟨c, r, rfl⟩ := List.exists_cons_of_ne_nil hne
    refine ⟨?_, List.takeWhile_cons_of_neg ?_⟩
    · rintro d hd
      rcases List.mem_append.1 hd with hd | hd
      · exact clean_of_word hw d hd
      · rcases List.mem_cons.1 hd with rfl | hd
        · decide
        · exact hrest d hd
    · rw [not_white_of_word (hw c List.mem_cons_self)]
      decide

/-- **Less than `MAXARGC` words that are written with a blank between them come back.** -/
theorem buf_args_joined (ws : List (List UInt8)) (rest : List UInt8) (hne : ws ≠ []) (hlen : ws.length < MAXARGC)
    (hws : ∀ w ∈ ws, w ≠ [] ∧ ∀ c ∈ w, isWord c = true) :
    ∃ buf argv, bufArgs (joined ws ++ 0 :: rest) = some (buf, argv) ∧ argv.map (stringAt buf) = ws := by
  obtain ⟨hclean, hspace⟩ := joined_word hne hws
  rcases bufArgs_cases hclean rest with ⟨hwords, -⟩ | ⟨-, w, vs, buf, argv, hwords, hrun, hstrings, -⟩
  · rw [words_joined hws] at hwords
    rcases hwords with hnil | hle
    · exact absurd hnil hne
    · omega
  · refine ⟨buf, argv, hrun, ?_⟩
    rw [hstrings, hspace, List.nil_append, ← hwords, words_joined hws]

theorem buf_args_joined_two : ∃ buf argv, bufArgs (joined [[97, 98], [99]] ++ [0]) = some (buf, argv) ∧
    argv.map (stringAt buf) = [[97, 98], [99]] :=
  buf_args_joined [[97, 98], [99]] [] nofun (Nat.lt_of_sub_eq_succ rfl)
    (List.forall_mem_cons.2 ⟨⟨nofun, List.forall_mem_cons.2 ⟨rfl, List.forall_mem_cons.2 ⟨rfl, nofun⟩⟩⟩,
      List.forall_mem_cons.2 ⟨⟨nofun, List.forall_mem_cons.2 ⟨rfl, nofun⟩⟩, nofun⟩⟩)

end BufArgs
end Cc
