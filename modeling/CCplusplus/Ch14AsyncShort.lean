import CCplusplus.Ch14AsyncAlarms
/-!
# Ch14AsyncShort — an order in which `ch14_async` gives up on a file whose last block is short

The write of the first block is left pending while the other blocks are read and written, one at a time; when the read
of the last block has been reaped, the first block's write ends, and is tested against the last block's length.  At any
time one operation has ended and is not reaped yet, so that `aio_suspend` returns and the scan goes on (`advance`).
-/
namespace Cc
namespace Ch14Async

open CLib

variable {inp : Input}

/-- By operations that succeed in full. -/
abbrev Goes (inp : Input) (s s' : State) : Prop := Reach (restrict (inFull inp) (step inp)) s s'

theorem Goes.inv {s s' : State} (h : Goes inp s s') (hi : Inv inp s ∧ InScan s) : Inv inp s' ∧ InScan s' := by
  obtain ⟨acts, h⟩ := h
  exact restrict_inv (fun s => Inv inp s ∧ InScan s) (fun s a s' hi hok hs => step_inv hi hok hs) acts s s' hi h

theorem main_go {s s' : State} (h : mainStep inp s .all = some s') : Goes inp s s' := by
  refine .of_step (a := .main .all) ?_
  have hok : inFull inp s (.main .all) = true := rfl
  unfold restrict
  rw [if_pos hok]
  exact h

theorem next_eq {i : Nat} (h : i < NBUF) : next i = .scan ((i + 1) % NBUF) := by
  unfold next
  by_cases hi : i + 1 < NBUF
  · rw [if_pos hi, Nat.mod_eq_of_lt hi]
  · rw [if_neg hi, show i + 1 = NBUF by omega, Nat.mod_self]

/-! ## The scan goes on -/

/-- Nothing of the buffer is to be reaped. -/
def Still (b : Buf) : Prop := b.op = .unused ∨ b.io = .reading ∨ b.io = .writing

theorem Still.not_done {b : Buf} {err ret : Int} (h : Still b) (hop : b.op ≠ .unused) (hio : b.io = .done err ret) :
    False := by
  rcases h with h | h | h
  · exact hop h
  · rw [hio] at h
    cases h
  · rw [hio] at h
    cases h

/-- Buffer `t` is to be reaped. -/
structure Ended (inp : Input) (s : State) (t : Nat) : Prop where
  lt : t < NBUF
  op : (s.bufs t).op ≠ .unused
  io : (s.bufs t).io = .done 0 (blockLen inp (s.bufs t).aioOffset)

theorem Ended.of_eq {s s' : State} {t : Nat} (h : Ended inp s t) (he : s'.bufs t = s.bufs t) : Ended inp s' t :=
  ⟨h.lt, by rw [he]; exact h.op, by rw [he]; exact h.io⟩

/-- After the `switch`, the program waits and goes on to the next buffer. -/
theorem leave {s : State} {x t : Nat} (h : Inv inp s) (hpc : s.pc = .test x) (ht : Ended inp s t) :
    Goes inp s { s with pc := next x } := by
  have hnum : s.numop ≠ 0 := by
    have hpos : 0 < (List.range NBUF).countP (fun i => (s.bufs i).op != .unused) :=
      List.countP_pos_iff.2 ⟨t, List.mem_range.2 ht.lt, bne_iff_ne.2 ht.op⟩
    rw [h.numop]
    omega
  have hdone : someDone s = true := by
    unfold someDone
    refine List.any_eq_true.2 ⟨t, List.mem_range.2 ht.lt, ?_⟩
    rw [h.aiolist t ht.lt, if_neg ht.op, ht.io]
  have htest : mainStep inp s .all = some { s with pc := .suspend x } := by
    unfold mainStep
    rw [hpc]
    exact if_neg hnum
  have hsuspend : mainStep inp { s with pc := .suspend x } .all = some { s with pc := next x } := by
    unfold mainStep
    exact if_pos hdone
  exact (main_go htest).trans (main_go hsuspend)

/-- What the scan over still buffers does: unused ones take blocks. -/
structure Past (s s' : State) : Prop where
  n : s'.n = s.n
  written : s'.written = s.written
  off : s.off ≤ s'.off
  same : ∀ j, (s.bufs j).op ≠ .unused → s'.bufs j = s.bufs j
  taken : ∀ j, (s.bufs j).op = .unused →
    s'.bufs j = s.bufs j ∨ ((s'.bufs j).op = .readPending ∧ (s'.bufs j).io = .reading) ∧ s.off < s'.off

theorem Past.refl (s : State) : Past s s := ⟨rfl, rfl, Nat.le_refl _, fun _ _ => rfl, fun _ _ => .inl rfl⟩

theorem Past.trans {s t u : State} (h : Past s t) (h' : Past t u) : Past s u where
  n := h'.n.trans h.n
  written := h'.written.trans h.written
  off := Nat.le_trans h.off h'.off
  same := fun j hj => (h'.same j (by rw [h.same j hj]; exact hj)).trans (h.same j hj)
  taken := fun j hj => by
    rcases h.taken j hj with he | ⟨⟨hop, hio⟩, hlt⟩
    · rcases h'.taken j (by rw [he]; exact hj) with he' | ⟨hr, hlt⟩
      · exact .inl (he'.trans he)
      · exact .inr ⟨hr, Nat.lt_of_le_of_lt h.off hlt⟩
    · have he := h'.same j (by rw [hop]; decide)
      exact .inr ⟨by rw [he]; exact ⟨hop, hio⟩, Nat.lt_of_lt_of_le hlt h'.off⟩

theorem Past.still {s s' : State} (h : Past s s') {j : Nat} (hj : Still (s.bufs j)) : Still (s'.bufs j) := by
  by_cases hop : (s.bufs j).op = .unused
  · rcases h.taken j hop with he | ⟨⟨-, hio⟩, -⟩
    · rw [he]
      exact hj
    · exact .inr (.inl hio)
  · rw [h.same j hop]
    exact hj

/-- The scan has been at buffer `j` since there was a block to take. -/
def Visited (inp : Input) (s : State) (j : Nat) : Prop := (s.bufs j).op ≠ .unused ∨ inp.size ≤ s.off

theorem Visited.past {s s' : State} {j : Nat} (h : Visited inp s j) (hp : Past s s') : Visited inp s' j := by
  rcases h with hop | hle
  · left
    rw [hp.same j hop]
    exact hop
  · exact .inr (Nat.le_trans hle hp.off)

/-- **A turn at a still buffer.** -/
theorem pass {s : State} {i t : Nat} (h : Inv inp s ∧ InScan s) (hi : i < NBUF) (hpc : s.pc = .scan i)
    (hstill : Still (s.bufs i)) (ht : Ended inp s t) (hne : t ≠ i) :
    ∃ s', Goes inp s s' ∧ s'.pc = next i ∧ Past s s' ∧ Visited inp s' i := by
  cases hop : (s.bufs i).op with
  | unused =>
    have hmain : mainStep inp s .all = some (scanUnused inp s i .all) := scan_unused hpc hop
    have hgo := main_go hmain
    have hinv := (Goes.inv hgo h).1
    unfold scanUnused at hgo hinv
    by_cases hlt : s.off < inp.size
    · simp only [if_pos hlt, Calls.all, if_true] at hgo hinv
      refine ⟨_, hgo.trans (leave hinv rfl (ht.of_eq (Function.update_of_ne hne _ _))), rfl, ?_, .inl ?_⟩
      · refine ⟨rfl, rfl, Nat.le_add_right _ _, fun j hj => ?_, fun j hj => ?_⟩
        · have hji : j ≠ i := fun he => hj (by rw [he]; exact hop)
          exact Function.update_of_ne hji _ _
        · by_cases hji : j = i
          · subst hji
            simp only [Function.update_self]
            exact .inr ⟨⟨trivial, trivial⟩, Nat.lt_add_of_pos_right (by decide)⟩
          · exact .inl (Function.update_of_ne hji _ _)
      · simp only [Function.update_self]
        decide
    · rw [if_neg hlt] at hgo hinv
      exact ⟨_, hgo.trans (leave hinv rfl (ht.of_eq rfl)), rfl,
        ⟨rfl, rfl, Nat.le_refl _, fun _ _ => rfl, fun _ _ => .inl rfl⟩, .inr (Nat.le_of_not_lt hlt)⟩
  | readPending =>
    have hmain : mainStep inp s .all = some (scanRead s i .all) := scan_read hpc hop
    rcases scanRead_cases h.1 hi hop with ⟨-, he⟩ | ⟨hio, -⟩
    · rw [he] at hmain
      exact ⟨_, main_go hmain, rfl, ⟨rfl, rfl, Nat.le_refl _, fun _ _ => rfl, fun _ _ => .inl rfl⟩,
        .inl (by simp only [hop]; decide)⟩
    · exact (hstill.not_done (by rw [hop]; decide) hio).elim
  | writePending =>
    have hmain : mainStep inp s .all = some (scanWrite s i .all) := scan_write hpc hop
    rcases scanWrite_cases h.1 hi hop with ⟨-, he⟩ | ⟨hio, -⟩
    · rw [he] at hmain
      exact ⟨_, main_go hmain, rfl, ⟨rfl, rfl, Nat.le_refl _, fun _ _ => rfl, fun _ _ => .inl rfl⟩,
        .inl (by simp only [hop]; decide)⟩
    · exact (hstill.not_done (by rw [hop]; decide) hio).elim

/-- **The scan reaches the one buffer that is to be reaped**, having been at those in between. -/
theorem advance : ∀ (d : Nat) {s : State} {i t : Nat}, Inv inp s ∧ InScan s → s.pc = .scan i → i < NBUF → d < NBUF →
    (i + d) % NBUF = t → Ended inp s t → (∀ j, j < NBUF → j ≠ t → Still (s.bufs j)) →
    ∃ s', Goes inp s s' ∧ s'.pc = .scan t ∧ Past s s' ∧ ∀ k, k < d → Visited inp s' ((i + k) % NBUF)
  | 0, s, i, t, _, hpc, hi, _, hd, _, _ => by
    rw [Nat.add_zero, Nat.mod_eq_of_lt hi] at hd
    exact ⟨s, .refl s, by rw [hpc, hd], .refl s, fun k hk => absurd hk (Nat.not_lt_zero _)⟩
  | d + 1, s, i, t, h, hpc, hi, hlt, hd, ht, hstill => by
    have hne : i ≠ t := by
      unfold NBUF at *
      omega
    obtain ⟨s₁, hgo₁, hpc₁, hp₁, hv₁⟩ := pass h hi hpc (hstill i hi hne) ht (Ne.symm hne)
    rw [next_eq hi] at hpc₁
    have hd' : ((i + 1) % NBUF + d) % NBUF = t := by
      unfold NBUF at *
      omega
    obtain ⟨s₂, hgo₂, hpc₂, hp₂, hv₂⟩ := advance d (Goes.inv hgo₁ h) hpc₁ (Nat.mod_lt _ (by decide))
      (Nat.lt_of_succ_lt hlt) hd' (ht.of_eq (hp₁.same t ht.op)) (fun j hj hjt => hp₁.still (hstill j hj hjt))
    refine ⟨s₂, hgo₁.trans hgo₂, hpc₂, hp₁.trans hp₂, fun k hk => ?_⟩
    cases k with
    | zero =>
      rw [Nat.add_zero, Nat.mod_eq_of_lt hi]
      exact hv₁.past hp₂
    | succ k =>
      have he : (i + (k + 1)) % NBUF = ((i + 1) % NBUF + k) % NBUF := by
        unfold NBUF
        omega
      rw [he]
      exact hv₂ k (Nat.lt_of_succ_lt_succ hk)

/-! ## One buffer goes on -/

/-- Of the buffers, buffer `t` alone has changed, to `b`, with the block it holds. -/
structure Acts (s s' : State) (t : Nat) (b : Buf) : Prop where
  bufs : s'.bufs = Function.update s.bufs t b
  offset : b.aioOffset = (s.bufs t).aioOffset
  off : s'.off = s.off
  writes : ∀ offset, offset ≠ (s.bufs t).aioOffset → writes s' offset = writes s offset

theorem Acts.self {s s' : State} {t : Nat} {b : Buf} (h : Acts s s' t b) : s'.bufs t = b := by
  rw [h.bufs, Function.update_self]

theorem Acts.other {s s' : State} {t j : Nat} {b : Buf} (h : Acts s s' t b) (hj : j ≠ t) : s'.bufs j = s.bufs j := by
  rw [h.bufs, Function.update_of_ne hj]

theorem reap {s : State} {t : Nat} (h : Inv inp s) (hpc : s.pc = .scan t) (ht : Ended inp s t)
    (hop : (s.bufs t).op = .readPending) :
    ∃ s' b, Goes inp s s' ∧ s'.pc = .test t ∧ s'.n = blockLen inp (s.bufs t).aioOffset ∧ Acts s s' t b ∧
      b.op = .writePending ∧ b.io = .writing := by
  have hmain : mainStep inp s .all = some (scanRead s t .all) := scan_read hpc hop
  rcases scanRead_cases h ht.lt hop with ⟨hio, -⟩ | ⟨-, he⟩
  · rw [ht.io] at hio
    cases hio
  · rw [he] at hmain
    exact ⟨_, _, main_go hmain, rfl, rfl, ⟨rfl, rfl, rfl, fun _ _ => rfl⟩, rfl, rfl⟩

theorem release {s : State} {t : Nat} (h : Inv inp s) (hpc : s.pc = .scan t) (ht : Ended inp s t)
    (hop : (s.bufs t).op = .writePending) (hn : s.n = blockLen inp (s.bufs t).aioOffset) :
    ∃ s' b, Goes inp s s' ∧ s'.pc = .test t ∧ Acts s s' t b ∧ b.op = .unused := by
  have hmain : mainStep inp s .all = some (scanWrite s t .all) := scan_write hpc hop
  rcases scanWrite_cases h ht.lt hop with ⟨hio, -⟩ | ⟨-, -, he⟩
  · rw [ht.io] at hio
    cases hio
  · rw [he, if_neg (fun hne => hne hn)] at hmain
    exact ⟨_, _, main_go hmain, rfl, ⟨rfl, rfl, rfl, fun _ _ => rfl⟩, rfl⟩

theorem complete_go {s s' : State} {t count : Nat} (ht : t < NBUF) (hok : inFull inp s (.complete t 0 count) = true)
    (hs : completeStep inp s t 0 count = some s') : Goes inp s s' := by
  refine .of_step (a := .complete t 0 count) ?_
  unfold restrict
  rw [if_pos hok]
  simp only [step, if_pos ht]
  exact hs

/-- **A pending operation ends.** -/
theorem finish {s : State} {t : Nat} (h : Inv inp s) (ht : t < NBUF)
    (hio : (s.bufs t).io = .reading ∨ (s.bufs t).io = .writing) :
    ∃ s' b, Goes inp s s' ∧ s'.pc = s.pc ∧ s'.n = s.n ∧ Acts s s' t b ∧ b.op = (s.bufs t).op ∧ Ended inp s' t := by
  have hst := h.stage t ht
  rcases hio with hio | hio
  · -- a read
    have hop := hst.op_of_reading hio
    unfold Stage at hst
    rw [hop] at hst
    have hcount : min (s.bufs t).aioNbytes (inp.size - (s.bufs t).aioOffset) = blockLen inp (s.bufs t).aioOffset := by
      rw [hst.1]
      rfl
    have hok : inFull inp s (.complete t 0 (blockLen inp (s.bufs t).aioOffset)) = true := by
      simp only [inFull, hio, hcount, BEq.rfl, Bool.and_true]
    have hs : completeStep inp s t 0 (blockLen inp (s.bufs t).aioOffset) = some { s with
        bufs := Function.update s.bufs t { (s.bufs t) with
          io := .done 0 (blockLen inp (s.bufs t).aioOffset)
          data := fun k =>
            if k < blockLen inp (s.bufs t).aioOffset then inp.byte ((s.bufs t).aioOffset + k)
            else (s.bufs t).data k } } := by
      simp only [completeStep, hio, ne_eq, not_true_eq_false, if_false, hcount, Nat.le_refl, if_true]
    refine ⟨_, _, complete_go ht hok hs, rfl, rfl, ⟨rfl, rfl, rfl, fun _ _ => rfl⟩, rfl, ⟨ht, ?_, ?_⟩⟩
    · simp only [Function.update_self, hop]
      decide
    · simp only [Function.update_self]
  · -- a write
    have hop := hst.op_of_writing hio
    unfold Stage at hst
    rw [hop] at hst
    have hok : inFull inp s (.complete t 0 (blockLen inp (s.bufs t).aioOffset)) = true := by
      simp only [inFull, hio, hst.1, BEq.rfl, Bool.and_true]
    have hs : completeStep inp s t 0 (blockLen inp (s.bufs t).aioOffset) = some { s with
        bufs := Function.update s.bufs t { (s.bufs t) with io := .done 0 (blockLen inp (s.bufs t).aioOffset) }
        written := s.written ++
          [⟨(s.bufs t).aioOffset, blockLen inp (s.bufs t).aioOffset, (s.bufs t).data⟩] } := by
      simp only [completeStep, hio, ne_eq, not_true_eq_false, if_false, hst.1, Nat.le_refl, if_true]
    refine ⟨_, _, complete_go ht hok hs, rfl, rfl, ⟨rfl, rfl, rfl, fun offset hne => ?_⟩, rfl, ⟨ht, ?_, ?_⟩⟩
    · refine (countP_written _ _ _).trans ?_
      rw [if_neg (Ne.symm hne)]
      rfl
    · simp only [Function.update_self, hop]
      decide
    · simp only [Function.update_self]

/-! ## The last block -/

/-- The offset of the last block, shorter than a buffer and not the first one. -/
structure ShortLast (inp : Input) (last : Nat) : Prop where
  mod : last % BSZ = 0
  pos : 0 < last
  lt : last < inp.size
  short : inp.size < last + BSZ

theorem shortLast {inp : Input} (h : ¬ (inp.size ≤ BSZ ∨ inp.size % BSZ = 0)) :
    ShortLast inp (inp.size / BSZ * BSZ) := by
  unfold BSZ at h
  constructor <;>
  · unfold BSZ
    omega

theorem ShortLast.len {last : Nat} (h : ShortLast inp last) : blockLen inp last ≠ blockLen inp 0 := by
  obtain ⟨hm, hp, hlt, hs⟩ := h
  unfold blockLen BSZ at *
  omega

/-- The write of the first block is pending, and of the others, buffer `t` aside, each is unused or being read; the last
block has not been reaped. -/
structure Around (s : State) (last t : Nat) : Prop where
  zero : (s.bufs 0).op = .writePending ∧ (s.bufs 0).io = .writing ∧ (s.bufs 0).aioOffset = 0
  others : ∀ j, 0 < j → j < NBUF → j ≠ t →
    (s.bufs j).op = .unused ∨ (s.bufs j).op = .readPending ∧ (s.bufs j).io = .reading
  unread : writes s last = 0 ∧ ∀ j, Holds s j last → (s.bufs j).op = .readPending

theorem Around.still {s : State} {last t j : Nat} (h : Around s last t) (hj : j < NBUF) (hjt : j ≠ t) :
    Still (s.bufs j) := by
  rcases Nat.eq_zero_or_pos j with rfl | hpos
  · exact .inr (.inr h.zero.2.1)
  · rcases h.others j hpos hj hjt with hop | ⟨-, hio⟩
    · exact .inl hop
    · exact .inr (.inl hio)

theorem Around.past {s s' : State} {last t : Nat} (h : Around s last t) (hp : Past s s') : Around s' last t := by
  have h0 : s'.bufs 0 = s.bufs 0 := hp.same 0 (by rw [h.zero.1]; decide)
  refine ⟨by rw [h0]; exact h.zero, fun j hpos hj hjt => ?_, ?_, fun j hj => ?_⟩
  · rcases h.others j hpos hj hjt with hop | ⟨hop, hio⟩
    · rcases hp.taken j hop with he | ⟨hr, -⟩
      · rw [he]
        exact .inl hop
      · exact .inr hr
    · rw [hp.same j (by rw [hop]; decide)]
      exact .inr ⟨hop, hio⟩
  · unfold writes
    rw [hp.written]
    exact h.unread.1
  · by_cases hop : (s.bufs j).op = .unused
    · rcases hp.taken j hop with he | ⟨hr, -⟩
      · exact absurd (he ▸ hop) hj.2.1
      · exact hr.1
    · have he := hp.same j hop
      unfold Holds at hj
      rw [he] at hj ⊢
      exact h.unread.2 j hj

theorem Around.acts {s s' : State} {last t : Nat} {b : Buf} (h : Around s last t) (ha : Acts s s' t b) (ht : t ≠ 0)
    (hinv : Inv inp s') (hlast : (s.bufs t).aioOffset = last → t < NBUF ∧ b.op = .readPending) : Around s' last t := by
  refine ⟨by rw [ha.other (Ne.symm ht)]; exact h.zero, fun j hpos hj hjt => ?_, ?_, fun j hj => ?_⟩
  · rw [ha.other hjt]
    exact h.others j hpos hj hjt
  · by_cases he : (s.bufs t).aioOffset = last
    · obtain ⟨hlt, hop⟩ := hlast he
      have hst := hinv.stage t hlt
      unfold Stage at hst
      rw [ha.self, hop] at hst
      rw [← he, ← ha.offset]
      exact hst.2.2.1
    · rw [ha.writes last (Ne.symm he)]
      exact h.unread.1
  · by_cases hjt : j = t
    · subst hjt
      unfold Holds at hj
      rw [ha.self] at hj ⊢
      exact (hlast (ha.offset.symm.trans hj.2.2)).2
    · unfold Holds at hj
      rw [ha.other hjt] at hj ⊢
      exact h.unread.2 j hj

theorem Around.all {s : State} {last t : Nat} (h : Around s last t) (hop : (s.bufs t).op = .unused) (u : Nat) :
    Around s last u := by
  refine ⟨h.zero, fun j hpos hj _ => ?_, h.unread⟩
  by_cases hjt : j = t
  · subst hjt
    exact .inl hop
  · exact h.others j hpos hj hjt

/-! ## One block after the other -/

/-- What is left to do, so that it decreases when a block is scheduled and when the read of one is reaped. -/
def left (inp : Input) (s : State) : Nat :=
  9 * (inp.size + BSZ - s.off) + (List.range NBUF).countP (fun i => (s.bufs i).op == .readPending)

theorem Past.left_le {s s' : State} (h : Past s s') (hinv : Inv inp s') : left inp s' ≤ left inp s := by
  unfold left
  rcases Nat.eq_or_lt_of_le h.off with he | hlt
  · have hbufs : s'.bufs = s.bufs := by
      funext j
      by_cases hop : (s.bufs j).op = .unused
      · rcases h.taken j hop with hb | ⟨-, hlt⟩
        · exact hb
        · exact absurd he (Nat.ne_of_lt hlt)
      · exact h.same j hop
    rw [hbufs, he]
  · have hcount : (List.range NBUF).countP (fun i => (s'.bufs i).op == .readPending) ≤ NBUF := by
      simpa using List.countP_le_length (p := fun i => (s'.bufs i).op == .readPending) (l := List.range NBUF)
    have hoff := hinv.off.2
    unfold NBUF at *
    omega

/-- One for a buffer that is being read. -/
def reads (b : Buf) : Nat := if b.op = .readPending then 1 else 0

theorem reads_eq (b : Buf) : reads b = (b.op == .readPending).toNat := by
  unfold reads
  cases b.op with
  | unused | readPending | writePending => rfl

theorem Acts.left {s s' : State} {t : Nat} {b : Buf} (h : Acts s s' t b) (ht : t < NBUF) :
    left inp s' + reads (s.bufs t) = left inp s + reads b := by
  have hcount := countP_range_update ht (p := fun j => (s.bufs j).op == .readPending)
    (q := fun j => (s'.bufs j).op == .readPending) (fun j hj => by rw [h.other hj])
  simp only [← reads_eq, h.self] at hcount
  unfold Ch14Async.left
  rw [h.off]
  omega

/-- The operation on buffer `t` has ended and the scan has come to it, the other buffers taking blocks meanwhile. -/
structure Comes (inp : Input) (s s' : State) (t : Nat) : Prop where
  go : Goes inp s s'
  pc : s'.pc = .scan t
  n : s'.n = s.n
  ended : Ended inp s' t
  op : (s'.bufs t).op = (s.bufs t).op
  offset : (s'.bufs t).aioOffset = (s.bufs t).aioOffset
  others : ∀ j, j ≠ t → s'.bufs j = s.bufs j ∨ (s'.bufs j).op = .readPending ∧ (s'.bufs j).io = .reading
  left : left inp s' ≤ left inp s

theorem comes {s : State} {x t : Nat} (h : Inv inp s ∧ InScan s) (hpc : s.pc = .test x) (hx : x < NBUF) (ht : t < NBUF)
    (hio : (s.bufs t).io = .reading ∨ (s.bufs t).io = .writing)
    (hstill : ∀ j, j < NBUF → j ≠ t → Still (s.bufs j)) : ∃ s', Comes inp s s' t := by
  obtain ⟨s₁, b, hgo₁, hpc₁, hn₁, hacts, hop, hended⟩ := finish h.1 ht hio
  have hgo₂ := leave (Goes.inv hgo₁ h).1 (hpc₁.trans hpc) hended
  rw [next_eq hx] at hgo₂
  have hd : ((x + 1) % NBUF + (t + NBUF - (x + 1) % NBUF) % NBUF) % NBUF = t := by
    unfold NBUF at *
    omega
  obtain ⟨s₃, hgo₃, hpc₃, hp, -⟩ := advance ((t + NBUF - (x + 1) % NBUF) % NBUF) (Goes.inv (hgo₁.trans hgo₂) h) rfl
    (Nat.mod_lt _ (by decide)) (Nat.mod_lt _ (by decide)) hd (hended.of_eq rfl)
    (fun j hj hne => by
      show Still (s₁.bufs j)
      rw [hacts.other hne]
      exact hstill j hj hne)
  have hgo := (hgo₁.trans hgo₂).trans hgo₃
  have hb : s₃.bufs t = b := (hp.same t hended.op).trans hacts.self
  refine ⟨s₃, hgo, hpc₃, hp.n.trans hn₁, hended.of_eq (hp.same t hended.op), by rw [hb, hop], by rw [hb, hacts.offset],
    fun j hj => ?_, ?_⟩
  · rw [← hacts.other hj]
    by_cases hun : (s₁.bufs j).op = .unused
    · exact (hp.taken j hun).imp_right (fun hr => hr.1)
    · exact .inl (hp.same j hun)
  · have hl₁ : left inp s₁ + reads (s.bufs t) = left inp s + reads b := hacts.left ht
    have hl₃ : left inp s₃ ≤ left inp s₁ := hp.left_le (Goes.inv hgo h).1
    have hreads : reads b = reads (s.bufs t) := by
      unfold reads
      rw [hop]
    omega

/-- **The alarm**: the first block's write ends while `n` is another length. -/
theorem caught {s : State} {x : Nat} (h : Inv inp s ∧ InScan s) (hpc : s.pc = .test x) (hx : x < NBUF)
    (hn : s.n ≠ blockLen inp 0)
    (h0 : (s.bufs 0).op = .writePending ∧ (s.bufs 0).io = .writing ∧ (s.bufs 0).aioOffset = 0)
    (hstill : ∀ j, j < NBUF → j ≠ 0 → Still (s.bufs j)) : ∃ s', Goes inp s s' ∧ ¬ Quiet s' := by
  obtain ⟨s₁, hc⟩ := comes h hpc hx (show 0 < NBUF by decide) (.inr h0.2.1) hstill
  have hop : (s₁.bufs 0).op = .writePending := by rw [hc.op, h0.1]
  have hmain : mainStep inp s₁ .all = some (scanWrite s₁ 0 .all) := scan_write hc.pc hop
  rcases scanWrite_cases (Goes.inv hc.go h).1 (show 0 < NBUF by decide) hop with ⟨hio, -⟩ | ⟨-, -, he⟩
  · rw [hc.ended.io] at hio
    cases hio
  · have hne : s₁.n ≠ blockLen inp (s₁.bufs 0).aioOffset := by
      rw [hc.n, hc.offset, h0.2.2]
      exact hn
    rw [he, if_pos hne] at hmain
    exact ⟨_, hc.go.trans (main_go hmain), fun hq => (by cases hq _ rfl)⟩

/-- The read of buffer `t` has ended, of all operations it alone. -/
structure Ready (inp : Input) (s : State) (last t : Nat) : Prop where
  inv : Inv inp s ∧ InScan s
  pc : ∃ i, i < NBUF ∧ s.pc = .scan i
  pos : 0 < t
  ended : Ended inp s t
  op : (s.bufs t).op = .readPending
  around : Around s last t

/-- **Some other block is being read**, as long as the last one is not reaped: each buffer has taken one, or there is
none left to take and the last one is among those taken. -/
theorem exists_reading {s : State} {x last : Nat} (hl : ShortLast inp last) (h : Inv inp s) (ha : Around s last 0)
    (hv : ∀ j, j < NBUF → j ≠ x → Visited inp s j) :
    ∃ t, 0 < t ∧ t < NBUF ∧ (s.bufs t).op = .readPending ∧ (s.bufs t).io = .reading := by
  obtain ⟨j, hpos, hj, hjx⟩ : ∃ j, 0 < j ∧ j < NBUF ∧ j ≠ x := by
    by_cases hx : x = 1
    · exact ⟨2, by decide, by decide, by omega⟩
    · exact ⟨1, by decide, by decide, Ne.symm hx⟩
  rcases hv j hj hjx with hop | hle
  · rcases ha.others j hpos hj (Nat.ne_of_gt hpos) with hun | hr
    · exact absurd hun hop
    · exact ⟨j, hpos, hj, hr⟩
  · rcases h.covered last hl.mod (Nat.lt_of_lt_of_le hl.lt hle) with ⟨k, hk⟩ | hw
    · have hop := ha.unread.2 k hk
      have hk0 : k ≠ 0 := fun he => by
        rw [he, ha.zero.1] at hop
        cases hop
      rcases ha.others k (Nat.pos_of_ne_zero hk0) hk.1 hk0 with hun | hr
      · exact absurd hun hk.2.1
      · exact ⟨k, Nat.pos_of_ne_zero hk0, hk.1, hr⟩
    · rw [ha.unread.1] at hw
      cases hw

/-- Its read ends next. -/
theorem onward {s : State} {x last : Nat} (hl : ShortLast inp last) (h : Inv inp s ∧ InScan s) (hpc : s.pc = .test x)
    (hx : x < NBUF) (ha : Around s last 0) (hv : ∀ j, j < NBUF → j ≠ x → Visited inp s j) :
    ∃ s' t, Goes inp s s' ∧ Ready inp s' last t ∧ left inp s' = left inp s := by
  obtain ⟨t, hpos, ht, hop, hio⟩ := exists_reading hl h.1 ha hv
  obtain ⟨s₁, b, hgo₁, hpc₁, -, hacts, hb, hended⟩ := finish h.1 ht (.inl hio)
  have hgo₂ := leave (Goes.inv hgo₁ h).1 (hpc₁.trans hpc) hended
  have hgo := hgo₁.trans hgo₂
  have ha' : Around s last t :=
    ⟨ha.zero, fun j hpos hj _ => ha.others j hpos hj (Nat.ne_of_gt hpos), ha.unread⟩
  have ha₁ : Around s₁ last t := ha'.acts hacts (Nat.ne_of_gt hpos) (Goes.inv hgo₁ h).1 (fun _ => ⟨ht, hb.trans hop⟩)
  refine ⟨_, t, hgo, ⟨Goes.inv hgo h, ⟨(x + 1) % NBUF, Nat.mod_lt _ (by decide), next_eq hx⟩, hpos, hended.of_eq rfl,
    ?_, ⟨ha₁.zero, ha₁.others, ha₁.unread⟩⟩, ?_⟩
  · show (s₁.bufs t).op = .readPending
    rw [hacts.self, hb, hop]
  · have hleft : left inp s₁ + reads (s.bufs t) = left inp s + reads b := hacts.left ht
    unfold reads at hleft
    rw [hb] at hleft
    exact Nat.add_right_cancel hleft

/-- The scan reaches the buffer, and its block is reaped. -/
theorem Ready.reap {s : State} {last t : Nat} (h : Ready inp s last t) :
    ∃ s', Goes inp s s' ∧ s'.pc = .test t ∧ s'.n = blockLen inp (s'.bufs t).aioOffset ∧
      (s'.bufs t).op = .writePending ∧ (s'.bufs t).io = .writing ∧ s'.bufs 0 = s.bufs 0 ∧
      (∀ j, j < NBUF → j ≠ 0 → Still (s'.bufs j)) ∧ ((s'.bufs t).aioOffset ≠ last → Around s' last t) ∧
      left inp s' < left inp s := by
  obtain ⟨i, hi, hpc⟩ := h.pc
  have ht := h.ended.lt
  have ht0 : t ≠ 0 := Nat.ne_of_gt h.pos
  have hd : (i + (t + NBUF - i) % NBUF) % NBUF = t := by
    unfold NBUF at *
    omega
  obtain ⟨s₁, hgo₁, hpc₁, hp, -⟩ := advance ((t + NBUF - i) % NBUF) h.inv hpc hi (Nat.mod_lt _ (by decide)) hd
    h.ended (fun j hj hjt => h.around.still hj hjt)
  have hinv₁ := Goes.inv hgo₁ h.inv
  have ha₁ := h.around.past hp
  have hop₁ : (s₁.bufs t).op = .readPending := by rw [hp.same t h.ended.op, h.op]
  obtain ⟨s₂, b, hgo₂, hpc₂, hn, hacts, hb, hio⟩ := Ch14Async.reap hinv₁.1 hpc₁
    (h.ended.of_eq (hp.same t h.ended.op)) hop₁
  have hgo := hgo₁.trans hgo₂
  have h0 : s₂.bufs 0 = s₁.bufs 0 := hacts.other (Ne.symm ht0)
  refine ⟨s₂, hgo, hpc₂, by rw [hacts.self, hacts.offset]; exact hn, by rw [hacts.self]; exact hb,
    by rw [hacts.self]; exact hio, h0.trans (hp.same 0 (by rw [h.around.zero.1]; decide)), fun j hj hj0 => ?_,
    fun hlast => ha₁.acts hacts ht0 (Goes.inv hgo h.inv).1 (fun he => ?_), ?_⟩
  · by_cases hjt : j = t
    · subst hjt
      rw [hacts.self]
      exact .inr (.inr hio)
    · rw [hacts.other hjt]
      exact ha₁.still hj hjt
  · rw [hacts.self, hacts.offset] at hlast
    exact absurd he hlast
  · have hl₁ := hp.left_le hinv₁.1
    have hl₂ : left inp s₂ + reads (s₁.bufs t) = left inp s₁ + reads b := hacts.left ht
    simp only [reads, hop₁, hb, if_true, reduceCtorEq, if_false] at hl₂
    omega

/-- The block of a buffer is written while the scan goes once around, and the write is reaped. -/
theorem Around.write {s : State} {last t : Nat} (ha : Around s last t) (h : Inv inp s ∧ InScan s) (hpc : s.pc = .test t)
    (hpos : 0 < t) (ht : t < NBUF) (hop : (s.bufs t).op = .writePending) (hio : (s.bufs t).io = .writing)
    (hn : s.n = blockLen inp (s.bufs t).aioOffset) (hlast : (s.bufs t).aioOffset ≠ last) :
    ∃ s', Goes inp s s' ∧ s'.pc = .test t ∧ Around s' last 0 ∧ (∀ j, j < NBUF → j ≠ t → Visited inp s' j) ∧
      left inp s' ≤ left inp s := by
  have ht0 : t ≠ 0 := Nat.ne_of_gt hpos
  obtain ⟨s₁, b₁, hgo₁, hpc₁, hn₁, hacts₁, hb₁, hended₁⟩ := finish h.1 ht (.inr hio)
  have hinv₁ := Goes.inv hgo₁ h
  have ha₁ := ha.acts hacts₁ ht0 hinv₁.1 (fun he => absurd he hlast)
  have hgo₂ := leave hinv₁.1 (hpc₁.trans hpc) hended₁
  rw [next_eq ht] at hgo₂
  have ha₂ : Around { s₁ with pc := .scan ((t + 1) % NBUF) } last t := ⟨ha₁.zero, ha₁.others, ha₁.unread⟩
  -- once around
  have hd : ((t + 1) % NBUF + 7) % NBUF = t := by
    unfold NBUF at *
    omega
  obtain ⟨s₃, hgo₃, hpc₃, hp, hv⟩ := advance 7 (Goes.inv (hgo₁.trans hgo₂) h) rfl (Nat.mod_lt _ (by decide)) (by decide)
    hd (hended₁.of_eq rfl) (fun j hj hjt => ha₂.still hj hjt)
  have hgo₁₃ := (hgo₁.trans hgo₂).trans hgo₃
  have hinv₃ := Goes.inv hgo₁₃ h
  have hb₃ : s₃.bufs t = b₁ := (hp.same t hended₁.op).trans hacts₁.self
  have hop₃ : (s₃.bufs t).op = .writePending := by rw [hb₃, hb₁, hop]
  have hoff₃ : (s₃.bufs t).aioOffset = (s.bufs t).aioOffset := by rw [hb₃, hacts₁.offset]
  have hn₃ : s₃.n = blockLen inp (s₃.bufs t).aioOffset := by
    rw [hoff₃, ← hn, ← hn₁]
    exact hp.n
  obtain ⟨s₄, b₄, hgo₄, hpc₄, hacts₄, hb₄⟩ := release hinv₃.1 hpc₃ (hended₁.of_eq (hp.same t hended₁.op)) hop₃ hn₃
  have hgo := hgo₁₃.trans hgo₄
  have ha₄ := (ha₂.past hp).acts hacts₄ ht0 (Goes.inv hgo h).1 (fun he => absurd (hoff₃.symm.trans he) hlast)
  refine ⟨s₄, hgo, hpc₄, ha₄.all (by rw [hacts₄.self, hb₄]) 0, fun j hj hjt => ?_, ?_⟩
  · obtain ⟨k, hk, he⟩ : ∃ k, k < 7 ∧ ((t + 1) % NBUF + k) % NBUF = j := by
      refine ⟨(j + NBUF - (t + 1) % NBUF) % NBUF, ?_, ?_⟩ <;>
      · unfold NBUF at *
        omega
    have hvj := hv k hk
    rw [he] at hvj
    unfold Visited at hvj ⊢
    rw [hacts₄.other hjt, hacts₄.off]
    exact hvj
  · have hl₁ : left inp s₁ + reads (s.bufs t) = left inp s + reads b₁ := hacts₁.left ht
    have hl₃ : left inp s₃ ≤ left inp s₁ := hp.left_le hinv₃.1
    have hl₄ : left inp s₄ + reads (s₃.bufs t) = left inp s₃ + reads b₄ := hacts₄.left ht
    simp only [reads, hop, hb₁, hop₃, hb₄, reduceCtorEq, if_false] at hl₁ hl₄
    omega

/-- **A round**: the block is reaped, written and its write reaped, then the next read ends; unless it is the last
block, and the program gives up. -/
theorem Ready.round {s : State} {last t : Nat} (hl : ShortLast inp last) (h : Ready inp s last t) :
    (∃ s', Goes inp s s' ∧ ¬ Quiet s') ∨
      ∃ s' t', Goes inp s s' ∧ Ready inp s' last t' ∧ left inp s' < left inp s := by
  have ht := h.ended.lt
  obtain ⟨s₁, hgo₁, hpc₁, hn₁, hop₁, hio₁, h0, hstill, ha₁, hl₁⟩ := h.reap
  have hinv₁ := Goes.inv hgo₁ h.inv
  by_cases hlast : (s₁.bufs t).aioOffset = last
  · left
    have hn : s₁.n ≠ blockLen inp 0 := by
      rw [hn₁, hlast]
      exact_mod_cast hl.len
    obtain ⟨s', hgo', hquiet⟩ := caught hinv₁ hpc₁ ht hn (by rw [h0]; exact h.around.zero) hstill
    exact ⟨s', hgo₁.trans hgo', hquiet⟩
  · right
    obtain ⟨s₂, hgo₂, hpc₂, ha₂, hv, hl₂⟩ := (ha₁ hlast).write hinv₁ hpc₁ h.pos ht hop₁ hio₁ hn₁ hlast
    have hgo := hgo₁.trans hgo₂
    obtain ⟨s₃, t', hgo₃, hready, hl₃⟩ := onward hl (Goes.inv hgo h.inv) hpc₂ ht ha₂ hv
    exact ⟨s₃, t', hgo.trans hgo₃, hready, by omega⟩

/-- **The program gives up**, by induction on what is left to do. -/
theorem Ready.gives_up {last : Nat} (hl : ShortLast inp last) (m : Nat) : ∀ {s : State} {t : Nat},
    left inp s = m → Ready inp s last t → ∃ s', Goes inp s s' ∧ ¬ Quiet s' := by
  induction m using Nat.strong_induction_on with
  | _ m ih =>
    intro s t hm h
    rcases h.round hl with hend | ⟨s', t', hgo, hready, hlt⟩
    · exact hend
    · obtain ⟨s'', hgo', hquiet⟩ := ih (left inp s') (hm ▸ hlt) rfl hready
      exact ⟨s'', hgo.trans hgo', hquiet⟩

theorem first_read (h : 0 < inp.size) (n : Int) :
    ∃ s, Goes inp (init n) s ∧ s.pc = .test 0 ∧ (s.bufs 0).op = .readPending ∧ (s.bufs 0).io = .reading ∧
      (s.bufs 0).aioOffset = 0 ∧ (∀ j, j ≠ 0 → (s.bufs j).op = .unused) ∧ s.written = [] := by
  have hmain : mainStep inp (init n) .all = some (scanUnused inp (init n) 0 .all) := rfl
  unfold scanUnused at hmain
  rw [if_pos (show (init n).off < inp.size from h)] at hmain
  simp only [Calls.all, if_true] at hmain
  refine ⟨_, main_go hmain, rfl, ?_, ?_, ?_, fun j hj => ?_, rfl⟩
  · simp only [Function.update_self]
  · simp only [Function.update_self]
  · simp only [Function.update_self]
    rfl
  · simp only [Function.update_of_ne hj]
    rfl

/-- The first block is read and reaped, the other buffers have taken blocks, and the read of one of them ends. -/
theorem starts {last : Nat} (hl : ShortLast inp last) (n : Int) :
    ∃ s t, Goes inp (init n) s ∧ Ready inp s last t := by
  have hinv₀ : Inv inp (init n) ∧ InScan (init n) := ⟨inv_init inp n, show 0 < NBUF by decide⟩
  obtain ⟨s₁, hgo₁, hpc₁, hop₁, hio₁, hoff₁, hunused₁, hwritten₁⟩ := first_read (Nat.lt_trans hl.pos hl.lt) n
  have hinv₁ := Goes.inv hgo₁ hinv₀
  obtain ⟨s₂, b, hgo₂, hpc₂, -, hacts₂, hb, hended₂⟩ := finish hinv₁.1 (show 0 < NBUF by decide) (.inl hio₁)
  have hinv₂ := Goes.inv hgo₂ hinv₁
  have hgo₃ := leave hinv₂.1 (hpc₂.trans hpc₁) hended₂
  rw [next_eq (show 0 < NBUF by decide)] at hgo₃
  have hunused : ∀ j, j ≠ 0 → (s₂.bufs j).op = .unused := fun j hj => by
    rw [hacts₂.other hj]
    exact hunused₁ j hj
  -- once around, and the first block is reaped
  have hd : ((0 + 1) % NBUF + 7) % NBUF = 0 := rfl
  obtain ⟨s₄, hgo₄, hpc₄, hp, hv⟩ := advance 7 (Goes.inv hgo₃ hinv₂) rfl (Nat.mod_lt _ (by decide)) (by decide) hd
    (hended₂.of_eq rfl) (fun j _ hj => .inl (hunused j hj))
  have hinv₄ := Goes.inv (hgo₃.trans hgo₄) hinv₂
  have hb₄ : s₄.bufs 0 = b := (hp.same 0 hended₂.op).trans hacts₂.self
  obtain ⟨s₅, b₅, hgo₅, hpc₅, -, hacts₅, hb₅, hio₅⟩ := reap hinv₄.1 hpc₄ (hended₂.of_eq (hp.same 0 hended₂.op))
    (by rw [hb₄, hb, hop₁])
  have hoff₅ : b₅.aioOffset = 0 := by rw [hacts₅.offset, hb₄, hacts₂.offset, hoff₁]
  have hothers : ∀ j, j ≠ 0 → (s₅.bufs j).op = .unused ∨ (s₅.bufs j).op = .readPending ∧ (s₅.bufs j).io = .reading :=
    fun j hj => by
      rw [hacts₅.other hj]
      rcases hp.taken j (hunused j hj) with he | ⟨hr, -⟩
      · left
        rw [he]
        exact hunused j hj
      · exact .inr hr
  have hwrites : writes s₅ last = 0 := by
    have hne : last ≠ 0 := Nat.ne_of_gt hl.pos
    rw [hacts₅.writes last (by rw [← hacts₅.offset, hoff₅]; exact hne)]
    unfold writes
    rw [hp.written]
    refine (hacts₂.writes last (by rw [hoff₁]; exact hne)).trans ?_
    unfold writes
    rw [hwritten₁]
    rfl
  have ha : Around s₅ last 0 := by
    refine ⟨by rw [hacts₅.self]; exact ⟨hb₅, hio₅, hoff₅⟩, fun j hpos _ _ => hothers j (Nat.ne_of_gt hpos), hwrites,
      fun j hj => ?_⟩
    by_cases hj0 : j = 0
    · subst hj0
      have he := hj.2.2
      rw [hacts₅.self, hoff₅] at he
      exact absurd he (Nat.ne_of_lt hl.pos)
    · rcases hothers j hj0 with hun | hr
      · exact absurd hun hj.2.1
      · exact hr.1
  have hgo := ((hgo₁.trans hgo₂).trans (hgo₃.trans hgo₄)).trans hgo₅
  obtain ⟨s₆, t, hgo₆, hready, -⟩ := onward hl (Goes.inv hgo hinv₀) hpc₅ (by decide) ha (fun j hj hj0 => by
    obtain ⟨k, rfl⟩ := Nat.exists_eq_succ_of_ne_zero hj0
    have hvk := hv k (Nat.lt_of_succ_lt_succ hj)
    rw [show ((0 + 1) % NBUF + k) % NBUF = k + 1 by unfold NBUF at *; omega] at hvk
    unfold Visited at hvk ⊢
    rw [hacts₅.other hj0, hacts₅.off]
    exact hvk)
  exact ⟨s₆, t, hgo.trans hgo₆, hready⟩

/-- **When `ch14_async` gives up.**  Of the runs in which the operations succeed in full, in any order, those and only
those end without a complaint in which, at each test of a write, the block reaped last is as long as the block written.
All runs on a file do exactly when its blocks have one length. -/
theorem async_alarms (inp : Input) :
    (∀ (n : Int) (acts : List Act) (s : State), run (restrict (inFull inp) (step inp)) acts (init n) = some s →
      (Quiet s ↔
        run (restrict (fun s a => inFull inp s a && sameLength inp s a) (step inp)) acts (init n) = some s)) ∧
    ((∀ (n : Int) (acts : List Act) (s : State),
        run (restrict (inFull inp) (step inp)) acts (init n) = some s → Quiet s) ↔
      inp.size ≤ BSZ ∨ inp.size % BSZ = 0) := by
  refine ⟨fun n acts s h => run_quiet_iff h, fun hall => ?_, fun heven n acts s h => run_quiet_of_even heven h⟩
  by_contra hodd
  obtain ⟨s, t, hgo, hready⟩ := starts (shortLast hodd) 0
  obtain ⟨s', hgo', hquiet⟩ := hready.gives_up (shortLast hodd) _ rfl
  obtain ⟨acts, hrun⟩ := hgo.trans hgo'
  exact hquiet (hall 0 acts s' hrun)

theorem async_alarms_firstWritten :
    ∃ s, run (restrict (inFull twoBlocks) (step twoBlocks)) firstWritten (init 0) = some s ∧
      (Quiet s ↔ run (restrict (fun s a => inFull twoBlocks s a && sameLength twoBlocks s a) (step twoBlocks))
        firstWritten (init 0) = some s) :=
  ⟨_, rfl, (async_alarms twoBlocks).1 0 firstWritten _ rfl⟩

/-- The second block is read and reaped before the first has been written. -/
def bothReaped : List Act :=
  firstReaped ++ [.complete 1 0 1, scan, scan, scan, .complete 0 0 BSZ, scan, scan] ++ idleTurns ++ [scan]

/-- **A write in full is taken for a short one** when the last block is shorter and has been reaped before it. -/
theorem async_bothReaped :
    ∃ s, run (restrict (inFull twoBlocks) (step twoBlocks)) bothReaped (init 0) = some s ∧
      s.pc = .ended (.errQuit "short write" 1) ∧ (s.bufs 0).io = .done 0 BSZ ∧ (s.bufs 0).aioNbytes = BSZ ∧
      ¬ Quiet s :=
  ⟨_, rfl, rfl, rfl, rfl, fun h => (by cases h _ rfl)⟩

end Ch14Async
end Cc
