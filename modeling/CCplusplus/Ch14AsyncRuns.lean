import CCplusplus.Ch14Async
import Mathlib.Data.List.Range
/-!
# Ch14AsyncRuns — where every block of the file is

Each block of the input below `off` is held by one buffer, as it was read or translated, or has been written once,
translated once (`Inv`).  Every step in which the operations succeed in full keeps it, in whatever order they end.
-/
namespace Cc
namespace Ch14Async

open CLib

/-- How often the block at an offset has been written. -/
def writes (s : State) (offset : Nat) : Nat := s.written.countP (fun w => w.offset == offset)

/-- The data hold the block at an offset, each byte as `f` makes it. -/
def Block (inp : Input) (f : UInt8 → UInt8) (offset : Nat) (data : Nat → UInt8) : Prop :=
  ∀ k, k < blockLen inp offset → data k = f (inp.byte (offset + k))

/-- A buffer in its place in the round, for its block. -/
def Stage (inp : Input) (s : State) (b : Buf) : Prop :=
  match b.op with
  | .unused => b.io ≠ .reading ∧ b.io ≠ .writing
  | .readPending =>
    b.aioNbytes = BSZ ∧ (inp.size ≤ b.aioOffset + BSZ → b.last = true) ∧ writes s b.aioOffset = 0 ∧
    (b.io = .reading ∨ b.io = .done 0 (blockLen inp b.aioOffset) ∧ Block inp id b.aioOffset b.data)
  | .writePending =>
    b.aioNbytes = blockLen inp b.aioOffset ∧ Block inp translate b.aioOffset b.data ∧
    (b.io = .writing ∧ writes s b.aioOffset = 0 ∨
      b.io = .done 0 (blockLen inp b.aioOffset) ∧ writes s b.aioOffset = 1)

/-- Buffer `i` holds the block at an offset. -/
def Holds (s : State) (i offset : Nat) : Prop :=
  i < NBUF ∧ (s.bufs i).op ≠ .unused ∧ (s.bufs i).aioOffset = offset

/-- The offset of a block of the file that has been scheduled. -/
def IsBlock (inp : Input) (s : State) (offset : Nat) : Prop := offset % BSZ = 0 ∧ offset < s.off ∧ offset < inp.size

structure Inv (inp : Input) (s : State) : Prop where
  numop : s.numop = ((List.range NBUF).countP (fun i => (s.bufs i).op != .unused) : Nat)
  aiolist : ∀ i, i < NBUF → s.aiolist i = if (s.bufs i).op = .unused then none else some i
  held : ∀ i offset, Holds s i offset → IsBlock inp s offset
  stage : ∀ i, i < NBUF → Stage inp s (s.bufs i)
  alone : ∀ i j offset, Holds s i offset → Holds s j offset → i = j
  off : s.off % BSZ = 0 ∧ s.off < inp.size + BSZ
  ahead : ∀ offset, s.off ≤ offset → writes s offset = 0
  covered : ∀ offset, offset % BSZ = 0 → offset < s.off → (∃ i, Holds s i offset) ∨ writes s offset = 1
  written : ∀ w ∈ s.written, IsBlock inp s w.offset ∧ w.count = blockLen inp w.offset ∧
    Block inp translate w.offset w.data

theorem inv_init (inp : Input) (n : Int) : Inv inp (init n) where
  numop := rfl
  aiolist := fun _ _ => rfl
  held := fun _ _ h => absurd rfl h.2.1
  stage := fun _ _ => ⟨Io.noConfusion, Io.noConfusion⟩
  alone := fun _ _ _ h _ => absurd rfl h.2.1
  off := ⟨rfl, Nat.lt_of_lt_of_le (show 0 < BSZ by decide) (Nat.le_add_left _ _)⟩
  ahead := fun _ _ => rfl
  covered := fun _ _ h => absurd h (Nat.not_lt_zero _)
  written := fun _ h => (by cases h)

/-- The program counter and `n` are no part of it. -/
theorem Inv.of_same {inp : Input} {s s' : State} (h : Inv inp s) (hb : s'.bufs = s.bufs) (ha : s'.aiolist = s.aiolist)
    (hn : s'.numop = s.numop) (ho : s'.off = s.off) (hw : s'.written = s.written) : Inv inp s' := by
  obtain ⟨pc, bufs, aiolist, numop, n, off, written, reaped⟩ := s
  obtain ⟨pc', bufs', aiolist', numop', n', off', written', reaped'⟩ := s'
  simp only at hb ha hn ho hw
  subst hb ha hn ho hw
  exact ⟨h.numop, h.aiolist, h.held, h.stage, h.alone, h.off, h.ahead, h.covered, h.written⟩

/-! ## One buffer changes -/

/-- A count over a range, where one entry changes. -/
theorem countP_range_update {n i : Nat} (hi : i < n) {p q : Nat → Bool} (h : ∀ j, j ≠ i → q j = p j) :
    (List.range n).countP q + (p i).toNat = (List.range n).countP p + (q i).toNat := by
  have hone : ∀ (r : Nat → Bool) (m : Nat), (List.range (m + 1)).countP r = (List.range m).countP r + (r m).toNat := by
    intro r m
    rw [List.range_succ, List.countP_append]
    cases hr : r m with
    | true => simp [hr]
    | false => simp [hr]
  induction n with
  | zero => exact absurd hi (Nat.not_lt_zero _)
  | succ n ih =>
    rw [hone, hone]
    by_cases he : i = n
    · subst he
      have hsame : (List.range i).countP q = (List.range i).countP p :=
        List.countP_congr (fun j hj => by rw [h j (Nat.ne_of_lt (List.mem_range.1 hj))])
      omega
    · have := ih (by omega)
      rw [h n (Ne.symm he)]
      omega

theorem Stage.congr {inp : Input} {s s' : State} {b : Buf} (h : Stage inp s b)
    (hw : b.op ≠ .unused → writes s' b.aioOffset = writes s b.aioOffset) : Stage inp s' b := by
  unfold Stage at h ⊢
  cases hop : b.op with
  | unused =>
    rw [hop] at h
    exact h
  | readPending =>
    rw [hop] at h
    rw [hw (by rw [hop]; decide)]
    exact h
  | writePending =>
    rw [hop] at h
    rw [hw (by rw [hop]; decide)]
    exact h

theorem writes_congr {s s' : State} (hw : s'.written = s.written) (offset : Nat) :
    writes s' offset = writes s offset := by
  unfold writes
  rw [hw]

section Update

variable {inp : Input} {s s' : State} {i : Nat} {b : Buf}

theorem bufs_other (hb : s'.bufs = Function.update s.bufs i b) (j : Nat) (hj : j ≠ i) : s'.bufs j = s.bufs j := by
  rw [hb, Function.update_of_ne hj]

theorem Inv.aiolist_update (h : Inv inp s) (hb : s'.bufs = Function.update s.bufs i b) {o : Option Nat}
    (ha : s'.aiolist = Function.update s.aiolist i o) (ho : o = if b.op = .unused then none else some i) (j : Nat)
    (hj : j < NBUF) : s'.aiolist j = if (s'.bufs j).op = .unused then none else some j := by
  rw [ha]
  by_cases hji : j = i
  · subst hji
    rw [Function.update_self, hb, Function.update_self, ho]
  · rw [Function.update_of_ne hji, bufs_other hb j hji]
    exact h.aiolist j hj

theorem Inv.stage_update (h : Inv inp s) (hb : s'.bufs = Function.update s.bufs i b) (hstage : Stage inp s' b)
    (hwrites : ∀ j, j < NBUF → j ≠ i → (s.bufs j).op ≠ .unused →
      writes s' (s.bufs j).aioOffset = writes s (s.bufs j).aioOffset) (j : Nat) (hj : j < NBUF) :
    Stage inp s' (s'.bufs j) := by
  by_cases hji : j = i
  · subst hji
    rw [hb, Function.update_self]
    exact hstage
  · rw [bufs_other hb j hji]
    exact (h.stage j hj).congr (hwrites j hj hji)

end Update

/-- Buffer `i` goes on with the block it holds: the same offset, another stage. -/
theorem Inv.go_on {inp : Input} {s s' : State} (h : Inv inp s) {i : Nat} (hi : i < NBUF) {b : Buf}
    (hb : s'.bufs = Function.update s.bufs i b) (hop : (s.bufs i).op ≠ .unused) (hop' : b.op ≠ .unused)
    (hoff : b.aioOffset = (s.bufs i).aioOffset) (ha : s'.aiolist = s.aiolist) (hn : s'.numop = s.numop)
    (ho : s'.off = s.off) (hstage : Stage inp s' b)
    (hwrites : ∀ offset, offset ≠ (s.bufs i).aioOffset → writes s' offset = writes s offset)
    (hwritten : ∀ w ∈ s'.written, IsBlock inp s w.offset ∧ w.count = blockLen inp w.offset ∧
      Block inp translate w.offset w.data) : Inv inp s' := by
  have hat : s'.bufs i = b := by rw [hb, Function.update_self]
  have hne := bufs_other hb
  have hholds : ∀ j offset, Holds s' j offset ↔ Holds s j offset := by
    intro j offset
    unfold Holds
    by_cases hj : j = i
    · subst hj
      rw [hat, hoff]
      exact ⟨fun h => ⟨h.1, hop, h.2.2⟩, fun h => ⟨h.1, hop', h.2.2⟩⟩
    · rw [hne j hj]
  have hblock : ∀ offset, IsBlock inp s' offset ↔ IsBlock inp s offset := fun offset => by
    unfold IsBlock
    rw [ho]
  have hmine : Holds s i (s.bufs i).aioOffset := ⟨hi, hop, rfl⟩
  constructor
  · have hops : ∀ j, ((s'.bufs j).op != .unused) = ((s.bufs j).op != .unused) := by
      intro j
      by_cases hj : j = i
      · subst hj
        rw [hat, bne_iff_ne.2 hop, bne_iff_ne.2 hop']
      · rw [hne j hj]
    rw [hn, h.numop]
    simp only [hops]
  · intro j hj
    rw [ha, h.aiolist j hj]
    by_cases hji : j = i
    · subst hji
      rw [hat, if_neg hop, if_neg hop']
    · rw [hne j hji]
  · intro j offset hj
    exact (hblock offset).2 (h.held j offset ((hholds j offset).1 hj))
  · refine h.stage_update hb hstage (fun j hj hji hopj => ?_)
    exact hwrites _ (fun he => hji (h.alone j i _ ⟨hj, hopj, rfl⟩ (he ▸ hmine)))
  · intro j k offset hj hk
    exact h.alone j k offset ((hholds j offset).1 hj) ((hholds k offset).1 hk)
  · rw [ho]
    exact h.off
  · intro offset hle
    rw [ho] at hle
    have hlt := (h.held i _ hmine).2.1
    rw [hwrites offset (by omega)]
    exact h.ahead offset hle
  · intro offset hm hlt
    rw [ho] at hlt
    by_cases he : offset = (s.bufs i).aioOffset
    · subst he
      exact .inl ⟨i, (hholds i _).2 hmine⟩
    · rw [hwrites offset he]
      rcases h.covered offset hm hlt with ⟨j, hj⟩ | hw
      · exact .inl ⟨j, (hholds j offset).2 hj⟩
      · exact .inr hw
  · intro w hw
    obtain ⟨h1, h2⟩ := hwritten w hw
    exact ⟨(hblock _).2 h1, h2⟩

/-- An unused buffer takes the next block. -/
theorem Inv.take {inp : Input} {s s' : State} (h : Inv inp s) {i : Nat} (hi : i < NBUF) {b : Buf}
    (hb : s'.bufs = Function.update s.bufs i b) (hop : (s.bufs i).op = .unused) (hlt : s.off < inp.size)
    (hop' : b.op = .readPending) (hboff : b.aioOffset = s.off) (ha : s'.aiolist = Function.update s.aiolist i (some i))
    (hn : s'.numop = s.numop + 1) (ho : s'.off = s.off + BSZ) (hw : s'.written = s.written)
    (hstage : Stage inp s' b) : Inv inp s' := by
  have hat : s'.bufs i = b := by rw [hb, Function.update_self]
  have hne := bufs_other hb
  have hwrites := writes_congr hw
  have hpos : 0 < BSZ := by decide
  have hholds : ∀ j offset, Holds s' j offset → j = i ∧ offset = s.off ∨ j ≠ i ∧ Holds s j offset := by
    intro j offset hj
    by_cases hji : j = i
    · subst hji
      obtain ⟨-, -, he⟩ := hj
      rw [hat, hboff] at he
      exact .inl ⟨rfl, he.symm⟩
    · refine .inr ⟨hji, hj.1, ?_, ?_⟩
      · rw [← hne j hji]
        exact hj.2.1
      · rw [← hne j hji]
        exact hj.2.2
  have hmine : Holds s' i s.off := ⟨hi, by rw [hat, hop']; decide, by rw [hat, hboff]⟩
  have hblock : ∀ offset, IsBlock inp s offset → IsBlock inp s' offset := fun offset hbl =>
    ⟨hbl.1, by rw [ho]; exact Nat.lt_add_right _ hbl.2.1, hbl.2.2⟩
  constructor
  · have hcount := countP_range_update hi (p := fun j => (s.bufs j).op != .unused)
      (q := fun j => (s'.bufs j).op != .unused) (fun j hj => by rw [hne j hj])
    have hp : ((s.bufs i).op != .unused) = false := by rw [hop]; rfl
    have hq : ((s'.bufs i).op != .unused) = true := by rw [hat, hop']; rfl
    simp only [hp, hq, Bool.toNat_false, Bool.toNat_true] at hcount
    rw [hn, h.numop]
    omega
  · exact h.aiolist_update hb ha (by rw [hop', if_neg (by decide)])
  · intro j offset hj
    rcases hholds j offset hj with ⟨-, rfl⟩ | ⟨-, hj⟩
    · exact ⟨h.off.1, by rw [ho]; exact Nat.lt_add_of_pos_right hpos, hlt⟩
    · exact hblock offset (h.held j offset hj)
  · exact h.stage_update hb hstage (fun _ _ _ _ => hwrites _)
  · intro j k offset hj hk
    rcases hholds j offset hj with ⟨rfl, rfl⟩ | ⟨hji, hj⟩
    · rcases hholds k s.off hk with ⟨rfl, -⟩ | ⟨-, hk⟩
      · rfl
      · exact absurd (h.held k _ hk).2.1 (Nat.lt_irrefl _)
    · rcases hholds k offset hk with ⟨rfl, rfl⟩ | ⟨-, hk⟩
      · exact absurd (h.held j _ hj).2.1 (Nat.lt_irrefl _)
      · exact h.alone j k offset hj hk
  · rw [ho]
    constructor
    · rw [Nat.add_mod_right]
      exact h.off.1
    · exact Nat.add_lt_add_right hlt _
  · intro offset hle
    rw [ho] at hle
    rw [hwrites]
    exact h.ahead offset (Nat.le_trans (Nat.le_add_right _ _) hle)
  · intro offset hm hlt'
    rw [ho] at hlt'
    by_cases hoff : offset < s.off
    · rw [hwrites]
      rcases h.covered offset hm hoff with ⟨j, hj⟩ | hw'
      · have hji : j ≠ i := fun he => hj.2.1 (he ▸ hop)
        exact .inl ⟨j, hj.1, by rw [hne j hji]; exact hj.2.1, by rw [hne j hji]; exact hj.2.2⟩
      · exact .inr hw'
    · -- the only block from `off` to `off + BSZ`
      have he : offset = s.off := by
        have h1 := Nat.div_add_mod offset BSZ
        have h2 := Nat.div_add_mod s.off BSZ
        have h3 := h.off.1
        unfold BSZ at *
        omega
      exact .inl ⟨i, he ▸ hmine⟩
  · intro w hw'
    rw [hw] at hw'
    obtain ⟨h1, h2⟩ := h.written w hw'
    exact ⟨hblock _ h1, h2⟩

/-- A buffer whose block has been written is unused again. -/
theorem Inv.drop {inp : Input} {s s' : State} (h : Inv inp s) {i : Nat} (hi : i < NBUF) {b : Buf}
    (hb : s'.bufs = Function.update s.bufs i b) (hop : (s.bufs i).op ≠ .unused)
    (hdone : writes s (s.bufs i).aioOffset = 1) (hop' : b.op = .unused)
    (ha : s'.aiolist = Function.update s.aiolist i none) (hn : s'.numop = s.numop - 1) (ho : s'.off = s.off)
    (hw : s'.written = s.written) (hstage : Stage inp s' b) : Inv inp s' := by
  have hat : s'.bufs i = b := by rw [hb, Function.update_self]
  have hne := bufs_other hb
  have hwrites := writes_congr hw
  have hholds : ∀ j offset, Holds s' j offset ↔ j ≠ i ∧ Holds s j offset := by
    intro j offset
    unfold Holds
    by_cases hji : j = i
    · subst hji
      rw [hat, hop']
      exact ⟨fun h => absurd rfl h.2.1, fun h => absurd rfl h.1⟩
    · rw [hne j hji]
      exact ⟨fun h => ⟨hji, h⟩, fun h => h.2⟩
  have hblock : ∀ offset, IsBlock inp s' offset ↔ IsBlock inp s offset := fun offset => by
    unfold IsBlock
    rw [ho]
  constructor
  · have hcount := countP_range_update hi (p := fun j => (s.bufs j).op != .unused)
      (q := fun j => (s'.bufs j).op != .unused) (fun j hj => by rw [hne j hj])
    have hp : ((s.bufs i).op != .unused) = true := bne_iff_ne.2 hop
    have hq : ((s'.bufs i).op != .unused) = false := by rw [hat, hop']; rfl
    simp only [hp, hq, Bool.toNat_false, Bool.toNat_true] at hcount
    rw [hn, h.numop]
    omega
  · exact h.aiolist_update hb ha (by rw [hop', if_pos rfl])
  · intro j offset hj
    exact (hblock offset).2 (h.held j offset ((hholds j offset).1 hj).2)
  · exact h.stage_update hb hstage (fun _ _ _ _ => hwrites _)
  · intro j k offset hj hk
    exact h.alone j k offset ((hholds j offset).1 hj).2 ((hholds k offset).1 hk).2
  · rw [ho]
    exact h.off
  · intro offset hle
    rw [ho] at hle
    rw [hwrites]
    exact h.ahead offset hle
  · intro offset hm hlt
    rw [ho] at hlt
    rw [hwrites]
    by_cases he : offset = (s.bufs i).aioOffset
    · right
      rw [he]
      exact hdone
    · rcases h.covered offset hm hlt with ⟨j, hj⟩ | hw'
      · have hji : j ≠ i := fun hji => he (hji ▸ hj.2.2).symm
        exact .inl ⟨j, (hholds j offset).2 ⟨hji, hj⟩⟩
      · exact .inr hw'
  · intro w hw'
    rw [hw] at hw'
    obtain ⟨h1, h2⟩ := h.written w hw'
    exact ⟨(hblock _).2 h1, h2⟩

/-! ## The steps -/

theorem Stage.op_of_reading {inp : Input} {s : State} {b : Buf} (h : Stage inp s b) (hio : b.io = .reading) :
    b.op = .readPending := by
  unfold Stage at h
  cases hop : b.op with
  | unused =>
    rw [hop] at h
    exact absurd hio h.1
  | readPending => rfl
  | writePending =>
    rw [hop, hio] at h
    obtain ⟨-, -, ⟨h, -⟩ | ⟨h, -⟩⟩ := h
    · cases h
    · cases h

theorem Stage.op_of_writing {inp : Input} {s : State} {b : Buf} (h : Stage inp s b) (hio : b.io = .writing) :
    b.op = .writePending := by
  unfold Stage at h
  cases hop : b.op with
  | unused =>
    rw [hop] at h
    exact absurd hio h.2
  | readPending =>
    rw [hop, hio] at h
    obtain ⟨-, -, -, h | ⟨h, -⟩⟩ := h
    · cases h
    · cases h
  | writePending => rfl

/-- A block shorter than a buffer is the last one. -/
theorem blockLen_short {inp : Input} {offset : Nat} (h : blockLen inp offset ≠ BSZ) : inp.size ≤ offset + BSZ := by
  unfold blockLen at h
  omega

/-- What the READ_PENDING branch finds, where the operations succeed in full. -/
theorem scanRead_cases {inp : Input} {s : State} {i : Nat} (h : Inv inp s) (hi : i < NBUF)
    (hop : (s.bufs i).op = .readPending) :
    (s.bufs i).io = .reading ∧ scanRead s i .all = { s with pc := next i } ∨
    (s.bufs i).io = .done 0 (blockLen inp (s.bufs i).aioOffset) ∧
      scanRead s i .all = { s with
        n := blockLen inp (s.bufs i).aioOffset
        reaped := (s.bufs i).aioOffset :: s.reaped
        bufs := Function.update s.bufs i { (s.bufs i) with
          data := fun j => if (j : Int) < blockLen inp (s.bufs i).aioOffset then translate ((s.bufs i).data j)
            else (s.bufs i).data j
          op := .writePending
          aioFildes := .ofd
          aioNbytes := blockLen inp (s.bufs i).aioOffset
          io := .writing }
        pc := .test i } := by
  have hst := h.stage i hi
  unfold Stage at hst
  rw [hop] at hst
  obtain ⟨-, hlast, -, hio | ⟨hio, -⟩⟩ := hst
  · left
    refine ⟨hio, ?_⟩
    unfold scanRead
    dsimp only
    rw [hio]
    rfl
  · right
    refine ⟨hio, ?_⟩
    unfold scanRead
    simp only [hio, Calls.all, if_pos, ne_eq, not_true_eq_false, if_false]
    have hret : ¬ (true = false ∨ ((blockLen inp (s.bufs i).aioOffset : Nat) : Int) < 0) := by simp
    have hshort : ¬ (¬ ((blockLen inp (s.bufs i).aioOffset : Nat) : Int) = BSZ ∧ (s.bufs i).last = false) := by
      rintro ⟨hn, hl⟩
      rw [hlast (blockLen_short (fun he => hn (by rw [he])))] at hl
      cases hl
    rw [if_neg hret, if_neg hshort]
    rfl

/-- What the WRITE_PENDING branch finds, where the operations succeed in full. -/
theorem scanWrite_cases {inp : Input} {s : State} {i : Nat} (h : Inv inp s) (hi : i < NBUF)
    (hop : (s.bufs i).op = .writePending) :
    (s.bufs i).io = .writing ∧ scanWrite s i .all = { s with pc := next i } ∨
    (s.bufs i).io = .done 0 (blockLen inp (s.bufs i).aioOffset) ∧ writes s (s.bufs i).aioOffset = 1 ∧
      scanWrite s i .all =
        if s.n ≠ blockLen inp (s.bufs i).aioOffset then ending s (.errQuit "short write" s.n)
        else { s with
          aiolist := Function.update s.aiolist i none
          bufs := Function.update s.bufs i { (s.bufs i) with op := .unused }
          numop := s.numop - 1
          pc := .test i } := by
  have hst := h.stage i hi
  unfold Stage at hst
  rw [hop] at hst
  obtain ⟨hn, -, ⟨hio, -⟩ | ⟨hio, hw⟩⟩ := hst
  · left
    refine ⟨hio, ?_⟩
    unfold scanWrite
    dsimp only
    rw [hio]
    rfl
  · right
    refine ⟨hio, hw, ?_⟩
    unfold scanWrite
    simp only [hio, Calls.all, if_pos, ne_eq, not_true_eq_false, if_false, hn]

theorem scan_unused {inp : Input} {s : State} {i : Nat} (hpc : s.pc = .scan i) (hop : (s.bufs i).op = .unused) :
    mainStep inp s .all = some (scanUnused inp s i .all) := by
  unfold mainStep
  rw [hpc]
  dsimp only
  rw [hop]

theorem scan_read {inp : Input} {s : State} {i : Nat} (hpc : s.pc = .scan i) (hop : (s.bufs i).op = .readPending) :
    mainStep inp s .all = some (scanRead s i .all) := by
  unfold mainStep
  rw [hpc]
  dsimp only
  rw [hop]

theorem scan_write {inp : Input} {s : State} {i : Nat} (hpc : s.pc = .scan i) (hop : (s.bufs i).op = .writePending) :
    mainStep inp s .all = some (scanWrite s i .all) := by
  unfold mainStep
  rw [hpc]
  dsimp only
  rw [hop]

/-- **A turn of the `switch`.** -/
theorem scan_inv {inp : Input} {s s' : State} {i : Nat} (h : Inv inp s) (hi : i < NBUF) (hpc : s.pc = .scan i)
    (hs : mainStep inp s .all = some s') : Inv inp s' := by
  cases hop : (s.bufs i).op with
  | unused =>
    rw [scan_unused hpc hop] at hs
    cases hs
    unfold scanUnused
    by_cases hlt : s.off < inp.size
    · simp only [if_pos hlt, Calls.all, if_true]
      refine h.take hi rfl hop hlt rfl rfl rfl rfl rfl rfl ?_
      refine ⟨rfl, fun hle => if_pos hle, h.ahead _ (Nat.le_refl _), .inl rfl⟩
    · rw [if_neg hlt]
      exact h.of_same rfl rfl rfl rfl rfl
  | readPending =>
    rw [scan_read hpc hop] at hs
    cases hs
    have hst := h.stage i hi
    rcases scanRead_cases h hi hop with ⟨-, he⟩ | ⟨hio, he⟩
    · rw [he]
      exact h.of_same rfl rfl rfl rfl rfl
    · rw [he]
      unfold Stage at hst
      rw [hop] at hst
      obtain ⟨-, -, hw, hst⟩ := hst
      have hdata : Block inp id (s.bufs i).aioOffset (s.bufs i).data := by
        rcases hst with hr | ⟨-, hd⟩
        · rw [hr] at hio
          cases hio
        · exact hd
      refine h.go_on hi rfl (by rw [hop]; decide) (by simp) rfl rfl rfl rfl ?_ (fun _ _ => rfl) h.written
      refine ⟨rfl, fun k hk => ?_, .inl ⟨rfl, hw⟩⟩
      simp only
      rw [if_pos (by exact_mod_cast hk), hdata k hk]
      rfl
  | writePending =>
    rw [scan_write hpc hop] at hs
    cases hs
    rcases scanWrite_cases h hi hop with ⟨-, he⟩ | ⟨hio, hw, he⟩
    · rw [he]
      exact h.of_same rfl rfl rfl rfl rfl
    · rw [he]
      split
      · exact h.of_same rfl rfl rfl rfl rfl
      · refine h.drop hi rfl (by rw [hop]; decide) hw rfl rfl rfl rfl rfl ?_
        simp only [Stage, hio]
        exact ⟨Io.noConfusion, Io.noConfusion⟩

theorem countP_written (l : List Written) (w : Written) (offset : Nat) :
    (l ++ [w]).countP (fun w => w.offset == offset) =
      l.countP (fun w => w.offset == offset) + if w.offset = offset then 1 else 0 := by
  rw [List.countP_append]
  by_cases he : w.offset = offset
  · simp [he]
  · simp [he]

/-- **The end of an operation**, in full. -/
theorem complete_inv {inp : Input} {s s' : State} {i count : Nat} {err : Int} (h : Inv inp s) (hi : i < NBUF)
    (hok : inFull inp s (.complete i err count) = true) (hs : completeStep inp s i err count = some s') :
    Inv inp s' := by
  have hst := h.stage i hi
  simp only [inFull] at hok
  unfold completeStep at hs
  cases hio : (s.bufs i).io with
  | idle | done err ret =>
    dsimp only at hs
    rw [hio] at hs
    cases hs
  | reading =>
    rw [hio, Bool.and_eq_true, beq_iff_eq, beq_iff_eq] at hok
    obtain ⟨rfl, hcount⟩ := hok
    dsimp only at hs
    rw [hio] at hs
    have hop := hst.op_of_reading hio
    unfold Stage at hst
    rw [hop] at hst
    obtain ⟨hn, hlast, hw, -⟩ := hst
    have hlen : count = blockLen inp (s.bufs i).aioOffset := by rw [hcount, hn]; rfl
    simp only [ne_eq, not_true_eq_false, if_false] at hs
    rw [if_pos (by omega)] at hs
    cases hs
    refine h.go_on hi rfl (by rw [hop]; decide) (by simp [hop]) rfl rfl rfl rfl ?_ (fun _ _ => rfl) h.written
    unfold Stage
    simp only [hop]
    refine ⟨hn, hlast, hw, .inr ⟨by rw [hlen], fun k hk => ?_⟩⟩
    simp only
    rw [if_pos (by omega)]
    rfl
  | writing =>
    rw [hio, Bool.and_eq_true, beq_iff_eq, beq_iff_eq] at hok
    obtain ⟨rfl, hcount⟩ := hok
    dsimp only at hs
    rw [hio] at hs
    have hop := hst.op_of_writing hio
    unfold Stage at hst
    rw [hop] at hst
    obtain ⟨hn, hdata, hw⟩ := hst
    have hw0 : writes s (s.bufs i).aioOffset = 0 := by
      rcases hw with ⟨-, hw⟩ | ⟨hd, -⟩
      · exact hw
      · rw [hio] at hd
        cases hd
    simp only [ne_eq, not_true_eq_false, if_false] at hs
    rw [if_pos (by omega)] at hs
    cases hs
    refine h.go_on hi rfl (by rw [hop]; decide) (by simp [hop]) rfl rfl rfl rfl ?_ (fun offset hne => ?_) ?_
    · unfold Stage
      simp only [hop]
      refine ⟨hn, hdata, .inr ⟨by rw [hcount, hn], ?_⟩⟩
      refine (countP_written _ _ _).trans ?_
      rw [if_pos rfl]
      exact congrArg (· + 1) hw0
    · refine (countP_written _ _ _).trans ?_
      rw [if_neg (Ne.symm hne)]
      rfl
    · intro w hw'
      rcases List.mem_append.1 hw' with hw' | hw'
      · exact h.written w hw'
      · rw [List.mem_singleton] at hw'
        subst hw'
        exact ⟨h.held i _ ⟨hi, by rw [hop]; decide, rfl⟩, hcount.trans hn, hdata⟩

/-- The scan stays within the buffers. -/
def InScan (s : State) : Prop :=
  match s.pc with
  | .scan i => i < NBUF
  | .test i => i < NBUF
  | .suspend i => i < NBUF
  | _ => True

theorem inScan_next (s : State) (i : Nat) : InScan { s with pc := next i } := by
  unfold InScan next
  by_cases hi : i + 1 < NBUF
  · simp only [if_pos hi]
    exact hi
  · simp only [if_neg hi]
    decide

theorem scan_inScan {inp : Input} {s s' : State} {i : Nat} (h : Inv inp s) (hi : i < NBUF) (hpc : s.pc = .scan i)
    (hs : mainStep inp s .all = some s') : InScan s' := by
  cases hop : (s.bufs i).op with
  | unused =>
    rw [scan_unused hpc hop] at hs
    cases hs
    unfold scanUnused
    by_cases hlt : s.off < inp.size
    · simp only [if_pos hlt, Calls.all, if_true]
      exact hi
    · rw [if_neg hlt]
      exact hi
  | readPending =>
    rw [scan_read hpc hop] at hs
    cases hs
    rcases scanRead_cases h hi hop with ⟨-, he⟩ | ⟨-, he⟩
    · rw [he]
      exact inScan_next s i
    · rw [he]
      exact hi
  | writePending =>
    rw [scan_write hpc hop] at hs
    cases hs
    rcases scanWrite_cases h hi hop with ⟨-, he⟩ | ⟨-, -, he⟩
    · rw [he]
      exact inScan_next s i
    · rw [he]
      split
      · trivial
      · exact hi

/-- A buffer changes and is not waiting for a write afterwards unless it was before. -/
theorem op_of_update {bufs : Nat → Buf} {i j : Nat} {b : Buf} (hb : b.op = .writePending → (bufs i).op = .writePending)
    (h : (Function.update bufs i b j).op = .writePending) : (bufs j).op = .writePending := by
  by_cases hj : j = i
  · subst hj
    rw [Function.update_self] at h
    exact hb h
  · rwa [Function.update_of_ne hj] at h

/-- The end of an operation is no step of `main`. -/
theorem complete_frame {inp : Input} {s s' : State} {i count : Nat} {err : Int}
    (hs : completeStep inp s i err count = some s') :
    s'.pc = s.pc ∧ s'.n = s.n ∧ s'.reaped = s.reaped ∧
    ∀ j, (s'.bufs j).op = .writePending → (s.bufs j).op = .writePending := by
  unfold completeStep at hs
  dsimp only at hs
  repeat' split at hs
  all_goals first
    | cases hs; exact ⟨rfl, rfl, rfl, fun j => op_of_update (fun hb => hb)⟩
    | cases hs

/-- **Every step in which the operations succeed in full.** -/
theorem step_inv {inp : Input} {s s' : State} {a : Act} (h : Inv inp s ∧ InScan s) (hok : inFull inp s a = true)
    (hs : step inp s a = some s') : Inv inp s' ∧ InScan s' := by
  obtain ⟨hinv, hscan⟩ := h
  cases a with
  | complete i err count =>
    simp only [step] at hs
    split at hs
    · rename_i hi
      refine ⟨complete_inv hinv hi hok hs, ?_⟩
      unfold InScan
      rw [(complete_frame hs).1]
      exact hscan
    · cases hs
  | main calls =>
    obtain rfl : calls = .all := by simpa [inFull] using hok
    simp only [step] at hs
    cases hpc : s.pc with
    | scan i =>
      unfold InScan at hscan
      rw [hpc] at hscan
      exact ⟨scan_inv hinv hscan hpc hs, scan_inScan hinv hscan hpc hs⟩
    | test i =>
      unfold InScan at hscan
      rw [hpc] at hscan
      unfold mainStep at hs
      rw [hpc] at hs
      dsimp only at hs
      split at hs
      · split at hs
        · cases hs
          exact ⟨hinv.of_same rfl rfl rfl rfl rfl, show 0 < NBUF by decide⟩
        · cases hs
          exact ⟨hinv.of_same rfl rfl rfl rfl rfl, inScan_next s i⟩
      · cases hs
        exact ⟨hinv.of_same rfl rfl rfl rfl rfl, hscan⟩
    | suspend i =>
      unfold mainStep at hs
      rw [hpc] at hs
      dsimp only at hs
      split at hs
      · split at hs
        · cases hs
          exact ⟨hinv.of_same rfl rfl rfl rfl rfl, inScan_next s i⟩
        · cases hs
      · cases hs
        exact ⟨hinv.of_same rfl rfl rfl rfl rfl, trivial⟩
    | fsync =>
      unfold mainStep at hs
      rw [hpc] at hs
      cases hs
      exact ⟨hinv.of_same rfl rfl rfl rfl rfl, trivial⟩
    | ended e =>
      unfold mainStep at hs
      rw [hpc] at hs
      cases hs

/-- In every run in which the operations succeed in full. -/
theorem run_full_inv {inp : Input} {n : Int} {acts : List Act} {s : State}
    (h : run (restrict (inFull inp) (step inp)) acts (init n) = some s) : Inv inp s ∧ InScan s :=
  restrict_inv (fun s => Inv inp s ∧ InScan s) (fun s a s' hi hok hs => step_inv hi hok hs) acts (init n) s
    ⟨inv_init inp n, show 0 < NBUF by decide⟩ h

theorem Stage.writes_le {inp : Input} {s : State} {b : Buf} (h : Stage inp s b) (hop : b.op ≠ .unused) :
    writes s b.aioOffset ≤ 1 := by
  unfold Stage at h
  cases hb : b.op with
  | unused => exact absurd hb hop
  | readPending =>
    rw [hb] at h
    exact Nat.le_of_lt (Nat.lt_of_le_of_lt (Nat.le_of_eq h.2.2.1) Nat.one_pos)
  | writePending =>
    rw [hb] at h
    rcases h.2.2 with ⟨-, hw⟩ | ⟨-, hw⟩
    · exact Nat.le_of_lt (Nat.lt_of_le_of_lt (Nat.le_of_eq hw) Nat.one_pos)
    · exact Nat.le_of_eq hw

/-- **Where every block is.**  In every run in which the operations succeed in full, in any order, `numop` counts the
buffers in use and `aiolist` lists them; a block below `off` is held by one buffer, or by none and written once; and a
write is that of a whole block, each byte of it the translation of the byte of the input at its position. -/
theorem async_blocks (inp : Input) (n : Int) (acts : List Act) (s : State)
    (h : run (restrict (inFull inp) (step inp)) acts (init n) = some s) :
    s.numop = ((List.range NBUF).countP (fun i => (s.bufs i).op != .unused) : Nat) ∧
    (∀ i, i < NBUF → (s.aiolist i ≠ none ↔ (s.bufs i).op ≠ .unused)) ∧
    (∀ offset, offset % BSZ = 0 → offset < s.off →
      (∃! i, Holds s i offset) ∧ writes s offset ≤ 1 ∨ (∀ i, ¬ Holds s i offset) ∧ writes s offset = 1) ∧
    ∀ w ∈ s.written, w.offset % BSZ = 0 ∧ w.offset < inp.size ∧ w.count = blockLen inp w.offset ∧ ∀ k, k < w.count →
      w.offset + k < inp.size ∧ w.data k = translate (inp.byte (w.offset + k)) := by
  obtain ⟨hinv, -⟩ := run_full_inv h
  refine ⟨hinv.numop, fun i hi => ?_, fun offset hm hlt => ?_, fun w hw => ?_⟩
  · rw [hinv.aiolist i hi]
    by_cases hop : (s.bufs i).op = .unused
    · rw [if_pos hop]
      exact ⟨fun h => absurd rfl h, fun h => absurd hop h⟩
    · rw [if_neg hop]
      exact ⟨fun _ => hop, fun _ => Option.some_ne_none i⟩
  · by_cases hheld : ∃ i, Holds s i offset
    · obtain ⟨i, hi⟩ := hheld
      left
      refine ⟨⟨i, hi, fun j hj => hinv.alone j i offset hj hi⟩, ?_⟩
      obtain ⟨hlt', hop, rfl⟩ := hi
      exact (hinv.stage i hlt').writes_le hop
    · right
      refine ⟨fun i hi => hheld ⟨i, hi⟩, ?_⟩
      rcases hinv.covered offset hm hlt with hi | hw
      · exact absurd hi hheld
      · exact hw
  · obtain ⟨⟨hblock, -, hlt⟩, hcount, hdata⟩ := hinv.written w hw
    refine ⟨hblock, hlt, hcount, fun k hk => ?_⟩
    rw [hcount] at hk
    have hlen : blockLen inp w.offset ≤ inp.size - w.offset := Nat.min_le_right _ _
    exact ⟨by omega, hdata k hk⟩

/-- A file of a full block and one byte. -/
def twoBlocks : Input := ⟨BSZ + 1, fun _ => 0x61⟩

def scan : Act := .main .all

/-- A turn of the `switch` that waits for some operation, and finds one that has ended. -/
def turn : List Act := List.replicate 3 scan

/-- A turn of the scan over buffers 2 to 7, which stay unused. -/
def idleTurns : List Act := (List.replicate 6 turn).flatten

/-- Both reads are scheduled, the first ends and is reaped, and the scan goes on to buffer 1. -/
def firstReaped : List Act := [scan, scan, .complete 0 0 BSZ, scan] ++ turn ++ idleTurns ++ [scan]

/-- Then the first block is written before the second has been read. -/
def firstWritten : List Act := firstReaped ++ [.complete 0 0 BSZ, scan, scan, scan] ++ idleTurns ++ [scan]

theorem async_blocks_firstWritten :
    ∃ s, run (restrict (inFull twoBlocks) (step twoBlocks)) firstWritten (init 0) = some s ∧ s.off = 2 * BSZ ∧
      s.numop = ((List.range NBUF).countP (fun i => (s.bufs i).op != .unused) : Nat) ∧
      (∀ i, i < NBUF → (s.aiolist i ≠ none ↔ (s.bufs i).op ≠ .unused)) ∧
      (∀ offset, offset % BSZ = 0 → offset < s.off →
        (∃! i, Holds s i offset) ∧ writes s offset ≤ 1 ∨ (∀ i, ¬ Holds s i offset) ∧ writes s offset = 1) ∧
      ∀ w ∈ s.written, w.offset % BSZ = 0 ∧ w.offset < twoBlocks.size ∧ w.count = blockLen twoBlocks w.offset ∧
        ∀ k, k < w.count → w.offset + k < twoBlocks.size ∧ w.data k = translate (twoBlocks.byte (w.offset + k)) :=
  ⟨_, rfl, rfl, async_blocks twoBlocks 0 firstWritten _ rfl⟩

end Ch14Async
end Cc
