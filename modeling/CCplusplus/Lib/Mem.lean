import CCplusplus.Lib.Exec
import Mathlib.Tactic.Common
/-!
# Mem — a byte memory of allocated blocks

A pointer is a block and a byte offset in it.  An access is defined exactly inside a block that is live, and anything
else is a fault.  `malloc` and `realloc` answer as the system behind the program does (`Mem.os`, one answer for each
request, in order): they may refuse, a new block holds whatever it holds, and a block that is resized may move.
-/
namespace CLib

structure Ptr where
  block : Nat
  off : Int
deriving DecidableEq, Repr

def Ptr.add (p : Ptr) (n : Int) : Ptr := ⟨p.block, p.off + n⟩

@[simp] theorem Ptr.add_block (p : Ptr) (n : Int) : (p.add n).block = p.block := rfl
@[simp] theorem Ptr.add_off (p : Ptr) (n : Int) : (p.add n).off = p.off + n := rfl

/-- The system's answer to a request for memory. -/
inductive Grant where
  | refuse
  | grant (junk : Int → UInt8) (inPlace : Bool)

structure Mem where
  byte : Nat → Int → UInt8
  /-- the size of a live block -/
  size : Nat → Option Nat
  /-- requests made so far; the next one names the block it may create -/
  next : Nat
  os : Nat → Grant
  fresh : ∀ b, next ≤ b → size b = none

namespace Mem

/-- A memory of one block, numbered 0. -/
def single (n : Nat) (f : Int → UInt8) (os : Nat → Grant) : Mem where
  byte := fun _ => f
  size := fun b => if b = 0 then some n else none
  next := 1
  os := os
  fresh := fun b h => if_neg (by omega)

/-- The `n` bytes at `p` lie in a live block. -/
def valid (m : Mem) (p : Ptr) (n : Nat) : Bool :=
  match m.size p.block with
  | none => false
  | some s => decide (0 ≤ p.off) && decide (p.off + n ≤ s)

/-- The `n` bytes at `p`. -/
def bytes (m : Mem) (p : Ptr) (n : Nat) : Fin n → UInt8 := fun k => m.byte p.block (p.off + (k.val : Int))

/-- The same blocks, holding other bytes. -/
def put (m : Mem) (f : Nat → Int → UInt8) : Mem := { m with byte := f }

/-- `o` is one of the `n` offsets from `p` on, in `p`'s block. -/
def inside (p : Ptr) (n : Nat) (b : Nat) (o : Int) : Bool :=
  decide (b = p.block) && decide (p.off ≤ o) && decide (o < p.off + n)

def fill (m : Mem) (p : Ptr) (n : Nat) (g : Int → UInt8) : Mem :=
  m.put (fun b o => if inside p n b o then g (o - p.off) else m.byte b o)

def load (m : Mem) (p : Ptr) : Exec UInt8 :=
  if m.valid p 1 then .ok (m.byte p.block p.off) else .error .outOfBounds

def store (m : Mem) (p : Ptr) (v : UInt8) : Exec Mem :=
  if m.valid p 1 then .ok (m.fill p 1 (fun _ => v)) else .error .outOfBounds

def apart (p : Ptr) (n : Nat) (q : Ptr) (k : Nat) : Bool :=
  decide (p.block ≠ q.block) || decide (p.off + n ≤ q.off) || decide (q.off + k ≤ p.off)

def memcpy (m : Mem) (dst src : Ptr) (n : Nat) : Exec Mem :=
  if m.valid dst n && m.valid src n then
    if apart dst n src n then .ok (m.fill dst n (fun k => m.byte src.block (src.off + k)))
    else .error .overlap
  else .error .outOfBounds

/-- `none` is `NULL`. -/
def malloc (m : Mem) (n : Nat) : Option Ptr × Mem :=
  match m.os m.next with
  | .refuse => (none, { m with next := m.next + 1, fresh := fun b h => m.fresh b (by omega) })
  | .grant junk _ =>
    (some ⟨m.next, 0⟩,
      { m with
        byte := fun b o => if b = m.next then junk o else m.byte b o
        size := fun b => if b = m.next then some n else m.size b
        next := m.next + 1
        fresh := fun b h => by rw [if_neg (by omega)]; exact m.fresh b (by omega) })

def free (m : Mem) (p : Ptr) : Exec Mem :=
  if (m.size p.block).isSome && decide (p.off = 0) then
    .ok { m with
      size := fun b => if b = p.block then none else m.size b
      fresh := fun b h => by split; rfl; exact m.fresh b h }
  else .error .outOfBounds

theorem lt_next_of_size {m : Mem} {b s : Nat} (h : m.size b = some s) : b < m.next := by
  rcases Nat.lt_or_ge b m.next with hlt | hge
  · exact hlt
  · rw [m.fresh b hge] at h; cases h

/-- `realloc`: the old bytes, as far as both sizes reach, in the same block or in a new one. -/
def realloc (m : Mem) (p : Ptr) (n : Nat) : Exec (Option Ptr × Mem) :=
  match hs : m.size p.block with
  | none => .error .outOfBounds
  | some s =>
    if p.off = 0 then
      match m.os m.next with
      | .refuse => .ok (none, { m with next := m.next + 1, fresh := fun b h => m.fresh b (by omega) })
      | .grant junk true =>
        .ok (some p,
          { m with
            byte := fun b o => if b = p.block ∧ s ≤ o then junk o else m.byte b o
            size := fun b => if b = p.block then some n else m.size b
            next := m.next + 1
            fresh := fun b h => by
              have := lt_next_of_size hs
              rw [if_neg (by omega)]; exact m.fresh b (by omega) })
      | .grant junk false =>
        .ok (some ⟨m.next, 0⟩,
          { m with
            byte := fun b o => if b = m.next then (if o < s then m.byte p.block o else junk o) else m.byte b o
            size := fun b => if b = m.next then some n else if b = p.block then none else m.size b
            next := m.next + 1
            fresh := fun b h => by
              rw [if_neg (by omega)]; split; rfl; exact m.fresh b (by omega) })
    else .error .outOfBounds

/-! ## What the operations see and change -/

@[simp] theorem put_byte (m : Mem) (f : Nat → Int → UInt8) : (m.put f).byte = f := rfl
@[simp] theorem put_size (m : Mem) (f : Nat → Int → UInt8) : (m.put f).size = m.size := rfl
@[simp] theorem put_next (m : Mem) (f : Nat → Int → UInt8) : (m.put f).next = m.next := rfl
@[simp] theorem put_os (m : Mem) (f : Nat → Int → UInt8) : (m.put f).os = m.os := rfl
@[simp] theorem put_valid (m : Mem) (f : Nat → Int → UInt8) (p : Ptr) (n : Nat) :
    (m.put f).valid p n = m.valid p n := rfl
@[simp] theorem fill_size (m : Mem) (p : Ptr) (n : Nat) (g : Int → UInt8) : (m.fill p n g).size = m.size := rfl
@[simp] theorem fill_next (m : Mem) (p : Ptr) (n : Nat) (g : Int → UInt8) : (m.fill p n g).next = m.next := rfl
@[simp] theorem fill_os (m : Mem) (p : Ptr) (n : Nat) (g : Int → UInt8) : (m.fill p n g).os = m.os := rfl
@[simp] theorem fill_valid (m : Mem) (p q : Ptr) (n k : Nat) (g : Int → UInt8) :
    (m.fill p n g).valid q k = m.valid q k := rfl

theorem inside_iff (p : Ptr) (n b : Nat) (o : Int) :
    inside p n b o = true ↔ b = p.block ∧ p.off ≤ o ∧ o < p.off + n := by
  simp only [inside, Bool.and_eq_true, decide_eq_true_eq, and_assoc]

theorem apart_iff (p q : Ptr) (n k : Nat) :
    apart p n q k = true ↔ p.block ≠ q.block ∨ p.off + n ≤ q.off ∨ q.off + k ≤ p.off := by
  simp only [apart, Bool.or_eq_true, decide_eq_true_eq, or_assoc]

theorem valid_iff (m : Mem) (p : Ptr) (n : Nat) :
    m.valid p n = true ↔ ∃ s, m.size p.block = some s ∧ 0 ≤ p.off ∧ p.off + n ≤ s := by
  unfold valid
  cases m.size p.block <;> simp

theorem valid_congr {m m' : Mem} {p : Ptr} (h : m'.size p.block = m.size p.block) (n : Nat) :
    m'.valid p n = m.valid p n := by
  unfold valid; rw [h]

/-- A part of a valid range is valid. -/
theorem valid_add {m : Mem} {p : Ptr} {n k : Nat} {d : Int} (h : m.valid p n = true) (h0 : 0 ≤ d) (hk : d + k ≤ n) :
    m.valid (p.add d) k = true := by
  rw [valid_iff] at *
  obtain ⟨s, hs, h1, h2⟩ := h
  exact ⟨s, hs, by simp only [Ptr.add_off]; omega, by simp only [Ptr.add_off]; omega⟩

theorem load_ok {m : Mem} {p : Ptr} (h : m.valid p 1 = true) : m.load p = .ok (m.byte p.block p.off) := by
  unfold load; rw [if_pos h]

theorem store_ok {m : Mem} {p : Ptr} (h : m.valid p 1 = true) (v : UInt8) :
    m.store p v = .ok (m.fill p 1 (fun _ => v)) := by
  unfold store; rw [if_pos h]

theorem memcpy_ok {m : Mem} {dst src : Ptr} {n : Nat} (hd : m.valid dst n = true) (hs : m.valid src n = true)
    (ha : apart dst n src n = true) :
    m.memcpy dst src n = .ok (m.fill dst n (fun k => m.byte src.block (src.off + k))) := by
  unfold memcpy; rw [hd, hs, if_pos (by rfl), if_pos ha]

/-- A copy that is made reads live bytes, away from where it writes. -/
theorem memcpy_inv {m m' : Mem} {dst src : Ptr} {n : Nat} (h : m.memcpy dst src n = .ok m') :
    m.valid src n = true ∧ apart dst n src n = true := by
  unfold memcpy at h
  split at h
  · rename_i hv
    rw [Bool.and_eq_true] at hv
    split at h
    · rename_i ha
      exact ⟨hv.2, ha⟩
    · cases h
  · cases h

theorem memcpy_fault {m : Mem} {dst src : Ptr} {n : Nat} (hs : m.valid src n = false) :
    m.memcpy dst src n = .error .outOfBounds := by
  unfold memcpy
  rw [hs, Bool.and_false, if_neg (by decide)]

theorem fill_byte_of_inside (m : Mem) {p : Ptr} {n b : Nat} {o : Int} (g : Int → UInt8) (h : inside p n b o = true) :
    (m.fill p n g).byte b o = g (o - p.off) := by
  show (if inside p n b o = true then g (o - p.off) else m.byte b o) = _
  rw [if_pos h]

theorem fill_byte_of_outside (m : Mem) {p : Ptr} {n b : Nat} {o : Int} (g : Int → UInt8)
    (h : ¬ inside p n b o = true) : (m.fill p n g).byte b o = m.byte b o := by
  show (if inside p n b o = true then g (o - p.off) else m.byte b o) = _
  rw [if_neg h]

theorem bytes_fill_same (m : Mem) (p : Ptr) (n : Nat) (g : Int → UInt8) :
    (m.fill p n g).bytes p n = fun k => g (k.val : Int) := by
  funext k
  have hk := k.isLt
  show (m.fill p n g).byte p.block (p.off + (k.val : Int)) = _
  rw [fill_byte_of_inside m g ((inside_iff _ _ _ _).2 ⟨rfl, by omega, by omega⟩)]
  congr 1; omega

theorem bytes_fill_of_apart (m : Mem) {p q : Ptr} {n k : Nat} (g : Int → UInt8) (h : apart p n q k = true) :
    (m.fill p n g).bytes q k = m.bytes q k := by
  funext j
  have hj := j.isLt
  rw [apart_iff] at h
  refine fill_byte_of_outside m g (fun hi => ?_)
  rw [inside_iff] at hi
  rcases h with h | h | h
  · exact h hi.1.symm
  · omega
  · omega

/-- The `n` bytes at `p` and at `q` exchanged. -/
def exchange (m : Mem) (p q : Ptr) (n : Nat) : Mem :=
  m.put (fun b o =>
    if inside p n b o then m.byte q.block (q.off + (o - p.off))
    else if inside q n b o then m.byte p.block (p.off + (o - q.off))
    else m.byte b o)

theorem exchange_zero (m : Mem) (p q : Ptr) : m.exchange p q 0 = m := by
  have e : ∀ (r : Ptr) (b : Nat) (o : Int), inside r 0 b o = false := fun r b o => by
    rw [← Bool.not_eq_true, inside_iff]; omega
  unfold exchange
  simp only [e, Bool.false_eq_true, if_false]
  rfl

/-- One more byte of an exchange. -/
theorem exchange_succ (m : Mem) {p q : Ptr} {n k : Nat} (h : apart p n q n = true) (hk : k < n) :
    ((m.exchange p q k).fill (p.add k) 1 (fun _ => m.byte q.block (q.off + k))).fill (q.add k) 1
      (fun _ => m.byte p.block (p.off + k)) = m.exchange p q (k + 1) := by
  have hin : ∀ (r : Ptr), inside (r.add k) 1 r.block (r.off + k) = true := fun r =>
    (inside_iff _ _ _ _).2 ⟨rfl, by simp only [Ptr.add_off]; omega⟩
  have hout : ∀ (r : Ptr) (b : Nat) (o : Int), ¬ (b = r.block ∧ o = r.off + k) → ¬ inside (r.add k) 1 b o = true :=
    fun r b o hr hi => hr (by
      rw [inside_iff] at hi
      simp only [Ptr.add_off, Ptr.add_block] at hi
      exact ⟨hi.1, by omega⟩)
  rw [apart_iff] at h
  refine congrArg m.put (funext (fun b => funext (fun o => ?_)))
  show (((m.exchange p q k).fill (p.add k) 1 (fun _ => m.byte q.block (q.off + k))).fill (q.add k) 1
    (fun _ => m.byte p.block (p.off + k))).byte b o = (m.exchange p q (k + 1)).byte b o
  by_cases hq : b = q.block ∧ o = q.off + k
  · obtain ⟨rfl, rfl⟩ := hq
    rw [fill_byte_of_inside _ _ (hin q)]
    show _ = (if inside p (k + 1) q.block _ = true then _ else if inside q (k + 1) q.block _ = true then _ else _)
    rw [if_neg (fun hp => by rw [inside_iff] at hp; omega), if_pos ((inside_iff _ _ _ _).2 ⟨rfl, by omega, by omega⟩)]
    congr 1; omega
  rw [fill_byte_of_outside _ _ (hout q b o hq)]
  by_cases hp : b = p.block ∧ o = p.off + k
  · obtain ⟨rfl, rfl⟩ := hp
    rw [fill_byte_of_inside _ _ (hin p)]
    show _ = (if inside p (k + 1) p.block _ = true then _ else _)
    rw [if_pos ((inside_iff _ _ _ _).2 ⟨rfl, by omega, by omega⟩)]
    congr 1; omega
  rw [fill_byte_of_outside _ _ (hout p b o hp)]
  have hgrow : ∀ (r : Ptr), ¬ (b = r.block ∧ o = r.off + k) → inside r (k + 1) b o = inside r k b o := fun r hr => by
    rw [Bool.eq_iff_iff, inside_iff, inside_iff]; omega
  simp only [exchange, put_byte, hgrow p hp, hgrow q hq]

theorem bytes_exchange_left (m : Mem) (p q : Ptr) (n : Nat) : (m.exchange p q n).bytes p n = m.bytes q n := by
  funext k
  have hk := k.isLt
  show (if inside p n p.block _ = true then _ else _) = _
  rw [if_pos ((inside_iff _ _ _ _).2 ⟨rfl, by omega, by omega⟩)]
  unfold bytes
  congr 1; omega

theorem bytes_exchange_right (m : Mem) {p q : Ptr} {n : Nat} (h : apart p n q n = true) :
    (m.exchange p q n).bytes q n = m.bytes p n := by
  funext k
  have hk := k.isLt
  rw [apart_iff] at h
  show (if inside p n q.block _ = true then _ else _) = _
  rw [if_neg (fun hi => by rw [inside_iff] at hi; omega), if_pos ((inside_iff _ _ _ _).2 ⟨rfl, by omega, by omega⟩)]
  unfold bytes
  congr 1; omega

theorem exchange_byte_of_outside (m : Mem) {p q : Ptr} {n b : Nat} {o : Int} (hp : inside p n b o = false)
    (hq : inside q n b o = false) : (m.exchange p q n).byte b o = m.byte b o := by
  show (if inside p n b o = true then _ else if inside q n b o = true then _ else _) = _
  rw [hp, hq, if_neg (by simp), if_neg (by simp)]

theorem bytes_exchange_of_apart (m : Mem) {p q r : Ptr} {n k : Nat} (hp : apart p n r k = true)
    (hq : apart q n r k = true) : (m.exchange p q n).bytes r k = m.bytes r k := by
  funext j
  have hj := j.isLt
  have hout : ∀ (t : Ptr), apart t n r k = true → inside t n r.block (r.off + (j.val : Int)) = false := fun t ht => by
    rw [apart_iff] at ht
    rw [← Bool.not_eq_true, inside_iff]; omega
  exact exchange_byte_of_outside m (hout p hp) (hout q hq)

/-- What a granted request leaves: a new block of `n` bytes, and the rest as it was. -/
structure Allocated (n : Nat) (m m' : Mem) : Prop where
  new : m'.size m.next = some n
  old : ∀ b, b ≠ m.next → m'.size b = m.size b
  byte : ∀ b, b ≠ m.next → m'.byte b = m.byte b
  next : m'.next = m.next + 1
  os : m'.os = m.os

theorem malloc_grant {m : Mem} {junk : Int → UInt8} {inPlace : Bool} (h : m.os m.next = .grant junk inPlace) (n : Nat) :
    ∃ m', m.malloc n = (some ⟨m.next, 0⟩, m') ∧ Allocated n m m' ∧ ∀ o, m'.byte m.next o = junk o := by
  unfold malloc
  rw [h]
  exact ⟨_, rfl, ⟨if_pos rfl, fun b hb => if_neg hb, fun b hb => funext (fun _ => if_neg hb), rfl, rfl⟩,
    fun o => if_pos rfl⟩

theorem malloc_refuse {m : Mem} (h : m.os m.next = .refuse) (n : Nat) : ∃ m', m.malloc n = (none, m') := by
  unfold malloc
  rw [h]
  exact ⟨_, rfl⟩

theorem malloc_cases (m : Mem) (n : Nat) :
    (m.os m.next = .refuse ∧ (m.malloc n).1 = none) ∨
      ∃ m', m.malloc n = (some ⟨m.next, 0⟩, m') ∧ Allocated n m m' := by
  cases h : m.os m.next with
  | refuse =>
    obtain ⟨m', hm⟩ := malloc_refuse h n
    exact .inl ⟨rfl, by rw [hm]⟩
  | grant junk inPlace =>
    obtain ⟨m', hm, halloc, -⟩ := malloc_grant h n
    exact .inr ⟨m', hm, halloc⟩

/-- What a granted change of size leaves: a block of `n` bytes, the first `s` of them as they were, in the place of the
old one. -/
structure Resized (p q : Ptr) (s n : Nat) (m m' : Mem) : Prop where
  off : q.off = 0
  block : q.block = p.block ∨ q.block = m.next
  new : m'.size q.block = some n
  kept : ∀ o : Int, o < s → m'.byte q.block o = m.byte p.block o
  oldSize : ∀ b, b ≠ p.block → b < m.next → m'.size b = m.size b
  oldByte : ∀ b, b ≠ p.block → b < m.next → m'.byte b = m.byte b
  os : m'.os = m.os

theorem realloc_cases {m : Mem} {p : Ptr} {s : Nat} (hs : m.size p.block = some s) (h0 : p.off = 0) (n : Nat) :
    (m.os m.next = .refuse ∧ ∃ m', m.realloc p n = .ok (none, m')) ∨
      ∃ q m', m.realloc p n = .ok (some q, m') ∧ Resized p q s n m m' := by
  have hlt := lt_next_of_size hs
  unfold realloc
  split
  · rename_i hnone
    rw [hs] at hnone; cases hnone
  · rename_i s' hs'
    obtain rfl : s = s' := Option.some.inj (hs.symm.trans hs')
    rw [if_pos h0]
    split
    · rename_i hos
      exact .inl ⟨hos, _, rfl⟩
    · -- in place
      refine .inr ⟨_, _, rfl, h0, .inl rfl, if_pos rfl, fun o ho => if_neg (fun h => by omega), fun b hb _ => if_neg hb,
        fun b hb _ => funext (fun o => if_neg (fun h => hb h.1)), rfl⟩
    · -- moved
      refine .inr ⟨_, _, rfl, rfl, .inr rfl, if_pos rfl, fun o ho => (if_pos rfl).trans (if_pos ho), fun b hb hn => ?_,
        fun b hb hn => funext (fun o => if_neg (by omega)), rfl⟩
      exact (if_neg (by omega)).trans (if_neg hb)

/-- A block that moves is not live where it was. -/
theorem realloc_moved {m : Mem} {p : Ptr} {s : Nat} {junk : Int → UInt8} (hs : m.size p.block = some s)
    (h0 : p.off = 0) (hos : m.os m.next = .grant junk false) (n : Nat) :
    ∃ q m', m.realloc p n = .ok (some q, m') ∧ m'.size p.block = none := by
  have hlt := lt_next_of_size hs
  unfold realloc
  split
  · rename_i hnone
    rw [hs] at hnone; cases hnone
  · rw [if_pos h0, hos]
    exact ⟨_, _, rfl, (if_neg (by omega)).trans (if_pos rfl)⟩

theorem free_ok {m : Mem} {p : Ptr} {s : Nat} (hs : m.size p.block = some s) (h0 : p.off = 0) :
    ∃ m', m.free p = .ok m' ∧ (∀ b, m'.size b = if b = p.block then none else m.size b) ∧ m'.byte = m.byte ∧
      m'.next = m.next ∧ m'.os = m.os :=
  ⟨_, if_pos (by simp [hs, h0]), fun _ => rfl, rfl, rfl, rfl⟩

/-! ## What a computation leaves alone -/

/-- After `m`, `m'` has the same live blocks and, outside the `n` bytes at `p`, the same bytes in them. -/
structure SameOutside (p : Ptr) (n : Nat) (m m' : Mem) : Prop where
  size : m'.size = m.size
  os : m'.os = m.os
  next : m.next ≤ m'.next
  byte : ∀ b o, b < m.next → inside p n b o = false → m'.byte b o = m.byte b o

namespace SameOutside

theorem refl (p : Ptr) (n : Nat) (m : Mem) : SameOutside p n m m := ⟨rfl, rfl, Nat.le_refl _, fun _ _ _ _ => rfl⟩

theorem trans {p : Ptr} {n : Nat} {m m' m'' : Mem} (h : SameOutside p n m m') (h' : SameOutside p n m' m'') :
    SameOutside p n m m'' :=
  ⟨h'.size.trans h.size, h'.os.trans h.os, Nat.le_trans h.next h'.next, fun b o hb hi =>
    (h'.byte b o (Nat.lt_of_lt_of_le hb h.next) hi).trans (h.byte b o hb hi)⟩

theorem fill {p q : Ptr} {n k : Nat} (m : Mem) (g : Int → UInt8)
    (h : ∀ b o, inside q k b o = true → inside p n b o = true) : SameOutside p n m (m.fill q k g) :=
  ⟨rfl, rfl, Nat.le_refl _, fun b o _ hi => fill_byte_of_outside m g (fun hq => by rw [h b o hq] at hi; cases hi)⟩

theorem valid {p : Ptr} {n : Nat} {m m' : Mem} (h : SameOutside p n m m') (q : Ptr) (k : Nat) :
    m'.valid q k = m.valid q k := valid_congr (by rw [h.size]) k

theorem exchange {p q r : Ptr} {n k : Nat} (m : Mem)
    (hq : ∀ b o, inside q k b o = true → inside p n b o = true)
    (hr : ∀ b o, inside r k b o = true → inside p n b o = true) : SameOutside p n m (m.exchange q r k) :=
  ⟨rfl, rfl, Nat.le_refl _, fun b o _ hi => exchange_byte_of_outside m
    (Bool.eq_false_iff.2 (fun h => by rw [hq b o h] at hi; cases hi))
    (Bool.eq_false_iff.2 (fun h => by rw [hr b o h] at hi; cases hi))⟩

/-- **A scratch block leaves no trace**: allocate it, write it, write `p`'s bytes, free it. -/
theorem scratch {p : Ptr} {n k s : Nat} {m m₁ m₂ m₃ : Mem} (ha : Allocated s m m₁)
    (h₂ : SameOutside ⟨m.next, 0⟩ k m₁ m₂) (h₃ : SameOutside p n m₂ m₃) :
    ∃ m₄, m₃.free ⟨m.next, 0⟩ = .ok m₄ ∧ SameOutside p n m m₄ ∧ m₄.byte = m₃.byte := by
  have hsize : m₃.size = m₁.size := h₃.size.trans h₂.size
  have hn₁ := ha.next
  have hn₂ := h₂.next
  have hn₃ := h₃.next
  obtain ⟨m₄, hfree, hs₄, hb₄, hn₄, ho₄⟩ := free_ok (m := m₃) (p := ⟨m.next, 0⟩) (by rw [hsize]; exact ha.new) rfl
  refine ⟨m₄, hfree, ⟨funext (fun b => ?_), ?_, by omega, fun b o hb hi => ?_⟩, hb₄⟩
  · rw [hs₄, hsize]
    by_cases hb : b = m.next
    · rw [if_pos hb, hb, m.fresh _ (Nat.le_refl _)]
    · rw [if_neg hb, ha.old b hb]
  · rw [ho₄, h₃.os, h₂.os, ha.os]
  · rw [hb₄, h₃.byte b o (by omega) hi, h₂.byte b o (by omega) (by
      rw [← Bool.not_eq_true, inside_iff]
      exact fun h => by have := h.1; simp only at this; omega), ha.byte b (by omega)]

end SameOutside
end Mem
end CLib
