import Mathlib.Algebra.Group.Nat.Defs
import Mathlib.Data.Nat.Basic
import Mathlib.Tactic.Common
/-!
# Bytes — little-endian numbers in a byte buffer

A buffer is read as a function of the offset, or as the list of its bytes.
-/
namespace CLib

/-- The number whose bytes, low byte first, are given. -/
def ofLe : List UInt8 → Nat
  | [] => 0
  | b :: bs => b.toNat + 256 * ofLe bs

/-- The low `n` bytes of a number, low byte first. -/
def leBytes : Nat → Nat → List UInt8
  | 0, _ => []
  | n + 1, v => UInt8.ofNat v :: leBytes n (v / 256)

theorem ofLe_leBytes : ∀ (n v : Nat), ofLe (leBytes n v) = v % 256 ^ n
  | 0, v => by rw [Nat.pow_zero, Nat.mod_one]; rfl
  | n + 1, v => by
    have e : 256 ^ (n + 1) = 256 * 256 ^ n := by rw [Nat.pow_succ, Nat.mul_comm]
    rw [leBytes, ofLe, ofLe_leBytes n, UInt8.toNat_ofNat', e, Nat.mod_mul]

/-- The `n` bytes of a buffer from `off` on. -/
def bytesAt (buf : Nat → UInt8) (off n : Nat) : List UInt8 := (List.range n).map (fun k => buf (off + k))

def setBytes (buf : Nat → UInt8) (off : Nat) (bs : List UInt8) : Nat → UInt8 := fun i =>
  if off ≤ i then (bs[i - off]?).getD (buf i) else buf i

/-- The 16-bit field at an offset. -/
def u16At (buf : Nat → UInt8) (off : Nat) : Nat := ofLe [buf off, buf (off + 1)]

theorem setBytes_of_inside (buf : Nat → UInt8) (off : Nat) {k : Nat} {bs : List UInt8} {b : UInt8}
    (h : bs[k]? = some b) : setBytes buf off bs (off + k) = b := by
  unfold setBytes
  rw [if_pos (Nat.le_add_right _ _), Nat.add_sub_cancel_left, h]
  rfl

@[simp] theorem length_bytesAt (buf : Nat → UInt8) (off n : Nat) : (bytesAt buf off n).length = n := by
  rw [bytesAt, List.length_map, List.length_range]

theorem getElem?_bytesAt (buf : Nat → UInt8) (off : Nat) {n k : Nat} (h : k < n) :
    (bytesAt buf off n)[k]? = some (buf (off + k)) := by
  rw [bytesAt, List.getElem?_map, List.getElem?_range h]
  rfl

/-- Two bytes set in a buffer are two bytes set in the list of its bytes. -/
theorem bytesAt_setBytes_pair (buf : Nat → UInt8) (n off : Nat) (b₀ b₁ : UInt8) :
    bytesAt (setBytes buf off [b₀, b₁]) 0 n = ((bytesAt buf 0 n).set off b₀).set (off + 1) b₁ := by
  apply List.ext_getElem?
  intro k
  rcases Nat.lt_or_ge k n with hk | hk
  · rw [getElem?_bytesAt _ _ hk, List.getElem?_set, List.getElem?_set, List.length_set, length_bytesAt,
      getElem?_bytesAt _ _ hk, Nat.zero_add]
    by_cases h1 : off + 1 = k
    · rw [if_pos h1, if_pos (by omega), ← h1, setBytes_of_inside (k := 1) buf off rfl]
    · rw [if_neg h1]
      by_cases h0 : off = k
      · rw [if_pos h0, if_pos (by omega), ← h0]
        exact congrArg some (setBytes_of_inside (k := 0) buf off rfl)
      · rw [if_neg h0]
        unfold setBytes
        split
        · rw [List.getElem?_eq_none (by simp only [List.length_cons, List.length_nil]; omega)]
          rfl
        · rfl
  · rw [List.getElem?_eq_none (by simpa using hk), List.getElem?_eq_none (by simpa using hk)]

end CLib
