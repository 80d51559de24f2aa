import CCplusplus.MyIcmp
import CCplusplus.Lib.OnesSum
/-!
# CheckSum — `check_sum` is the internet checksum

The code adds in 32 bits and folds twice, the second time without a mask.  For the lengths of a datagram that loses no
carry: the folded sum is the one's-complement sum of the words (`fold_eq`), and a buffer that holds its own checksum
sums to the other zero.
-/
namespace Cc

open CLib

/-- The 16-bit words of a buffer, an odd last byte padded with zero. -/
def words : List UInt8 → List Nat
  | b₀ :: b₁ :: rest => ofLe [b₀, b₁] :: words rest
  | [b₀] => [ofLe [b₀, 0]]
  | [] => []

/-- Store a 16-bit value at an offset. -/
def storeU16 (buf : List UInt8) (off : Nat) (v : UInt16) : List UInt8 :=
  (buf.set off (UInt8.ofNat v.toNat)).set (off + 1) (UInt8.ofNat (v.toNat / 256))

theorem ofLe_pair (b₀ b₁ : UInt8) : ofLe [b₀, b₁] = b₀.toNat + 256 * b₁.toNat := by simp [ofLe]

theorem ofLe_pair_le (b₀ b₁ : UInt8) : ofLe [b₀, b₁] ≤ 65535 := by
  have := b₀.toNat_lt
  have := b₁.toNat_lt
  rw [ofLe_pair]; omega

theorem words_le : ∀ (l : List UInt8), ∀ x ∈ words l, x ≤ 65535
  | [], _, h => by simp [words] at h
  | [b], x, h => by
    rw [words, List.mem_singleton] at h
    rw [h]; exact ofLe_pair_le b 0
  | b₀ :: b₁ :: l, x, h => by
    rw [words, List.mem_cons] at h
    rcases h with rfl | h
    · exact ofLe_pair_le b₀ b₁
    · exact words_le l x h

theorem sum_words_le : ∀ (l : List UInt8), 2 * (words l).sum ≤ 65535 * (l.length + 1)
  | [] => by rw [words, List.sum_nil]; omega
  | [b] => by
    have := ofLe_pair_le b 0
    rw [words, List.sum_cons, List.sum_nil, List.length_singleton]; omega
  | b₀ :: b₁ :: l => by
    have := sum_words_le l
    have := ofLe_pair_le b₀ b₁
    rw [words, List.sum_cons, List.length_cons, List.length_cons]; omega

theorem add_ofNat {s : UInt32} {x : Nat} (h : s.toNat + x < 4294967296) :
    (s + UInt32.ofNat x).toNat = s.toNat + x := by
  have hadd := UInt32.toNat_add s (UInt32.ofNat x)
  have hx := UInt32.toNat_ofNat' (n := x)
  omega

/-- The 32-bit sum is the sum of the words as long as that fits. -/
theorem sumWords_eq : ∀ (l : List UInt8) (s : UInt32), s.toNat + (words l).sum < 4294967296 →
    (sumWords l s).toNat = s.toNat + (words l).sum
  | [], s, _ => by rw [sumWords, words, List.sum_nil, Nat.add_zero]
  | [b], s, h => by
    have e : ofLe [b, 0] = b.toNat := by rw [ofLe_pair, UInt8.toNat_zero, Nat.mul_zero, Nat.add_zero]
    rw [words, e, List.sum_cons, List.sum_nil, Nat.add_zero] at h ⊢
    rw [sumWords, add_ofNat h]
  | b₀ :: b₁ :: l, s, h => by
    rw [words, List.sum_cons, ← Nat.add_assoc] at h ⊢
    have hs := add_ofNat (s := s) (x := ofLe [b₀, b₁]) (by omega)
    rw [sumWords, sumWords_eq l _ (by rwa [hs]), hs]

/-- **The two folds lose no carry**: below `2^31` they give the one's-complement sum. -/
theorem fold_eq (s : Nat) (h : s < 2147483648) :
    ((s / 65536 + s % 65536) / 65536 + (s / 65536 + s % 65536)) % 65536 = onesRep 65535 s := by
  have hs : 65536 * (s / 65536) + s % 65536 = s := Nat.div_add_mod s 65536
  have hl : s % 65536 < 65536 := Nat.mod_lt _ (by decide)
  have hh : s / 65536 < 32768 := by omega
  generalize s / 65536 = high at hs hh ⊢
  generalize s % 65536 = low at hs hl ⊢
  by_cases h0 : s = 0
  · subst h0
    obtain ⟨rfl, rfl⟩ : high = 0 ∧ low = 0 := by omega
    rfl
  · rw [onesRep_of_pos (by omega), show s - 1 = 65535 * high + (high + low - 1) by omega, Nat.mul_add_mod]
    rcases Nat.lt_or_ge (high + low) 65536 with hc | hc
    · rw [Nat.div_eq_of_lt hc, Nat.zero_add, Nat.mod_eq_of_lt hc, Nat.mod_eq_of_lt (by omega)]; omega
    · have hdiv : (high + low) / 65536 = 1 := by omega
      have hmod : (high + low - 1) % 65535 = high + low - 1 - 65535 := by
        rw [Nat.mod_eq_sub_mod (by omega), Nat.mod_eq_of_lt (by omega)]
      rw [hdiv, hmod]; omega

theorem and_low (s : UInt32) : (s &&& 0xFFFF).toNat = s.toNat % 65536 := by
  rw [UInt32.toNat_and]; exact Nat.and_two_pow_sub_one_eq_mod s.toNat 16

theorem shift_high (s : UInt32) : (s >>> 16).toNat = s.toNat / 65536 := by
  rw [UInt32.toNat_shiftRight]; exact Nat.shiftRight_eq_div_pow s.toNat 16

theorem complement_low (s : UInt32) : (~~~s).toUInt16.toNat = 65535 - s.toNat % 65536 := by
  have := s.toNat_lt
  rw [UInt32.toNat_toUInt16, UInt32.toNat_not, UInt32.size]; omega

theorem checkSum_toNat (buf : List UInt8) (h : buf.length ≤ 65535) :
    (checkSum buf).toNat = 65535 - onesRep 65535 (words buf).sum := by
  have hle := sum_words_le buf
  have hsum := sumWords_eq buf 0 (by simp; omega)
  unfold checkSum
  simp only [complement_low, UInt32.toNat_add, shift_high, and_low, hsum, UInt32.toNat_zero, Nat.zero_add]
  rw [← fold_eq _ (show (words buf).sum < 2147483648 by omega)]
  omega

/-! ## A field that holds the checksum -/

theorem ofLe_storeU16 (v : UInt16) : ofLe [UInt8.ofNat v.toNat, UInt8.ofNat (v.toNat / 256)] = v.toNat := by
  have := v.toNat_lt
  exact (ofLe_leBytes 2 v.toNat).trans (Nat.mod_eq_of_lt this)

theorem sum_words_storeU16 (v : UInt16) : ∀ (buf : List UInt8) (k : Nat), buf[2 * k]? = some 0 →
    buf[2 * k + 1]? = some 0 → (words (storeU16 buf (2 * k) v)).sum = (words buf).sum + v.toNat
  | [], _, h, _ => by simp at h
  | [_], k, _, h => by simp at h
  | b₀ :: b₁ :: l, 0, h0, h1 => by
    have e0 : b₀ = 0 := by simpa using h0
    have e1 : b₁ = 0 := by simpa using h1
    subst e0 e1
    simp only [storeU16, List.set_cons_zero, Nat.mul_zero, Nat.zero_add, List.set_cons_succ, words, List.sum_cons,
      ofLe_storeU16]
    rw [ofLe_pair, UInt8.toNat_zero]
    omega
  | b₀ :: b₁ :: l, k + 1, h0, h1 => by
    have e : 2 * (k + 1) = 2 * k + 1 + 1 := by omega
    rw [e] at h0 h1
    simp only [List.getElem?_cons_succ] at h0 h1
    have ih := sum_words_storeU16 v l k h0 h1
    rw [e]
    simp only [storeU16, List.set_cons_succ, words, List.sum_cons] at ih ⊢
    rw [ih, Nat.add_assoc]

theorem length_storeU16 (buf : List UInt8) (off : Nat) (v : UInt16) : (storeU16 buf off v).length = buf.length := by
  unfold storeU16; rw [List.length_set, List.length_set]

/-- **`check_sum` is the one's complement of the one's-complement sum** of the words, and storing it in a zero field at
an even offset makes the checksum of the whole buffer `0`. -/
theorem checkSum_spec (buf : List UInt8) (h : buf.length ≤ 65535) :
    checkSum buf = ~~~UInt16.ofNat (onesSum 65535 (words buf)) ∧
      ∀ k, buf[2 * k]? = some 0 → buf[2 * k + 1]? = some 0 →
        checkSum (storeU16 buf (2 * k) (checkSum buf)) = 0 := by
  have hM : 0 < 65535 := by decide
  have hrep := onesRep_le hM (words buf).sum
  have hsum := checkSum_toNat buf h
  constructor
  · apply UInt16.toNat_inj.1
    rw [hsum, onesSum_eq hM (words_le buf), UInt16.toNat_not, UInt16.toNat_ofNat', UInt16.size]
    omega
  · intro k h0 h1
    have hstored := checkSum_toNat (storeU16 buf (2 * k) (checkSum buf)) (by rwa [length_storeU16])
    apply UInt16.toNat_inj.1
    rw [hstored, sum_words_storeU16 _ buf k h0 h1, hsum, onesRep_complement hM]
    rfl

/-- Seven bytes whose second word is the field. -/
theorem checkSum_spec_seven :
    checkSum [8, 0, 0, 0, 255, 255, 3] = ~~~UInt16.ofNat (onesSum 65535 (words [8, 0, 0, 0, 255, 255, 3])) ∧
      ∀ k, [8, 0, 0, 0, 255, 255, (3 : UInt8)][2 * k]? = some 0 →
        [8, 0, 0, 0, 255, 255, (3 : UInt8)][2 * k + 1]? = some 0 →
        checkSum (storeU16 [8, 0, 0, 0, 255, 255, 3] (2 * k) (checkSum [8, 0, 0, 0, 255, 255, 3])) = 0 :=
  checkSum_spec [8, 0, 0, 0, 255, 255, 3] (by decide)

end Cc
