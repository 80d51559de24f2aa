import CCplusplus.CheckSum
/-!
# IcmpPack — what the packet of `icmp_pack` carries

The length that `icmp_pack` returns is that of two pointers, not of the header and the `struct timeval` behind it.  The
16 bytes sent are the header and the seconds: they hold the sequence number, the id and the seconds, and their checksum is
right, but the microseconds are written and not sent (`icmpPack_cut`).
-/
namespace Cc

open CLib

/-- The bytes of the packet that are sent, as many as `icmp_pack` returns. -/
def packetBytes (buf : Nat → UInt8) (seq icmpid : Int) (tval : Timeval) : List UInt8 :=
  bytesAt (icmpPack buf seq icmpid tval).1 0 (icmpPack buf seq icmpid tval).2

/-- The packet before its checksum is stored. -/
def unsummed (seq icmpid tvSec : Int) : List UInt8 :=
  [ICMP_ECHO, 0, 0, 0] ++ leBytes 2 (icmpid % 65536).toNat ++ leBytes 2 (seq % 65536).toNat ++
    leBytes 8 (tvSec % 18446744073709551616).toNat

/-- What is written behind the header's checksum, as far as it is sent. -/
theorem written_eq (buf : Nat → UInt8) (seq icmpid sec : Nat) (usec : List UInt8) :
    bytesAt (setBytes (setBytes (setBytes (setBytes buf 0 [ICMP_ECHO, 0, 0, 0]) 6 (leBytes 2 seq)) 4
      (leBytes 2 icmpid)) 8 (leBytes 8 sec ++ usec)) 0 16 =
      [ICMP_ECHO, 0, 0, 0] ++ leBytes 2 icmpid ++ leBytes 2 seq ++ leBytes 8 sec := rfl

/-- **The bytes sent are the header and the seconds**, with the checksum of just these. -/
theorem packetBytes_eq (buf : Nat → UInt8) (seq icmpid : Int) (tval : Timeval) :
    packetBytes buf seq icmpid tval =
      storeU16 (unsummed seq icmpid tval.tvSec) 2 (checkSum (unsummed seq icmpid tval.tvSec)) := by
  unfold packetBytes icmpPack
  simp only [Nat.reduceAdd]
  rw [written_eq]
  exact (bytesAt_setBytes_pair _ 16 2 _ _).trans (by rw [written_eq]; rfl)

/-- The microseconds are not among them. -/
theorem packetBytes_usec (buf : Nat → UInt8) (seq icmpid tvSec tvUsec tvUsec' : Int) :
    packetBytes buf seq icmpid ⟨tvSec, tvUsec⟩ = packetBytes buf seq icmpid ⟨tvSec, tvUsec'⟩ := by
  rw [packetBytes_eq, packetBytes_eq]

/-- What the bytes sent hold: sequence number, id and seconds can be read off them, and their checksum is right. -/
structure Carried (bytes : List UInt8) (seq icmpid : Int) (tval : Timeval) : Prop where
  seqField : (ofLe ((bytes.drop 6).take 2) : Int) = seq % 65536
  idField : (ofLe ((bytes.drop 4).take 2) : Int) = icmpid % 65536
  secField : (ofLe ((bytes.drop 8).take 8) : Int) = tval.tvSec % 18446744073709551616
  checksum : checkSum bytes = 0

/-- The bytes sent hold the whole header and the whole `struct timeval`, and differ for another clock reading. -/
structure Carries (buf : Nat → UInt8) (seq icmpid : Int) (tval : Timeval) : Prop
    extends Carried (packetBytes buf seq icmpid tval) seq icmpid tval where
  whole : 8 + 16 ≤ (packetBytes buf seq icmpid tval).length
  clock : ∀ tval' : Timeval, -9223372036854775808 ≤ tval'.tvSec ∧ tval'.tvSec < 9223372036854775808 →
    -9223372036854775808 ≤ tval'.tvUsec ∧ tval'.tvUsec < 9223372036854775808 →
    packetBytes buf seq icmpid tval' = packetBytes buf seq icmpid tval → tval' = tval

theorem length_unsummed (seq icmpid tvSec : Int) : (unsummed seq icmpid tvSec).length = 16 := rfl

theorem ofLe_field {n : Nat} (v : Int) {m : Int} (h : m = (256 ^ n : Nat)) :
    (ofLe (leBytes n (v % m).toNat) : Int) = v % m := by
  have hpos : 0 < m := by
    rw [h]
    exact Int.natCast_pos.2 (Nat.pow_pos (by decide))
  have h0 := Int.emod_nonneg v (Int.ne_of_gt hpos)
  have hlt := Int.emod_lt_of_pos v hpos
  rw [ofLe_leBytes, Nat.mod_eq_of_lt (by omega), Int.toNat_of_nonneg h0]

/-- **The header and the seconds are sent, the microseconds are not**, for every packet. -/
theorem icmpPack_cut (buf : Nat → UInt8) (seq icmpid : Int) (tval : Timeval) :
    Carried (packetBytes buf seq icmpid tval) seq icmpid tval ∧
    (∀ tvUsec, packetBytes buf seq icmpid ⟨tval.tvSec, tvUsec⟩ = packetBytes buf seq icmpid tval) ∧
    ¬ Carries buf seq icmpid tval := by
  refine ⟨?_, fun tvUsec => ?_, fun h => ?_⟩
  · rw [packetBytes_eq]
    have hsum := (checkSum_spec (unsummed seq icmpid tval.tvSec)
      (by rw [length_unsummed]; decide)).2 1 rfl rfl
    refine ⟨?_, ?_, ?_, hsum⟩
    · exact ofLe_field (n := 2) seq rfl
    · exact ofLe_field (n := 2) icmpid rfl
    · exact ofLe_field (n := 8) tval.tvSec rfl
  · exact packetBytes_usec buf seq icmpid tval.tvSec tvUsec tval.tvUsec
  · have hlen := h.whole
    rw [packetBytes_eq, length_storeU16, length_unsummed] at hlen
    exact absurd hlen (by decide)

/-- **Two clock readings, one packet.** -/
theorem icmpPack_sameBytes :
    packetBytes (fun _ => 0) 1 7 ⟨1700000000, 654321⟩ = packetBytes (fun _ => 0) 1 7 ⟨1700000000, 123456⟩ ∧
    ¬ Carries (fun _ => 0) 1 7 ⟨1700000000, 123456⟩ := by
  have hsame := packetBytes_usec (fun _ => 0) 1 7 1700000000 654321 123456
  exact ⟨hsame, fun h => absurd (h.clock _ (by decide) (by decide) hsame) (by decide)⟩

end Cc
