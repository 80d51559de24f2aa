import CCplusplus.MyIcmp
/-!
# IcmpUnpack — what `icmp_unpack` accepts, and the round-trip time it prints

The range check on the sequence number joins two conditions that exclude each other, so an echo reply is accepted with
any sequence number (`icmpUnpack_accepts_iff`).  The borrow of `time_offset` adds its million to the wrong field, so the
round-trip time is right while no borrow is needed, and while it fits an `int` (`timeOffset_exact_iff`).
-/
namespace Cc

open CLib

/-! ## What is accepted -/

theorem icmpUnpack_rejects_short {buf : Nat → UInt8} {len icmpid : Int} {e : PingPacketStatus} {t : Timeval}
    (h : len - iphdrLen buf < 8) : icmpUnpack buf len icmpid e t = (-1, e, none) := if_pos h

/-- The range check on the sequence number never holds. -/
theorem icmpUnpack_long {buf : Nat → UInt8} {len : Int} (icmpid : Int) (e : PingPacketStatus) (t : Timeval)
    (h : ¬ len - iphdrLen buf < 8) :
    if buf (iphdrLen buf) = ICMP_ECHOREPLY ∧ (u16At buf (iphdrLen buf + 4) : Int) = icmpid then
      ∃ p, icmpUnpack buf len icmpid e t = (0, { e with flag := 0 }, some p) ∧
        p.icmpSeq = u16At buf (iphdrLen buf + 6)
    else icmpUnpack buf len icmpid e t = (-1, e, none) := by
  unfold icmpUnpack
  rw [if_neg h]
  by_cases hm : buf (iphdrLen buf) = ICMP_ECHOREPLY ∧ (u16At buf (iphdrLen buf + 4) : Int) = icmpid
  · rw [if_pos hm, if_pos hm, if_neg (by omega)]
    exact ⟨_, rfl, rfl⟩
  · rw [if_neg hm, if_neg hm]

/-- At least 8 bytes follow the IP header, and they are those of an echo reply. -/
structure EchoReply (buf : Nat → UInt8) (len : Int) : Prop where
  long : 8 ≤ len - iphdrLen buf
  type : buf (iphdrLen buf) = ICMP_ECHOREPLY

/-- The reply is one to this process, with a sequence number that it has sent. -/
structure Wanted (buf : Nat → UInt8) (len icmpid : Int) : Prop extends EchoReply buf len where
  id : (u16At buf (iphdrLen buf + 4) : Int) = icmpid % 65536
  seq : u16At buf (iphdrLen buf + 6) < PACKET_SEND_MAX_NUM

/-- `icmp_unpack` returns 0 for the replies wanted; for others it returns -1 and leaves the entry. -/
structure UnpackRight (buf : Nat → UInt8) (len icmpid : Int) (currentPacket : PingPacketStatus) (recvTime : Timeval) :
    Prop where
  accepts : (icmpUnpack buf len icmpid currentPacket recvTime).1 = 0 ↔ Wanted buf len icmpid
  rejects : ¬ Wanted buf len icmpid → (icmpUnpack buf len icmpid currentPacket recvTime).1 = -1 ∧
    (icmpUnpack buf len icmpid currentPacket recvTime).2.1 = currentPacket

theorem u16At_lt (buf : Nat → UInt8) (off : Nat) : u16At buf off < 65536 := by
  have h0 := (buf off).toNat_lt
  have h1 := (buf (off + 1)).toNat_lt
  simp only [u16At, ofLe]
  omega

/-- **`icmp_unpack` accepts the echo replies that carry its `int` argument as their id**, and leaves the entry otherwise. -/
theorem icmpUnpack_spec (buf : Nat → UInt8) (len icmpid : Int) (e : PingPacketStatus) (t : Timeval) :
    (EchoReply buf len ∧ (u16At buf (iphdrLen buf + 4) : Int) = icmpid ∧ (icmpUnpack buf len icmpid e t).1 = 0) ∨
    (¬ (EchoReply buf len ∧ (u16At buf (iphdrLen buf + 4) : Int) = icmpid) ∧
      icmpUnpack buf len icmpid e t = (-1, e, none)) := by
  by_cases hs : len - iphdrLen buf < 8
  · exact .inr ⟨fun h => absurd h.1.long (by omega), icmpUnpack_rejects_short hs⟩
  · have hlong := icmpUnpack_long icmpid e t hs
    split at hlong
    · rename_i hm
      obtain ⟨p, hp, -⟩ := hlong
      exact .inl ⟨⟨by omega, hm.1⟩, hm.2, by rw [hp]⟩
    · rename_i hm
      exact .inr ⟨fun h => hm ⟨h.1.type, h.2⟩, hlong⟩

/-- **`icmp_unpack` does as it should exactly if no reply comes to this process with a sequence number out of range, and
none that is wanted under an id that is not of 16 bits.** -/
theorem icmpUnpack_accepts_iff (buf : Nat → UInt8) (len icmpid : Int) (currentPacket : PingPacketStatus)
    (recvTime : Timeval) :
    UnpackRight buf len icmpid currentPacket recvTime ↔
      (EchoReply buf len ∧ (u16At buf (iphdrLen buf + 4) : Int) = icmpid →
        u16At buf (iphdrLen buf + 6) < PACKET_SEND_MAX_NUM) ∧
      (Wanted buf len icmpid → 0 ≤ icmpid ∧ icmpid < 65536) := by
  have hid := u16At_lt buf (iphdrLen buf + 4)
  rcases icmpUnpack_spec buf len icmpid currentPacket recvTime with ⟨hr, he, h0⟩ | ⟨hn, hrej⟩
  · -- accepted: right where the reply is wanted
    have hwanted : Wanted buf len icmpid ↔ u16At buf (iphdrLen buf + 6) < PACKET_SEND_MAX_NUM :=
      ⟨fun h => h.seq, fun h => ⟨hr, by omega, h⟩⟩
    constructor
    · intro h
      exact ⟨fun _ => hwanted.1 (h.accepts.1 h0), fun _ => by omega⟩
    · rintro ⟨hseq, -⟩
      have hw := hwanted.2 (hseq ⟨hr, he⟩)
      exact ⟨⟨fun _ => hw, fun _ => h0⟩, fun hnot => absurd hw hnot⟩
  · -- rejected: right where it is not
    have hne : (icmpUnpack buf len icmpid currentPacket recvTime).1 ≠ 0 := by
      rw [hrej]
      exact Int.neg_ne_zero.2 Int.one_ne_zero
    constructor
    · intro h
      exact ⟨fun hr => absurd hr hn, fun hw => absurd (h.accepts.2 hw) hne⟩
    · rintro ⟨-, hrange⟩
      have hnot : ¬ Wanted buf len icmpid := fun hw => by
        have hi := hrange hw
        have hlow := hw.id
        exact hn ⟨hw.toEchoReply, by omega⟩
      exact ⟨⟨fun h => absurd h hne, fun hw => absurd hw hnot⟩, fun _ => by rw [hrej]; exact ⟨rfl, rfl⟩⟩

/-- An echo reply to process 7, with sequence number 64, under an IP header. -/
def replyOutOfRange : List UInt8 :=
  [0x45, 0, 0, 28, 0, 0, 0, 0, 64, 1, 0, 0, 10, 0, 0, 1, 10, 0, 0, 9] ++ [0, 0, 0, 0, 7, 0, 64, 0]

/-- **It is accepted**, and the entry is changed. -/
theorem icmpUnpack_outOfRange :
    ¬ UnpackRight (fun k => replyOutOfRange.getD k 0) 28 7 ⟨1, 0, ⟨0, 0⟩, ⟨0, 0⟩⟩ ⟨0, 0⟩ ∧
    (icmpUnpack (fun k => replyOutOfRange.getD k 0) 28 7 ⟨1, 0, ⟨0, 0⟩, ⟨0, 0⟩⟩ ⟨0, 0⟩).2.1 = ⟨0, 0, ⟨0, 0⟩, ⟨0, 0⟩⟩ :=
  ⟨fun h => absurd (h.accepts.1 rfl).seq (by decide), rfl⟩

/-! ## The round-trip time -/

def Timeval.Normalised (t : Timeval) : Prop := 0 ≤ t.tvUsec ∧ t.tvUsec < 1000000

instance (t : Timeval) : Decidable t.Normalised := inferInstanceAs (Decidable (0 ≤ t.tvUsec ∧ t.tvUsec < 1000000))

/-- The microseconds that a time denotes. -/
def Timeval.micros (t : Timeval) : Int := t.tvSec * 1000000 + t.tvUsec

/-- The offset between two times is a time, it is their difference, and a reply to a packet sent at the first and
received at the second is printed with the whole milliseconds between them. -/
structure OffsetExact (beginTime endTime : Timeval) : Prop where
  normalised : (timeOffset beginTime endTime).Normalised
  micros : (timeOffset beginTime endTime).micros = endTime.micros - beginTime.micros
  rtt : ∀ buf len icmpid (e : PingPacketStatus) (p : Printed), e.beginTime = beginTime →
    (icmpUnpack buf len icmpid e endTime).2.2 = some p → p.rtt = (endTime.micros - beginTime.micros) / 1000

theorem timeOffset_of_le {b e : Timeval} (h : b.tvUsec ≤ e.tvUsec) :
    timeOffset b e = ⟨e.tvSec - b.tvSec, e.tvUsec - b.tvUsec⟩ := by
  unfold timeOffset
  simp only
  rw [if_neg (by omega)]

/-- The round-trip time printed, an `int`. -/
theorem icmpUnpack_rtt {buf : Nat → UInt8} {len icmpid : Int} {e : PingPacketStatus} {t : Timeval} {p : Printed}
    (h : (icmpUnpack buf len icmpid e t).2.2 = some p) :
    p.rtt = ((timeOffset e.beginTime t).tvSec * 1000 + (timeOffset e.beginTime t).tvUsec.tdiv 1000).bmod 4294967296 := by
  unfold icmpUnpack at h
  simp only at h
  split at h
  · cases h
  · split at h
    · split at h
      · cases h
      · cases h
        rfl
    · cases h

/-- Without a borrow the milliseconds are the whole ones between the two times, as far as an `int` holds them. -/
theorem rtt_of_le {b e : Timeval} (h : b.tvUsec ≤ e.tvUsec) :
    (timeOffset b e).tvSec * 1000 + (timeOffset b e).tvUsec.tdiv 1000 = (e.micros - b.micros) / 1000 := by
  rw [timeOffset_of_le h]
  simp only [Timeval.micros]
  rw [Int.tdiv_eq_ediv_of_nonneg (by omega)]
  omega

/-- **The offset is exact exactly if no borrow is needed and the milliseconds fit an `int`.** -/
theorem timeOffset_exact_iff (beginTime endTime : Timeval) (hb : beginTime.Normalised) (he : endTime.Normalised)
    (h : beginTime.micros ≤ endTime.micros) :
    OffsetExact beginTime endTime ↔
      beginTime.tvUsec ≤ endTime.tvUsec ∧ (endTime.micros - beginTime.micros) / 1000 ≤ 2147483647 := by
  constructor
  · intro hex
    have hle : beginTime.tvUsec ≤ endTime.tvUsec := by
      by_contra hlt
      have hneg := hex.normalised.1
      unfold timeOffset at hneg
      simp only at hneg
      rw [if_pos (by omega)] at hneg
      simp only at hneg
      omega
    -- a reply without an IP header, all of whose bytes are 0
    have hp := hex.rtt (fun _ => 0) 8 0 ⟨0, 0, beginTime, ⟨0, 0⟩⟩ _ rfl rfl
    simp only at hp
    rw [rtt_of_le hle] at hp
    have hlt := Int.bmod_lt (x := (endTime.micros - beginTime.micros) / 1000) (m := 4294967296) (by decide)
    rw [hp] at hlt
    exact ⟨hle, by omega⟩
  · rintro ⟨hle, hfit⟩
    obtain ⟨hb0, hb1⟩ := hb
    obtain ⟨he0, he1⟩ := he
    have hoff := timeOffset_of_le hle
    refine ⟨?_, ?_, ?_⟩
    · rw [hoff]
      exact ⟨by simp only; omega, by simp only; omega⟩
    · rw [hoff]
      simp only [Timeval.micros]
      omega
    · rintro buf len icmpid e p rfl hp
      rw [icmpUnpack_rtt hp, rtt_of_le hle]
      exact Int.bmod_eq_of_le (by omega) (by omega)

theorem timeOffset_exact_second : OffsetExact ⟨5, 100⟩ ⟨6, 200⟩ ↔
    (100 : Int) ≤ 200 ∧ ((⟨6, 200⟩ : Timeval).micros - (⟨5, 100⟩ : Timeval).micros) / 1000 ≤ 2147483647 :=
  timeOffset_exact_iff ⟨5, 100⟩ ⟨6, 200⟩ (by decide) (by decide) (by decide)

/-- **One microsecond across the second**: the offset is not a time. -/
theorem timeOffset_borrow : ¬ OffsetExact ⟨0, 999999⟩ ⟨1, 0⟩ ∧ timeOffset ⟨0, 999999⟩ ⟨1, 0⟩ = ⟨1000000, -999999⟩ :=
  ⟨fun h => absurd h.normalised.1 (by decide), rfl⟩

end Cc
