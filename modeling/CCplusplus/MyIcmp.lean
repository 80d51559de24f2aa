import CCplusplus.Lib.Bytes
/-!
# MyIcmp — `my_icmp.c`

The packet code of `ping`, on a little-endian LP64 host: 16-bit fields are low byte first, a pointer has 8 bytes and a
`struct timeval` 16.  `gettimeofday` is an argument, the clock's reading.
-/
namespace Cc

open CLib

/-- `while (len > 1) { sum += *datap; datap++; len -= 2; }`, then the byte that is left of an odd length. -/
def sumWords : List UInt8 → UInt32 → UInt32
  | b₀ :: b₁ :: datap, sum => sumWords datap (sum + UInt32.ofNat (ofLe [b₀, b₁]))
  | [b₀], sum => sum + UInt32.ofNat b₀.toNat
  | [], sum => sum

/-- `check_sum` of the `len` bytes at `datap`, which are the argument. -/
def checkSum (datap : List UInt8) : UInt16 :=
  let sum := sumWords datap 0
  let sum := (sum >>> 16) + (sum &&& 0xFFFF)
  let sum := (sum >>> 16) + sum
  (~~~sum).toUInt16

structure Timeval where
  tvSec : Int
  tvUsec : Int
deriving DecidableEq, Repr

/-- The borrow goes to `tv_sec` and so does the million. -/
def timeOffset (beginTime endTime : Timeval) : Timeval :=
  let ans : Timeval := ⟨endTime.tvSec - beginTime.tvSec, endTime.tvUsec - beginTime.tvUsec⟩
  if ans.tvUsec < 0 then { ans with tvSec := ans.tvSec - 1 + 1000000 } else ans

def ICMP_ECHO : UInt8 := 8
def ICMP_ECHOREPLY : UInt8 := 0
def PACKET_SEND_MAX_NUM : Nat := 64

/-- An entry of `ping_packet`. -/
structure PingPacketStatus where
  flag : Int
  seq : Int
  beginTime : Timeval
  endTime : Timeval
deriving DecidableEq, Repr

/-- `icmp_pack` into a buffer: the buffer it leaves and the length it returns, which is that of two pointers. -/
def icmpPack (icmpHeadData : Nat → UInt8) (seq icmpid : Int) (tval : Timeval) : (Nat → UInt8) × Nat :=
  let buf := setBytes icmpHeadData 0 [ICMP_ECHO, 0, 0, 0]
  let buf := setBytes buf 6 (leBytes 2 (seq % 65536).toNat)
  let buf := setBytes buf 4 (leBytes 2 (icmpid % 65536).toNat)
  let buf := setBytes buf 8
    (leBytes 8 (tval.tvSec % 18446744073709551616).toNat ++ leBytes 8 (tval.tvUsec % 18446744073709551616).toNat)
  let len := 8 + 8
  let buf := setBytes buf 2 (leBytes 2 (checkSum (bytesAt buf 0 len)).toNat)
  (buf, len)

/-- `ip_hl << 2` of the datagram in a buffer. -/
def iphdrLen (buf : Nat → UInt8) : Nat := (buf 0 &&& 0x0F).toNat * 4

/-- What `icmp_unpack` prints for an accepted reply: its length, sequence number, time to live and round-trip time. -/
structure Printed where
  len : Int
  icmpSeq : Nat
  ipTtl : UInt8
  rtt : Int
deriving DecidableEq, Repr

/-- `icmp_unpack`: the value returned, `*current_packet` after it, and the line printed for an accepted reply.  The range
check on `icmp_seq` is the source's, on a `u_int16_t`. -/
def icmpUnpack (buf : Nat → UInt8) (len icmpid : Int) (currentPacket : PingPacketStatus) (recvTime : Timeval) :
    Int × PingPacketStatus × Option Printed :=
  let hlen := iphdrLen buf
  let len := len - hlen
  if len < 8 then (-1, currentPacket, none)
  else if buf hlen = ICMP_ECHOREPLY ∧ (u16At buf (hlen + 4) : Int) = icmpid then
    let icmpSeq := u16At buf (hlen + 6)
    if (icmpSeq : Int) < 0 ∧ (icmpSeq : Int) ≥ PACKET_SEND_MAX_NUM then (-1, currentPacket, none)
    else
      let offsetTime := timeOffset currentPacket.beginTime recvTime
      let rtt := (offsetTime.tvSec * 1000 + offsetTime.tvUsec.tdiv 1000).bmod 4294967296
      (0, { currentPacket with flag := 0 }, some ⟨len, icmpSeq, buf 8, rtt⟩)
  else (-1, currentPacket, none)

end Cc
