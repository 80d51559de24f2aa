import CCplusplus.MyIcmp
import CCplusplus.Lib.Machine
/-!
# TracerouteUdp — `traceroute_udp.c`, its probe loop and the ICMP socket

The state is that of `main` from its probe loop on, with the probes sent and the datagrams that have arrived at the ICMP
socket.  An action is the next statement of `main`, with what it gets from outside, or the arrival of a datagram: an
answer that a probe of this process elicited, at any time and any number of times, or ICMP traffic of others.
-/
namespace Cc
namespace TracerouteUdp

open CLib

def ICMP_UNREACH_NET : Int := 0
def ICMP_UNREACH_HOST : Int := 1
def ICMP_UNREACH_PROTOCOL : Int := 2
def ICMP_UNREACH_PORT : Int := 3
def ICMP_UNREACH_NEEDFRAG : Int := 4
def ICMP_UNREACH_SRCFAIL : Int := 5
def ICMP_TIMXCEED : UInt8 := 11
def IPPROTO_UDP : UInt8 := 17
def IPVERSION : UInt8 := 4

def htons (x : UInt16) : UInt16 := (x <<< 8) ||| (x >>> 8)

/-- `struct opacket` -/
structure Opacket where
  ipV : UInt8
  ipHl : UInt8
  ipTos : UInt8
  ipLen : UInt16
  ipId : UInt16
  ipOff : UInt16
  ipTtl : UInt8
  ipP : UInt8
  ipSum : UInt16
  ipDst : Nat
  uhSport : UInt16
  uhDport : UInt16
  uhUlen : UInt16
  uhSum : UInt16
  seq : UInt8
  ttl : UInt8
  tv : Timeval
deriving DecidableEq, Repr

/-- `sizeof(struct opacket)` -/
def datalen : UInt16 := 48

def port : UInt16 := 32768 + 666

/-- What `send_probe` writes into `*outpacket`. -/
def sendProbe (ident : UInt16) (op : Opacket) (seq : UInt8) (ttl : Nat) (clock : Timeval) : Opacket :=
  { op with
    ipOff := 0
    ipSum := 0
    ipHl := (20 : UInt8) >>> 2
    ipP := IPPROTO_UDP
    ipLen := datalen
    ipTtl := UInt8.ofNat ttl
    ipV := IPVERSION
    ipId := htons (ident + seq.toUInt16)
    uhSport := htons ident
    uhDport := htons (port + seq.toUInt16)
    uhUlen := htons (datalen - 20)
    uhSum := 0
    seq := seq
    ttl := UInt8.ofNat ttl
    tv := clock }

/-- `icmp_packet_ok`; the sequence number is an argument it does not look at. -/
def icmpPacketOk (buf : Nat → UInt8) (len : Int) (_seq : UInt8) : Int :=
  let hlen := iphdrLen buf
  let len := len - hlen
  if len < 8 then -1
  else if buf hlen = ICMP_TIMXCEED then -1
  else (buf (hlen + 1)).toNat + 1

/-- The next statements of `main`. -/
inductive Pc where
  /-- `ttl < 64` -/
  | outer
  /-- `probe < 3` -/
  | inner
  | send
  | select
  | recvfrom
  /-- the answer, after `recvfrom` returned `len` -/
  | judge (len : Int)
  | exitTest
  | ended (status : Int)
deriving DecidableEq, Repr

/-- A datagram at the socket: which of the probes sent elicited it, who sent it, its bytes. -/
structure Datagram where
  answers : Option Nat
  src : Nat
  bytes : List UInt8
deriving DecidableEq, Repr

/-- What is printed for a probe: the router if it is a new one, the two times whose difference is the round-trip time,
and the mark of an unreachable message. -/
inductive Line where
  | star
  | answer (router : Option Nat) (t1 t2 : Timeval) (mark : Option Char)
deriving DecidableEq, Repr

structure State where
  pc : Pc
  ttl : Nat
  seq : UInt8
  probe : Nat
  lastaddr : Nat
  tv : Timeval
  t1 : Timeval
  t2 : Timeval
  recvBuf : Nat → UInt8
  fromAddr : Nat
  gotThere : Nat
  unreachable : Nat
  outpacket : Opacket
  printed : List Line
  sent : List Opacket
  /-- every datagram that arrived; `recvfrom` has taken the first `taken` -/
  arrived : List Datagram
  taken : Nat

/-- The loop's start, for a destination; `from` is not initialised. -/
def init (dst src : Nat) : State where
  pc := .outer
  ttl := 1
  seq := 1
  probe := 0
  lastaddr := 0
  tv := ⟨5, 0⟩
  t1 := ⟨0, 0⟩
  t2 := ⟨0, 0⟩
  recvBuf := fun _ => 0
  fromAddr := src
  gotThere := 0
  unreachable := 0
  outpacket := ⟨IPVERSION, 0, 0, 0, 0, 0, 0, 0, 0, dst, 0, 0, 0, 0, 0, 0, ⟨0, 0⟩⟩
  printed := []
  sent := []
  arrived := []
  taken := 0

inductive Act where
  /-- a statement of `main`: a clock reading, what a system call returns, and what `select` leaves of the timeout -/
  | main (clock : Timeval) (ret : Int) (left : Timeval)
  | answer (k src : Nat) (bytes : List UInt8)
  | other (src : Nat) (bytes : List UInt8)

def usec (t : Timeval) : Int := t.tvSec * 1000000 + t.tvUsec

/-- What `switch(i - 1)` adds to `got_there` and to `unreachable`, and the mark it prints. -/
def verdictOf (i : Int) : Nat × Nat × Option Char :=
  if i - 1 = ICMP_UNREACH_PORT then (1, 0, none)
  else if i - 1 = ICMP_UNREACH_NET then (0, 1, some 'N')
  else if i - 1 = ICMP_UNREACH_HOST then (0, 1, some 'H')
  else if i - 1 = ICMP_UNREACH_PROTOCOL then (1, 0, some 'P')
  else if i - 1 = ICMP_UNREACH_NEEDFRAG then (0, 1, some 'F')
  else if i - 1 = ICMP_UNREACH_SRCFAIL then (0, 1, some 'S')
  else (0, 0, none)

/-- The statements after `recvfrom`. -/
def judge (s : State) (len : Int) (clock : Timeval) : State :=
  let i := icmpPacketOk s.recvBuf len s.seq
  if i ≠ 0 then
    let (got, unr, mark) := verdictOf i
    { s with
      t2 := clock
      printed := s.printed ++ [.answer (if s.fromAddr ≠ s.lastaddr then some s.fromAddr else none) s.t1 clock mark]
      lastaddr := s.fromAddr
      gotThere := s.gotThere + got
      unreachable := s.unreachable + unr
      pc := .exitTest }
  else { s with t2 := clock, printed := s.printed ++ [.star], pc := .exitTest }

def mainStep (ident : UInt16) (s : State) (clock : Timeval) (ret : Int) (left : Timeval) : Option State :=
  match s.pc with
  | .outer =>
    if s.ttl < 64 then some { s with lastaddr := 0, probe := 0, pc := .inner } else some { s with pc := .ended 0 }
  | .inner =>
    if s.probe < 3 then some { s with t1 := clock, pc := .send }
    else some { s with ttl := s.ttl + 1, seq := s.seq + 1, pc := .outer }
  | .send =>
    let op := sendProbe ident s.outpacket s.seq s.ttl clock
    some { s with outpacket := op, sent := if ret < 0 then s.sent else s.sent ++ [op], pc := .select }
  | .select =>
    if 0 ≤ usec left ∧ usec left ≤ usec s.tv then
      if ret < 0 then some { s with tv := left, pc := .exitTest }
      else if ret = 0 then
        if s.taken = s.arrived.length ∧ usec left = 0 then
          some { s with tv := left, printed := s.printed ++ [.star], pc := .exitTest }
        else none
      else if s.taken < s.arrived.length then some { s with tv := left, pc := .recvfrom }
      else none
    else none
  | .recvfrom =>
    if ret < 0 then some { s with pc := .judge (-1) }
    else
      match s.arrived[s.taken]? with
      | none => none
      | some d =>
        let bytes := d.bytes.take 512
        some { s with
          recvBuf := setBytes s.recvBuf 0 bytes
          fromAddr := d.src
          taken := s.taken + 1
          pc := .judge bytes.length }
  | .judge len => some (judge s len clock)
  | .exitTest =>
    if s.gotThere > 0 ∨ s.unreachable ≥ 2 then some { s with pc := .ended 0 }
    else some { s with probe := s.probe + 1, pc := .inner }
  | .ended _ => none

/-- **The wait for a datagram** takes from the timeout, and leads to `recvfrom` or to the test of the inner loop. -/
theorem mainStep_select {ident : UInt16} {s s' : State} {clock left : Timeval} {ret : Int}
    (h : mainStep ident s clock ret left = some s') (hpc : s.pc = .select) :
    usec left ≤ usec s.tv ∧ ∃ printed pc, (pc = .exitTest ∨ pc = .recvfrom) ∧
      s' = { s with tv := left, printed := printed, pc := pc } := by
  unfold mainStep at h
  rw [hpc] at h
  dsimp only at h
  split at h
  · rename_i hle
    refine ⟨hle.2, ?_⟩
    split at h
    · cases h
      exact ⟨_, _, .inl rfl, rfl⟩
    · split at h
      · split at h
        · cases h
          exact ⟨_, _, .inl rfl, rfl⟩
        · cases h
      · split at h
        · cases h
          exact ⟨_, _, .inr rfl, rfl⟩
        · cases h
  · cases h

def step (ident : UInt16) (s : State) : Act → Option State
  | .main clock ret left => mainStep ident s clock ret left
  | .answer k src bytes =>
    if k < s.sent.length then some { s with arrived := s.arrived ++ [⟨some k, src, bytes⟩] } else none
  | .other src bytes => some { s with arrived := s.arrived ++ [⟨none, src, bytes⟩] }

end TracerouteUdp
end Cc
