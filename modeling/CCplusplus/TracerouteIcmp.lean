import CCplusplus.TracerouteUdp
/-!
# TracerouteIcmp — `traceroute_icmp.c`, its probe loop

The state is that of `main` from its probe loop on, with the probes sent and the datagrams that have arrived at the raw
socket.  An action is the next statement of `main`, with what it gets from outside, or the arrival of a datagram.
-/
namespace Cc
namespace TracerouteIcmp

open CLib
open TracerouteUdp (ICMP_TIMXCEED usec verdictOf)

def ICMP_UNREACH : UInt8 := 3
def ICMP_TIMXCEED_INTRANS : UInt8 := 0

/-- A probe as it leaves: the socket's time to live and the bytes sent. -/
structure Probe where
  ipTtl : Nat
  bytes : List UInt8
deriving DecidableEq, Repr

/-- What `send_probe` sends: the `ttl` is the sequence number and the `seq` the id. -/
def sendProbe (seq : UInt8) (ttl : Nat) (clock : Timeval) : Probe :=
  let (sendBuf, packSize) := icmpPack (fun _ => 0) ttl (seq.toNat &&& 0xFFFF : Nat) clock
  ⟨ttl, bytesAt sendBuf 0 packSize⟩

/-- `icmp_packet_ok`; the sequence number is an argument it does not look at. -/
def icmpPacketOk (buf : Nat → UInt8) (len : Int) (_seq : UInt8) : Int :=
  let hlen := iphdrLen buf
  let len := len - hlen
  if len < 8 then -1
  else if (buf hlen = ICMP_TIMXCEED ∧ buf (hlen + 1) = ICMP_TIMXCEED_INTRANS) ∨ buf hlen = ICMP_UNREACH then
    (buf (hlen + 1)).toNat + 1
  else 0

/-- The next statements of `main`. -/
inductive Pc where
  /-- `ttl < 128` -/
  | outer
  /-- `probe < 3` -/
  | inner
  | send
  | select
  | recvfrom
  /-- the reply, after `recvfrom` returned `len` -/
  | judge (len : Int)
  | sleep
  /-- `return 0`, after the loop -/
  | returned
  /-- `exit(0)`, in the loop -/
  | exited
deriving DecidableEq, Repr

structure Datagram where
  src : Nat
  bytes : List UInt8
deriving DecidableEq, Repr

/-- What is printed: that a probe was sent, the reply to it with the two times whose difference is the round-trip time,
and the two counters. -/
inductive Line where
  | wrote (packSize : Nat) (ret : Int)
  | answer (router : Option Nat) (t1 t2 : Timeval) (mark : Option Char)
  | counters (gotThere unreachable : Nat)
deriving DecidableEq, Repr

structure State where
  pc : Pc
  ttl : Nat
  seq : UInt8
  probe : Nat
  lastaddr : Nat
  tv : Timeval
  t1 : Timeval
  t2 : Timeval
  recvBuf : Nat → UInt8
  fromAddr : Nat
  gotThere : Nat
  unreachable : Nat
  printed : List Line
  sent : List Probe
  /-- every datagram that arrived; `recvfrom` has taken the first `taken` -/
  arrived : List Datagram
  taken : Nat

/-- The loop's start; `from` is not initialised. -/
def init (src : Nat) : State where
  pc := .outer
  ttl := 1
  seq := 1
  probe := 0
  lastaddr := 0
  tv := ⟨5, 0⟩
  t1 := ⟨0, 0⟩
  t2 := ⟨0, 0⟩
  recvBuf := fun _ => 0
  fromAddr := src
  gotThere := 0
  unreachable := 0
  printed := []
  sent := []
  arrived := []
  taken := 0

inductive Act where
  /-- a statement of `main`: a clock reading, what a system call returns, and what `select` leaves of the timeout -/
  | main (clock : Timeval) (ret : Int) (left : Timeval)
  | arrive (d : Datagram)

/-- The statements after `recvfrom`.  The inner `break` leaves the `switch` on what `select` returned, and the test
under it guards nothing: where `icmp_packet_ok` returns 0, control falls to `exit(0)`. -/
def judge (s : State) (len : Int) (clock : Timeval) : State :=
  let i := icmpPacketOk s.recvBuf len s.seq
  if i ≠ 0 then
    let (got, unr, mark) := verdictOf i
    { s with
      t2 := clock
      printed := s.printed ++ [.answer (if s.fromAddr ≠ s.lastaddr then some s.fromAddr else none) s.t1 clock mark]
      lastaddr := s.fromAddr
      gotThere := s.gotThere + got
      unreachable := s.unreachable + unr
      probe := s.probe + 1
      pc := .inner }
  else { s with t2 := clock, printed := s.printed ++ [.counters s.gotThere s.unreachable], pc := .exited }

def mainStep (s : State) (clock : Timeval) (ret : Int) (left : Timeval) : Option State :=
  match s.pc with
  | .outer =>
    if s.ttl < 128 then some { s with lastaddr := 0, probe := 0, pc := .inner } else some { s with pc := .returned }
  | .inner => if s.probe < 3 then some { s with t1 := clock, pc := .send } else some { s with pc := .sleep }
  | .send =>
    let p := sendProbe s.seq s.ttl clock
    some { s with
      sent := if ret < 0 then s.sent else s.sent ++ [p]
      printed := s.printed ++ [.wrote p.bytes.length ret]
      pc := .select }
  | .select =>
    if 0 ≤ usec left ∧ usec left ≤ usec s.tv then
      if ret = -1 then some { s with tv := left, probe := s.probe + 1, pc := .inner }
      else if ret = 0 then
        if s.taken = s.arrived.length ∧ usec left = 0 then
          some { s with tv := left, probe := s.probe + 1, pc := .inner }
        else none
      else if s.taken < s.arrived.length then some { s with tv := left, pc := .recvfrom }
      else none
    else none
  | .recvfrom =>
    if ret < 0 then some { s with pc := .judge (-1) }
    else
      match s.arrived[s.taken]? with
      | none => none
      | some d =>
        let bytes := d.bytes.take 512
        some { s with
          recvBuf := setBytes s.recvBuf 0 bytes
          fromAddr := d.src
          taken := s.taken + 1
          pc := .judge bytes.length }
  | .judge len => some (judge s len clock)
  | .sleep => some { s with ttl := s.ttl + 1, seq := s.seq + 1, pc := .outer }
  | .returned => none
  | .exited => none

def step (s : State) : Act → Option State
  | .main clock ret left => mainStep s clock ret left
  | .arrive d => some { s with arrived := s.arrived ++ [d] }

end TracerouteIcmp
end Cc
