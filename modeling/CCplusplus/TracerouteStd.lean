import CCplusplus.TracerouteUdp
/-!
# TracerouteStd — `traceroute_std.c`, its probe loop and the ICMP socket

The original of the two others.  The state is that of `main` from its probe loop on, with the probes sent and the
datagrams that have arrived at the ICMP socket.  An action is the next statement of `main`, with what it gets from
outside, or the arrival of a datagram: an answer that a probe of this process elicited, at any time and any number of
times, or ICMP traffic of others.  A datagram that `packet_ok` rejects is followed by another wait.
-/
namespace Cc
namespace TracerouteStd

open CLib
open TracerouteUdp (Opacket Datagram htons verdictOf ICMP_TIMXCEED IPPROTO_UDP IPVERSION)

def ICMP_UNREACH : UInt8 := 3
def ICMP_TIMXCEED_INTRANS : UInt8 := 0
def ICMP_MINLEN : Int := 8

/-- What the options have set, as `main` checks it. -/
structure Config where
  nprobes : Nat
  nprobes_pos : 0 < nprobes
  maxTtl : Nat
  one_lt_maxTtl : 1 < maxTtl
  port : UInt16
  verbose : Bool
  /-- `(getpid() & 0xffff) | 0x8000` -/
  ident : UInt16
  datalen : Nat

/-- What `send_probe` writes into `*outpacket`. -/
def sendProbe (cfg : Config) (op : Opacket) (seq ttl : Nat) (clock : Timeval) : Opacket :=
  { op with
    ipOff := 0
    ipHl := (20 : UInt8) >>> 2
    ipP := IPPROTO_UDP
    ipLen := UInt16.ofNat cfg.datalen
    ipTtl := UInt8.ofNat ttl
    ipV := IPVERSION
    ipId := htons (cfg.ident + UInt16.ofNat seq)
    uhSport := htons cfg.ident
    uhDport := htons (cfg.port + UInt16.ofNat seq)
    uhUlen := htons (UInt16.ofNat (cfg.datalen - 20))
    uhSum := 0
    seq := UInt8.ofNat seq
    ttl := UInt8.ofNat ttl
    tv := clock }

/-- The UDP ports that an ICMP message quotes, where it is long enough for them and of the two types; with the message's
type and code. -/
def quoted (buf : Nat → UInt8) (cc : Int) : Option (UInt8 × UInt8 × Nat × Nat) :=
  let hlen := iphdrLen buf
  if cc < hlen + ICMP_MINLEN then none
  else
    let cc := cc - hlen
    let type := buf hlen
    let code := buf (hlen + 1)
    if type = ICMP_TIMXCEED ∧ code = ICMP_TIMXCEED_INTRANS ∨ type = ICMP_UNREACH then
      let hip := hlen + 8
      let hlen := (buf hip &&& 0x0F).toNat * 4
      let up := hip + hlen
      if (hlen : Int) + 12 ≤ cc ∧ buf (hip + 9) = IPPROTO_UDP then
        some (type, code, u16At buf up, u16At buf (up + 2))
      else none
    else none

def packetOk (cfg : Config) (buf : Nat → UInt8) (cc : Int) (seq : Nat) : Int :=
  let hlen := iphdrLen buf
  if cc < hlen + ICMP_MINLEN then 0
  else
    let cc := cc - hlen
    let type := buf hlen
    let code := buf (hlen + 1)
    if type = ICMP_TIMXCEED ∧ code = ICMP_TIMXCEED_INTRANS ∨ type = ICMP_UNREACH then
      let hip := hlen + 8
      let hlen := (buf hip &&& 0x0F).toNat * 4
      let up := hip + hlen
      if (hlen : Int) + 12 ≤ cc ∧ buf (hip + 9) = IPPROTO_UDP ∧ u16At buf up = (htons cfg.ident).toNat ∧
          u16At buf (up + 2) = (htons (cfg.port + UInt16.ofNat seq)).toNat then
        if type = ICMP_TIMXCEED then -1 else code.toNat + 1
      else 0
    else 0

/-- The next statements of `main`. -/
inductive Pc where
  /-- `ttl <= max_ttl` -/
  | outer
  /-- `probe < nprobes` -/
  | inner
  | send
  | select
  | recvfrom
  /-- after `wait_for_reply` has returned `cc` -/
  | judge (cc : Int)
  | exitTest
  | ended
deriving DecidableEq, Repr

/-- What follows the time of an answer. -/
def markOf (i : Int) (ipTtl : UInt8) : String :=
  if i - 1 = TracerouteUdp.ICMP_UNREACH_PORT then if ipTtl ≤ 1 then " !" else ""
  else match (verdictOf i).2.2 with
    | some c => String.ofList [' ', '!', c]
    | none => ""

/-- What is printed. -/
inductive Line where
  | hop (ttl : Nat)
  /-- `sendto` did not send the probe -/
  | wrote (ret : Int)
  /-- the two messages of `packet_ok` about a datagram that is none of its own -/
  | short (cc : Int)
  | dump (cc : Int) (type code : UInt8)
  /-- the router if it is a new one, the two times whose difference is the round-trip time, what `packet_ok` returned, and
  the mark that follows the time -/
  | answer (router : Option Nat) (t1 t2 : Timeval) (i : Int) (mark : String)
  | star
  | newline
deriving DecidableEq, Repr

structure State where
  pc : Pc
  ttl : Nat
  seq : Nat
  probe : Nat
  lastaddr : Nat
  t1 : Timeval
  t2 : Timeval
  packet : Nat → UInt8
  fromAddr : Nat
  gotThere : Nat
  unreachable : Nat
  outpacket : Opacket
  printed : List Line
  /-- the probes sent, with their numbers -/
  sent : List (Nat × Opacket)
  /-- every datagram that arrived; `recvfrom` has taken the first `taken` -/
  arrived : List Datagram
  taken : Nat

/-- The loop's start, for a destination; `from` is not initialised. -/
def init (dst src tos : Nat) : State where
  pc := .outer
  ttl := 1
  seq := 0
  probe := 0
  lastaddr := 0
  t1 := ⟨0, 0⟩
  t2 := ⟨0, 0⟩
  packet := fun _ => 0
  fromAddr := src
  gotThere := 0
  unreachable := 0
  outpacket := ⟨IPVERSION, 0, UInt8.ofNat tos, 0, 0, 0, 0, 0, 0, dst, 0, 0, 0, 0, 0, 0, ⟨0, 0⟩⟩
  printed := []
  sent := []
  arrived := []
  taken := 0

inductive Act where
  /-- a statement of `main`: a clock reading, and what a system call returns -/
  | main (clock : Timeval) (ret : Int)
  | answer (k src : Nat) (bytes : List UInt8)
  | other (src : Nat) (bytes : List UInt8)

/-- What `packet_ok` prints of a datagram that it rejects. -/
def complaint (cfg : Config) (buf : Nat → UInt8) (cc : Int) : List Line :=
  if cfg.verbose then
    if cc < iphdrLen buf + ICMP_MINLEN then [.short cc]
    else [.dump (cc - iphdrLen buf) (buf (iphdrLen buf)) (buf (iphdrLen buf + 1))]
  else []

/-- The statements after `wait_for_reply`. -/
def judge (cfg : Config) (s : State) (cc : Int) (clock : Timeval) : State :=
  let i := packetOk cfg s.packet cc s.seq
  if i ≠ 0 then
    let router := if s.fromAddr ≠ s.lastaddr then some s.fromAddr else none
    { s with
      t2 := clock
      printed := s.printed ++ [.answer router s.t1 clock i (markOf i (s.packet 8))]
      lastaddr := s.fromAddr
      gotThere := s.gotThere + (verdictOf i).1
      unreachable := s.unreachable + (verdictOf i).2.1
      probe := s.probe + 1
      pc := .inner }
  else { s with t2 := clock, printed := s.printed ++ complaint cfg s.packet cc, pc := .select }

/-- `cc == 0` -/
def star (s : State) : State := { s with printed := s.printed ++ [.star], probe := s.probe + 1, pc := .inner }

def mainStep (cfg : Config) (s : State) (clock : Timeval) (ret : Int) : Option State :=
  match s.pc with
  | .outer =>
    if s.ttl ≤ cfg.maxTtl then
      some { s with
        lastaddr := 0, gotThere := 0, unreachable := 0, probe := 0, printed := s.printed ++ [.hop s.ttl], pc := .inner }
    else some { s with pc := .ended }
  | .inner =>
    if s.probe < cfg.nprobes then some { s with t1 := clock, pc := .send }
    else some { s with printed := s.printed ++ [.newline], pc := .exitTest }
  | .send =>
    let op := sendProbe cfg s.outpacket (s.seq + 1) s.ttl clock
    some { s with
      seq := s.seq + 1
      outpacket := op
      sent := if ret < 0 then s.sent else s.sent ++ [(s.seq + 1, op)]
      printed := if ret < 0 ∨ ret ≠ cfg.datalen then s.printed ++ [.wrote ret] else s.printed
      pc := .select }
  | .select =>
    if ret < 0 then some (star s)
    else if ret = 0 then if s.taken = s.arrived.length then some (star s) else none
    else if s.taken < s.arrived.length then some { s with pc := .recvfrom }
    else none
  | .recvfrom =>
    if ret < 0 then some { s with pc := .judge (-1) }
    else
      match s.arrived[s.taken]? with
      | none => none
      | some d =>
        let bytes := d.bytes.take 512
        let s := { s with packet := setBytes s.packet 0 bytes, fromAddr := d.src, taken := s.taken + 1 }
        some (if bytes.length = 0 then star s else { s with pc := .judge bytes.length })
  | .judge cc => some (judge cfg s cc clock)
  | .exitTest =>
    if 0 < s.gotThere ∨ (cfg.nprobes : Int) - 1 ≤ s.unreachable then some { s with pc := .ended }
    else some { s with ttl := s.ttl + 1, pc := .outer }
  | .ended => none

def step (cfg : Config) (s : State) : Act → Option State
  | .main clock ret => mainStep cfg s clock ret
  | .answer k src bytes =>
    if k < s.sent.length then some { s with arrived := s.arrived ++ [⟨some k, src, bytes⟩] } else none
  | .other src bytes => some { s with arrived := s.arrived ++ [⟨none, src, bytes⟩] }

end TracerouteStd
end Cc
