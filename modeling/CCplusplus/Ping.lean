import CCplusplus.MyIcmp
import CCplusplus.Lib.Machine
/-!
# Ping — `ping.c` among its threads, the signal and the network

One state holds the globals, the program counters of `main`, `ping_send`, `ping_recv` and the SIGINT handler, and the
network.  An action is the next statement of one of the four, the delivery of SIGINT, or the arrival of a datagram at the
raw socket; it carries what the statement gets from outside, a clock reading or what a system call returns.  Echo replies
arrive in any order, any number of times or never, among datagrams of any other contents.
-/
namespace Cc
namespace Ping

open CLib

inductive Thread where
  | main
  | sender
  | receiver
deriving DecidableEq, Repr

inductive MainPc where
  | createSend
  | createRecv
  | joinSend
  | joinRecv
  | stats
  | returned (r : Int)
deriving DecidableEq, Repr

inductive SendPc where
  | start
  | test
  | stamp
  | flag
  | seq
  | pack
  | sendto
  | count (sent : Bool)
  | sleep
  | done
deriving DecidableEq, Repr

inductive RecvPc where
  | test
  | select
  | recv
  | unpack (size : Nat)
  | count
  | done
deriving DecidableEq, Repr

/-- The next statement of `icmp_sigint`. -/
inductive SigPc where
  | alive
  | endTime
  | timeInterval
deriving DecidableEq, Repr

/-- A datagram at the socket: its bytes, and which of the packets sent it answers. -/
structure Datagram where
  answers : Option Nat
  bytes : List UInt8
deriving DecidableEq, Repr

structure State where
  main : MainPc
  sender : SendPc
  receiver : RecvPc
  /-- the thread that the signal handler interrupts -/
  handler : Option (Thread × SigPc)
  alive : Bool
  pingPacket : Nat → PingPacketStatus
  sendCount : Nat
  recvCount : Nat
  startTime : Timeval
  endTime : Timeval
  timeInterval : Timeval
  sendBuf : Nat → UInt8
  packSize : Nat
  recvBuf : Nat → UInt8
  printed : List Printed
  /-- the packets that `sendto` transmitted -/
  sent : List (List UInt8)
  /-- every datagram that arrived; `recv` has taken the first `taken` -/
  arrived : List Datagram
  taken : Nat

def init : State where
  main := .createSend
  sender := .start
  receiver := .test
  handler := none
  alive := true
  pingPacket := fun _ => ⟨0, 0, ⟨0, 0⟩, ⟨0, 0⟩⟩
  sendCount := 0
  recvCount := 0
  startTime := ⟨0, 0⟩
  endTime := ⟨0, 0⟩
  timeInterval := ⟨0, 0⟩
  sendBuf := fun _ => 0
  packSize := 0
  recvBuf := fun _ => 0
  printed := []
  sent := []
  arrived := []
  taken := 0

inductive Act where
  | main (created : Bool)
  | send (clock : Timeval) (transmitted : Bool)
  | recv (ret : Int) (clock : Timeval)
  | sigint (t : Thread)
  | handler (clock : Timeval)
  /-- a reply to packet `j` of those sent, under an IP header -/
  | reply (j : Nat) (ipHdr : List UInt8) (cksum : UInt8 × UInt8)
  /-- any other datagram -/
  | other (bytes : List UInt8)

/-- `pid & 0xffff` -/
def icmpid (pid : Nat) : Int := (pid % 65536 : Nat)

/-- A thread takes steps once it is created, while the process lives and no handler runs on it. -/
def canStep (s : State) (t : Thread) : Bool :=
  (match s.handler with
    | some (t', _) => decide (t' ≠ t)
    | none => true) &&
  match t, s.main with
  | _, .returned _ => false
  | .sender, .createSend => false
  | .receiver, .createSend => false
  | .receiver, .createRecv => false
  | _, _ => true

def modifyEntry (s : State) (i : Nat) (f : PingPacketStatus → PingPacketStatus) : State :=
  { s with pingPacket := fun k => if k = i then f (s.pingPacket k) else s.pingPacket k }

/-- `ping_send` -/
def sendStep (pid : Nat) (s : State) (clock : Timeval) (transmitted : Bool) : Option State :=
  match s.sender with
  | .start => some { s with startTime := clock, sender := .test }
  | .test => some { s with sender := if s.alive && decide (s.sendCount < PACKET_SEND_MAX_NUM) then .stamp else .done }
  | .stamp => some { modifyEntry s s.sendCount (fun e => { e with beginTime := clock }) with sender := .flag }
  | .flag => some { modifyEntry s s.sendCount (fun e => { e with flag := 1 }) with sender := .seq }
  | .seq => some { modifyEntry s s.sendCount (fun e => { e with seq := s.sendCount }) with sender := .pack }
  | .pack =>
    let (buf, len) := icmpPack s.sendBuf s.sendCount (icmpid pid) clock
    some { s with sendBuf := buf, packSize := len, sender := .sendto }
  | .sendto =>
    some { s with
      sent := if transmitted then s.sent ++ [bytesAt s.sendBuf 0 s.packSize] else s.sent
      sender := .count transmitted }
  | .count sent => some { s with sendCount := s.sendCount + 1, sender := if sent then .sleep else .test }
  | .sleep => some { s with sender := .test }
  | .done => none

/-- `ping_recv`; `ret` is what `select` returns, or negative where `recv` fails. -/
def recvStep (pid : Nat) (s : State) (ret : Int) (clock : Timeval) : Option State :=
  match s.receiver with
  | .test => some { s with receiver := if s.alive && decide (s.recvCount < PACKET_SEND_MAX_NUM) then .select else .done }
  | .select =>
    if ret ≤ 0 then some { s with receiver := .test }
    else if s.taken < s.arrived.length then some { s with receiver := .recv }
    else none
  | .recv =>
    if ret < 0 then some { s with receiver := .test }
    else
      match s.arrived[s.taken]? with
      | none => none
      | some d =>
        let bytes := d.bytes.take 512
        some { s with recvBuf := setBytes s.recvBuf 0 bytes, taken := s.taken + 1, receiver := .unpack bytes.length }
  | .unpack size =>
    let (r, entry, line) := icmpUnpack s.recvBuf size (icmpid pid) (s.pingPacket s.recvCount) clock
    let s := modifyEntry s s.recvCount (fun _ => entry)
    some { s with printed := s.printed ++ line.toList, receiver := if r = -1 then .test else .count }
  | .count => some { s with recvCount := s.recvCount + 1, receiver := .test }
  | .done => none

/-- `icmp_sigint` -/
def handlerStep (s : State) (clock : Timeval) : Option State :=
  match s.main, s.handler with
  | .returned _, _ => none
  | _, none => none
  | _, some (t, .alive) => some { s with alive := false, handler := some (t, .endTime) }
  | _, some (t, .endTime) => some { s with endTime := clock, handler := some (t, .timeInterval) }
  | _, some (_, .timeInterval) => some { s with timeInterval := timeOffset s.startTime s.endTime, handler := none }

/-- `main`, from the installation of the handler on. -/
def mainStep (s : State) (created : Bool) : Option State :=
  match s.main with
  | .createSend => some { s with main := if created then .createRecv else .returned (-1) }
  | .createRecv => some { s with main := if created then .joinSend else .returned (-1) }
  | .joinSend => if s.sender = .done then some { s with main := .joinRecv } else none
  | .joinRecv => if s.receiver = .done then some { s with main := .stats } else none
  | .stats => some { s with main := .returned 0 }
  | .returned _ => none

/-- An echo reply: the packet with its type, code and checksum replaced, under an IP header of the length it states. -/
def echoReply (ipHdr : List UInt8) (cksum : UInt8 × UInt8) (packet : List UInt8) : List UInt8 :=
  ipHdr ++ [ICMP_ECHOREPLY, 0, cksum.1, cksum.2] ++ packet.drop 4

/-- The datagram that an action brings to the socket. -/
def arrival (s : State) : Act → Option Datagram
  | .reply j ipHdr cksum =>
    if ipHdr.length ≥ 20 ∧ iphdrLen (fun k => ipHdr.getD k 0) = ipHdr.length then
      s.sent[j]?.map (fun packet => ⟨some j, echoReply ipHdr cksum packet⟩)
    else none
  | .other bytes => some ⟨none, bytes⟩
  | _ => none

def step (pid : Nat) (s : State) (a : Act) : Option State :=
  match a with
  | .main created => if canStep s .main then mainStep s created else none
  | .send clock transmitted => if canStep s .sender then sendStep pid s clock transmitted else none
  | .recv ret clock => if canStep s .receiver then recvStep pid s ret clock else none
  | .sigint t => if canStep s t && s.handler.isNone then some { s with handler := some (t, .alive) } else none
  | .handler clock => handlerStep s clock
  | .reply _ _ _ => (arrival s a).map (fun d => { s with arrived := s.arrived ++ [d] })
  | .other _ => (arrival s a).map (fun d => { s with arrived := s.arrived ++ [d] })

/-- What `ping_stats_show` prints. -/
structure Stats where
  transmitted : Int
  recieved : Int
  loss : Int
  time : Int
deriving DecidableEq, Repr

/-- `ping_stats_show`; a division by zero has no result. -/
def pingStatsShow (s : State) : Option Stats :=
  let time := s.timeInterval.tvSec * 1000 + s.timeInterval.tvUsec.tdiv 1000
  if s.sendCount = 0 then none
  else some ⟨s.sendCount, s.recvCount, (((s.sendCount : Int) - s.recvCount) * 100).tdiv s.sendCount, time⟩

end Ping
end Cc
