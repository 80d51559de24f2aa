import CCplusplus.TracerouteUdp
/-!
# SetDest — `set_dest` of `my_icmp.c`, and what its callers make of the value it returns

`inet_addr` and `gethostbyname` are arguments.  The -1 of a failure is returned as an `unsigned int` and compared, as one,
with 0: the test fails for every value, and `main` of the three programs goes on with the address 0.0.0.0 where the name
does not resolve (`setDest_told_iff`).  No other test on the value would do, as -1 is the address 255.255.255.255 too
(`setDest_broadcast`).
-/
namespace Cc

open CLib

def AF_INET : UInt16 := 2
def INADDR_NONE : UInt32 := 0xFFFFFFFF

structure SockaddrIn where
  sinFamily : UInt16
  sinPort : UInt16
  sinAddr : UInt32
deriving DecidableEq, Repr

/-- What the C library answers: `inet_addr`, and the first address of the `struct hostent` of `gethostbyname`. -/
structure Resolver where
  inetAddr : List UInt8 → UInt32
  gethostbyname : List UInt8 → Option UInt32

/-- `set_dest`: the value returned, `*dest` after it and what is printed. -/
def setDest (r : Resolver) (ipaddr : List UInt8) : UInt32 × SockaddrIn × List String :=
  let dest : SockaddrIn := ⟨0, 0, 0⟩
  let dest := { dest with sinFamily := AF_INET }
  let inaddr := r.inetAddr ipaddr
  if inaddr = INADDR_NONE then
    match r.gethostbyname ipaddr with
    | none => (-1, dest, ["Fail to gethostbyname!\n"])
    | some hAddr =>
      let dest := { dest with sinAddr := hAddr }
      (dest.sinAddr, dest, [])
  else
    let dest := { dest with sinAddr := inaddr }
    (dest.sinAddr, dest, [])

/-- `raw_sock`, for what `getprotobyname` and `socket` return. -/
def rawSock (getprotobyname : Option Int) (socket : Int → Int) : Int × List String :=
  match getprotobyname with
  | none => (-1, ["Fail to getprotocolbyname!\n"])
  | some pProto =>
    let rawsock := socket pProto
    if rawsock < 0 then (-1, ["Fail to create socket!\n"]) else (rawsock, [])

/-- `main` of a program up to the test on `inaddr`: the status it returns, or `inaddr` and `dest` where it goes on. -/
abbrev Start := Except Int (UInt32 × SockaddrIn) × List String

/-- The call of `set_dest` and the test, which are the same text in the three programs. -/
def callSetDest (r : Resolver) (ipaddr : List UInt8) : Start :=
  let (inaddr, dest, printed) := setDest r ipaddr
  if inaddr < 0 then (.error (-1), printed) else (.ok (inaddr, dest), printed)

def Ping.mainStart (r : Resolver) (getprotobyname : Option Int) (socket : Int → Int) : List (List UInt8) → Start
  | _ :: ipaddr :: _ =>
    let (rawsock, printed) := rawSock getprotobyname socket
    if rawsock < 0 then (.error (-1), printed) else callSetDest r ipaddr
  | _ => (.error (-1), ["Invalid IP address!\n"])

def TracerouteUdp.mainStart (r : Resolver) : List (List UInt8) → Start
  | _ :: ipaddr :: _ => callSetDest r ipaddr
  | _ => (.error (-1), ["Invalid IP address!\n"])

def TracerouteIcmp.mainStart (r : Resolver) : List (List UInt8) → Start
  | _ :: ipaddr :: _ => callSetDest r ipaddr
  | _ => (.error (-1), ["Invalid IP address!\n"])

/-! ## The purpose -/

/-- The address of a name: a dotted one's own, or that of the host. -/
def resolved (r : Resolver) (ipaddr : List UInt8) : Option UInt32 :=
  if r.inetAddr ipaddr = INADDR_NONE then r.gethostbyname ipaddr else some (r.inetAddr ipaddr)

/-- `main`, where it calls `set_dest`, returns -1 for a name that does not resolve and goes on to the address of one that
does. -/
structure Told (r : Resolver) (ipaddr : List UInt8) (start : Start) : Prop where
  failed : resolved r ipaddr = none → start.1 = .error (-1)
  goesOn : ∀ addr, resolved r ipaddr = some addr → start.1 = .ok (addr, ⟨AF_INET, 0, addr⟩)

theorem setDest_some {r : Resolver} {ipaddr : List UInt8} {addr : UInt32} (h : resolved r ipaddr = some addr) :
    setDest r ipaddr = (addr, ⟨AF_INET, 0, addr⟩, []) := by
  unfold resolved at h
  unfold setDest
  simp only
  split at h
  · rename_i hn
    rw [if_pos hn, h]
  · rename_i hn
    cases h
    rw [if_neg hn]

/-- On failure the address is still that of `bzero`. -/
theorem setDest_none {r : Resolver} {ipaddr : List UInt8} (h : resolved r ipaddr = none) :
    setDest r ipaddr = (-1, ⟨AF_INET, 0, 0⟩, ["Fail to gethostbyname!\n"]) := by
  unfold resolved at h
  unfold setDest
  simp only
  split at h
  · rename_i hn
    rw [if_pos hn, h]
  · cases h

/-- **The value of a failure is that of the address 255.255.255.255** and of no other. -/
theorem setDest_broadcast {r : Resolver} {ipaddr : List UInt8} (h : resolved r ipaddr = none) (r' : Resolver)
    (ipaddr' : List UInt8) : (setDest r' ipaddr').1 = (setDest r ipaddr).1 ↔
      resolved r' ipaddr' = none ∨ resolved r' ipaddr' = some INADDR_NONE := by
  rw [setDest_none h]
  cases hr : resolved r' ipaddr' with
  | none =>
    rw [setDest_none hr]
    exact ⟨fun _ => .inl rfl, fun _ => rfl⟩
  | some addr =>
    rw [setDest_some hr]
    exact ⟨fun ha => .inr (congrArg some ha), fun ha => Option.some.inj (ha.resolve_left nofun)⟩

/-- The test on `inaddr` holds for no value. -/
theorem callSetDest_eq (r : Resolver) (ipaddr : List UInt8) :
    callSetDest r ipaddr = (.ok ((setDest r ipaddr).1, (setDest r ipaddr).2.1), (setDest r ipaddr).2.2) := by
  unfold callSetDest
  cases setDest r ipaddr with
  | mk inaddr rest => exact if_neg UInt32.not_lt_zero

theorem callSetDest_none {r : Resolver} {ipaddr : List UInt8} (h : resolved r ipaddr = none) :
    (callSetDest r ipaddr).1 = .ok (-1, ⟨AF_INET, 0, 0⟩) := by
  rw [callSetDest_eq, setDest_none h]

theorem callSetDest_told_iff (r : Resolver) (ipaddr : List UInt8) :
    Told r ipaddr (callSetDest r ipaddr) ↔ (resolved r ipaddr).isSome := by
  constructor
  · intro h
    cases hr : resolved r ipaddr with
    | none =>
      have hbad := (callSetDest_none hr).symm.trans (h.failed hr)
      cases hbad
    | some addr => rfl
  · intro h
    obtain ⟨addr, hr⟩ := Option.isSome_iff_exists.1 h
    refine ⟨fun hn => ?_, fun a ha => ?_⟩
    · rw [hr] at hn
      cases hn
    · rw [callSetDest_eq, setDest_some ha]

/-- **`main` of the three programs is told of a failure exactly when there is none.**  That of `ping` calls `set_dest` with
a raw socket only. -/
theorem setDest_told_iff (r : Resolver) (getprotobyname : Option Int) (socket : Int → Int) (prog ipaddr : List UInt8)
    (args : List (List UInt8)) :
    ((0 ≤ (rawSock getprotobyname socket).1 →
        Told r ipaddr (Ping.mainStart r getprotobyname socket (prog :: ipaddr :: args))) ↔
      ((rawSock getprotobyname socket).1 < 0 ∨ (resolved r ipaddr).isSome)) ∧
    (Told r ipaddr (TracerouteUdp.mainStart r (prog :: ipaddr :: args)) ↔ (resolved r ipaddr).isSome) ∧
    (Told r ipaddr (TracerouteIcmp.mainStart r (prog :: ipaddr :: args)) ↔ (resolved r ipaddr).isSome) := by
  refine ⟨?_, callSetDest_told_iff r ipaddr, callSetDest_told_iff r ipaddr⟩
  by_cases hraw : (rawSock getprotobyname socket).1 < 0
  · exact ⟨fun _ => .inl hraw, fun _ h => absurd hraw (Int.not_lt.2 h)⟩
  · have hcall : Ping.mainStart r getprotobyname socket (prog :: ipaddr :: args) = callSetDest r ipaddr := if_neg hraw
    rw [hcall, callSetDest_told_iff]
    exact ⟨fun h => .inr (h (Int.not_lt.1 hraw)), fun h _ => h.resolve_left hraw⟩

/-- No name resolves. -/
def noHost : Resolver := ⟨fun _ => INADDR_NONE, fun _ => none⟩

/-- The name `x` does not resolve, and the three programs go on. -/
theorem setDest_untold :
    ¬ Told noHost [120] (Ping.mainStart noHost (some 1) (fun _ => 3) [[112], [120]]) ∧
    ¬ Told noHost [120] (TracerouteUdp.mainStart noHost [[116], [120]]) ∧
    ¬ Told noHost [120] (TracerouteIcmp.mainStart noHost [[116], [120]]) :=
  ⟨fun h => (nomatch h.failed rfl), fun h => (nomatch h.failed rfl), fun h => (nomatch h.failed rfl)⟩

/-- **A name that does not resolve is probed at 0.0.0.0.** -/
theorem TracerouteUdp.probes_unresolved {r : Resolver} {ipaddr : List UInt8} (h : resolved r ipaddr = none)
    (prog : List UInt8) (args : List (List UInt8)) (ident : UInt16) (src : Nat) (clock left : Timeval) {ret : Int}
    (hret : 0 ≤ ret) :
    ∃ inaddr dest s op, (mainStart r (prog :: ipaddr :: args)).1 = .ok (inaddr, dest) ∧
      run (step ident) [.main clock 0 left, .main clock 0 left, .main clock ret left] (init dest.sinAddr.toNat src) =
        some s ∧
      s.sent = [op] ∧ op.ipDst = 0 := by
  refine ⟨-1, ⟨AF_INET, 0, 0⟩, _, _, callSetDest_none h, rfl, if_neg (Int.not_lt.2 hret), rfl⟩

end Cc
