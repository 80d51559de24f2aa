import CCplusplus.TracerouteIcmp
/-!
# TracerouteCounts — what the two programs count

`icmp_packet_ok` returns the code of a message plus one, and `main` decodes it with `switch(i - 1)`.  The code alone
says "unreachable" only under type 3, so a counter moves for no other message exactly when the messages whose code the
switch decodes are of type 3: those `traceroute_udp` must not receive are of every type but 3 and 11 with a code up
to 5, and for `traceroute_icmp` it is the time-exceeded message with code 0, the one that it is there for
(`traceroutes_count_iff`).
-/
namespace Cc

open CLib
open TracerouteUdp (verdictOf)

/-- Type and code of the ICMP message of a datagram, where at least 8 bytes follow its IP header. -/
def icmpOf (bytes : List UInt8) : Option (UInt8 × UInt8) :=
  let hlen := (bytes.getD 0 0 &&& 0x0F).toNat * 4
  if hlen + 8 ≤ bytes.length then some (bytes.getD hlen 0, bytes.getD (hlen + 1) 0) else none

/-- What a message may do to the two counters, from `got` and `unr` to `got'` and `unr'`. -/
structure Counted (m : Option (UInt8 × UInt8)) (got got' unr unr' : Nat) : Prop where
  gotThere : got' ≠ got → got' = got + 1 ∧ ∃ c, m = some (3, c) ∧ (c = 2 ∨ c = 3)
  unreachable : unr' ≠ unr → unr' = unr + 1 ∧ ∃ c, m = some (3, c) ∧ (c = 0 ∨ c = 1 ∨ c = 4 ∨ c = 5)
  neither : (∀ c, m ≠ some (3, c)) → got' = got ∧ unr' = unr

theorem Counted.same (m : Option (UInt8 × UInt8)) {got got' unr unr' : Nat} (hg : got' = got) (hu : unr' = unr) :
    Counted m got got' unr unr' :=
  ⟨fun h => absurd hg h, fun h => absurd hu h, fun _ => ⟨hg, hu⟩⟩

/-! ## The switch -/

/-- The switch decodes the codes 0 to 5 and nothing else. -/
theorem verdictOf_other {i : Int} (h : i ≤ 0 ∨ 6 < i) : verdictOf i = (0, 0, none) := by
  unfold verdictOf TracerouteUdp.ICMP_UNREACH_PORT TracerouteUdp.ICMP_UNREACH_NET TracerouteUdp.ICMP_UNREACH_HOST
    TracerouteUdp.ICMP_UNREACH_PROTOCOL TracerouteUdp.ICMP_UNREACH_NEEDFRAG TracerouteUdp.ICMP_UNREACH_SRCFAIL
  repeat rw [if_neg (by omega)]

theorem verdictOf_code : ∀ n : Nat, ((verdictOf (n + 1)).1, (verdictOf (n + 1)).2.1) =
    if n = 2 ∨ n = 3 then (1, 0) else if n ≤ 5 then (0, 1) else (0, 0)
  | 0 => rfl
  | 1 => rfl
  | 2 => rfl
  | 3 => rfl
  | 4 => rfl
  | 5 => rfl
  | n + 6 => by
    rw [verdictOf_other (.inr (by omega)), if_neg (by omega), if_neg (by omega)]

/-- Where the switch decodes the code of the message, the counters move as they may exactly if the type is 3 or the code
is above 5. -/
theorem counted_code (t c : UInt8) (got unr : Nat) :
    Counted (some (t, c)) got (got + (verdictOf (c.toNat + 1)).1) unr (unr + (verdictOf (c.toNat + 1)).2.1) ↔
      t = 3 ∨ 5 < c.toNat := by
  have hv := verdictOf_code c.toNat
  have hc : ∀ k : UInt8, c.toNat = k.toNat → c = k := fun k => UInt8.toNat_inj.1
  split at hv
  · rename_i hcode
    obtain ⟨hg, hu⟩ := Prod.mk.inj hv
    rw [hg, hu, Nat.add_zero]
    constructor
    · intro h
      obtain ⟨-, c', hm, -⟩ := h.gotThere (by omega)
      cases hm
      exact .inl rfl
    · rintro (rfl | h)
      · exact ⟨fun _ => ⟨rfl, c, rfl, hcode.imp (hc 2) (hc 3)⟩, fun h => absurd rfl h, fun h => absurd rfl (h c)⟩
      · omega
  · split at hv
    · rename_i hnot hle
      obtain ⟨hg, hu⟩ := Prod.mk.inj hv
      have hcode : c.toNat = 0 ∨ c.toNat = 1 ∨ c.toNat = 4 ∨ c.toNat = 5 := by omega
      rw [hg, hu, Nat.add_zero]
      constructor
      · intro h
        obtain ⟨-, c', hm, -⟩ := h.unreachable (by omega)
        cases hm
        exact .inl rfl
      · rintro (rfl | h)
        · refine ⟨fun h => absurd rfl h, fun _ => ⟨rfl, c, rfl, ?_⟩, fun h => absurd rfl (h c)⟩
          exact hcode.imp (hc 0) (Or.imp (hc 1) (Or.imp (hc 4) (hc 5)))
        · omega
    · rename_i hnot hlt
      obtain ⟨hg, hu⟩ := Prod.mk.inj hv
      rw [hg, hu]
      exact ⟨fun _ => .inr (Nat.lt_of_not_le hlt), fun _ => .same _ rfl rfl⟩

theorem counted_rejected (m : Option (UInt8 × UInt8)) {i : Int} (h : i ≤ 0) (got unr : Nat) :
    Counted m got (got + (verdictOf i).1) unr (unr + (verdictOf i).2.1) := by
  rw [verdictOf_other (.inl h)]
  exact .same m rfl rfl

/-! ## The message in the buffer -/

/-- The bytes of the buffer that a datagram of at least one byte was received into. -/
theorem received_byte (buf : Nat → UInt8) (bytes : List UInt8) {k : Nat} (hk : k < bytes.length) (h512 : k < 512) :
    setBytes buf 0 (bytes.take 512) k = bytes.getD k 0 := by
  have hget : (bytes.take 512)[k]? = some (bytes.getD k 0) := by
    rw [List.getElem?_take_of_lt h512, List.getD_eq_getElem?_getD, List.getElem?_eq_getElem hk]
    rfl
  have h := setBytes_of_inside buf 0 hget
  rwa [Nat.zero_add] at h

theorem iphdrLen_le (buf : Nat → UInt8) : iphdrLen buf ≤ 60 := by
  have h : (buf 0 &&& 0x0F).toNat ≤ 15 := by
    rw [UInt8.toNat_and]
    exact Nat.and_le_right
  unfold iphdrLen
  omega

/-- The message after `recvfrom`: the guard on the length rejects exactly the datagrams without one, and the two fields
are where `icmp_packet_ok` reads them. -/
theorem received_icmp (buf b : Nat → UInt8) (bytes : List UInt8) (hb : b = setBytes buf 0 (bytes.take 512)) :
    icmpOf bytes = if ((bytes.take 512).length : Int) - iphdrLen b < 8 then none
      else some (b (iphdrLen b), b (iphdrLen b + 1)) := by
  have hle := iphdrLen_le b
  have hlen : (bytes.take 512).length = min 512 bytes.length := List.length_take
  unfold icmpOf
  rcases Nat.eq_zero_or_pos bytes.length with h0 | hpos
  · rw [if_neg (by omega), if_pos (by omega)]
  · have hhl : iphdrLen b = (bytes.getD 0 0 &&& 0x0F).toNat * 4 := by
      unfold iphdrLen
      rw [hb, received_byte buf bytes hpos (by decide)]
    simp only
    rw [← hhl]
    generalize iphdrLen b = hl at hle ⊢
    by_cases h8 : hl + 8 ≤ bytes.length
    · rw [if_pos h8, if_neg (by omega), hb, received_byte buf bytes (by omega) (by omega),
        received_byte buf bytes (by omega) (by omega)]
    · rw [if_neg h8, if_pos (by omega)]

/-! ## The datagram judged

Of a program that judges the datagram that it received last: the length at hand, if it is about to, the bytes of the
datagram, if there was one, and the buffer. -/

/-- What a length of at least 0 stands for: the buffer holds the datagram. -/
def Received (judging : Option Int) (last : Option (List UInt8)) (recvBuf : Nat → UInt8) : Prop :=
  ∀ len, judging = some len → 0 ≤ len → ∃ bytes buf, last = some bytes ∧
    recvBuf = setBytes buf 0 (bytes.take 512) ∧ len = (bytes.take 512).length

/-- The message judged. -/
def message (judging : Option Int) (last : Option (List UInt8)) : Option (UInt8 × UInt8) :=
  judging.bind (fun len => if 0 ≤ len then last.bind icmpOf else none)

/-- What is made of a message by a function of its type and code. -/
def verdict (f : UInt8 → UInt8 → Int) : Option (UInt8 × UInt8) → Int
  | none => -1
  | some (t, c) => f t c

theorem Received.verdict {judging : Option Int} {last : Option (List UInt8)} {recvBuf : Nat → UInt8} {len : Int}
    (h : Received judging last recvBuf) (hj : judging = some len) (f : UInt8 → UInt8 → Int) :
    (if len - iphdrLen recvBuf < 8 then -1 else f (recvBuf (iphdrLen recvBuf)) (recvBuf (iphdrLen recvBuf + 1))) =
      Cc.verdict f (message judging last) := by
  subst hj
  unfold message
  rw [Option.bind_some]
  by_cases hlen : 0 ≤ len
  · obtain ⟨bytes, buf, rfl, hbuf, rfl⟩ := h len rfl hlen
    rw [if_pos hlen, Option.bind_some, received_icmp buf recvBuf bytes hbuf]
    split
    · rfl
    · rfl
  · rw [if_neg hlen, if_pos (by omega)]
    rfl

/-- What is judged is as it was while datagrams arrive behind it. -/
theorem Received.of_some {judging : Option Int} {last last' : Option (List UInt8)} {recvBuf : Nat → UInt8}
    (h : Received judging last recvBuf) (hl : ∀ bytes, last = some bytes → last' = some bytes) :
    Received judging last' recvBuf := by
  intro len hj hlen
  obtain ⟨bytes, buf, hlast, hbuf, hb⟩ := h len hj hlen
  exact ⟨bytes, buf, hl bytes hlast, hbuf, hb⟩

/-- An arrival leaves the datagram received last. -/
theorem received_append {α β : Type} (f : α → β) {arrived : List α} {n : Nat} {b : β} (d : α)
    (h : (arrived[n]?).map f = some b) : ((arrived ++ [d])[n]?).map f = some b := by
  obtain ⟨d', hd, hb⟩ := Option.map_eq_some_iff.1 h
  rw [List.getElem?_append_left (List.getElem?_eq_some_iff.1 hd).1, hd]
  exact congrArg some hb

/-! ## `traceroute_udp` -/

namespace TracerouteUdp

def judging (s : State) : Option Int :=
  match s.pc with
  | .judge len => some len
  | _ => none

/-- The datagram received last. -/
def last (s : State) : Option (List UInt8) := (s.arrived[s.taken - 1]?).map Datagram.bytes

/-- The message that a step judges. -/
def judged (s : State) : Act → Option (UInt8 × UInt8)
  | .main _ _ _ => message (judging s) (last s)
  | _ => none

def CountsRight (s : State) (a : Act) (s' : State) : Prop :=
  Counted (judged s a) s.gotThere s'.gotThere s.unreachable s'.unreachable

/-- The message judged, if any, is of type 3 or 11, or its code is above 5. -/
def unmistakable (m : Option (UInt8 × UInt8)) : Bool := m.all (fun m => m.1 == 3 || m.1 == 11 || decide (5 < m.2.toNat))

/-- What `icmp_packet_ok` returns for type `t` and code `c`. -/
def packetOk (t c : UInt8) : Int := if t = ICMP_TIMXCEED then -1 else c.toNat + 1

theorem counted_verdict (m : Option (UInt8 × UInt8)) (got unr : Nat) :
    Counted m got (got + (verdictOf (verdict packetOk m)).1) unr (unr + (verdictOf (verdict packetOk m)).2.1) ↔
      unmistakable m = true := by
  unfold unmistakable
  cases m with
  | none => exact ⟨fun _ => rfl, fun _ => counted_rejected none (by decide) got unr⟩
  | some m =>
    obtain ⟨t, c⟩ := m
    by_cases ht : t = 11
    · have hv : verdict packetOk (some (t, c)) = -1 := if_pos ht
      rw [hv]
      exact ⟨fun _ => by simp [ht], fun _ => counted_rejected _ (by decide) got unr⟩
    · have hv : verdict packetOk (some (t, c)) = c.toNat + 1 := if_neg ht
      rw [hv, counted_code]
      simp [ht]

theorem judge_counts (s : State) (len : Int) (clock : Timeval) :
    (judge s len clock).gotThere = s.gotThere + (verdictOf (icmpPacketOk s.recvBuf len s.seq)).1 ∧
    (judge s len clock).unreachable = s.unreachable + (verdictOf (icmpPacketOk s.recvBuf len s.seq)).2.1 ∧
    judging (judge s len clock) = none := by
  unfold judge
  simp only
  split
  · exact ⟨rfl, rfl, rfl⟩
  · rename_i h
    rw [Decidable.not_not.1 h]
    exact ⟨rfl, rfl, rfl⟩

/-- A statement of `main` judges a datagram, or it leaves the counters as they are. -/
theorem mainStep_counts {ident : UInt16} {s s' : State} {clock left : Timeval} {ret : Int}
    (h : mainStep ident s clock ret left = some s') :
    (∃ len, judging s = some len ∧ s' = judge s len clock) ∨
    (judging s = none ∧ s'.gotThere = s.gotThere ∧ s'.unreachable = s.unreachable ∧
      Received (judging s') (last s') s'.recvBuf) := by
  have hselect := mainStep_select h
  unfold mainStep at h
  unfold judging
  cases hpc : s.pc with
  | judge len =>
    rw [hpc] at h
    cases h
    exact .inl ⟨len, rfl, rfl⟩
  | outer =>
    rw [hpc] at h
    simp only at h
    split at h
    · cases h
      exact .inr ⟨rfl, rfl, rfl, fun _ => nofun⟩
    · cases h
      exact .inr ⟨rfl, rfl, rfl, fun _ => nofun⟩
  | inner =>
    rw [hpc] at h
    simp only at h
    split at h
    · cases h
      exact .inr ⟨rfl, rfl, rfl, fun _ => nofun⟩
    · cases h
      exact .inr ⟨rfl, rfl, rfl, fun _ => nofun⟩
  | send =>
    rw [hpc] at h
    cases h
    exact .inr ⟨rfl, rfl, rfl, fun _ => nofun⟩
  | select =>
    obtain ⟨-, _, _, hnext, rfl⟩ := hselect hpc
    refine .inr ⟨rfl, rfl, rfl, fun _ hl => ?_⟩
    rcases hnext with rfl | rfl
    · cases hl
    · cases hl
  | recvfrom =>
    rw [hpc] at h
    simp only at h
    split at h
    · cases h
      exact .inr ⟨rfl, rfl, rfl, fun len hl h0 => (by cases hl; omega)⟩
    · split at h
      · cases h
      · rename_i d hd
        cases h
        refine .inr ⟨rfl, rfl, rfl, fun len hl _ => ?_⟩
        cases hl
        exact ⟨d.bytes, s.recvBuf, by simp [last, hd], rfl, rfl⟩
  | exitTest =>
    rw [hpc] at h
    simp only at h
    split at h
    · cases h
      exact .inr ⟨rfl, rfl, rfl, fun _ => nofun⟩
    · cases h
      exact .inr ⟨rfl, rfl, rfl, fun _ => nofun⟩
  | ended status =>
    rw [hpc] at h
    cases h

/-- The invariant of the buffer. -/
theorem received_step {ident : UInt16} {s s' : State} {a : Act} (h : Received (judging s) (last s) s.recvBuf)
    (hs : step ident s a = some s') : Received (judging s') (last s') s'.recvBuf := by
  have harrive : ∀ d, Received (judging s) (last { s with arrived := s.arrived ++ [d] }) s.recvBuf := fun d =>
    h.of_some (fun _ => received_append Datagram.bytes d)
  cases a with
  | main clock ret left =>
    rcases mainStep_counts hs with ⟨len, -, rfl⟩ | ⟨-, -, -, hr⟩
    · intro len' hj
      rw [(judge_counts s len clock).2.2] at hj
      cases hj
    · exact hr
  | answer k src bytes =>
    simp only [step] at hs
    split at hs
    · cases hs
      exact harrive _
    · cases hs
  | other src bytes =>
    cases hs
    exact harrive _

/-- **A step counts right exactly if it does not judge a message of another type whose code the switch decodes.** -/
theorem counts_step {ident : UInt16} {s s' : State} {a : Act} (h : Received (judging s) (last s) s.recvBuf)
    (hs : step ident s a = some s') : CountsRight s a s' ↔ unmistakable (judged s a) = true := by
  unfold CountsRight
  cases a with
  | main clock ret left =>
    rcases mainStep_counts hs with ⟨len, hj, rfl⟩ | ⟨hj, hg, hu, -⟩
    · obtain ⟨hg, hu, -⟩ := judge_counts s len clock
      have hi : icmpPacketOk s.recvBuf len s.seq = verdict packetOk (judged s (.main clock ret left)) :=
        h.verdict hj packetOk
      rw [hg, hu, hi]
      exact counted_verdict _ _ _
    · have hm : judged s (.main clock ret left) = none := by
        unfold judged
        rw [hj]
        rfl
      rw [hm]
      exact ⟨fun _ => rfl, fun _ => .same none hg hu⟩
  | answer k src bytes =>
    simp only [step] at hs
    split at hs
    · cases hs
      exact ⟨fun _ => rfl, fun _ => .same _ rfl rfl⟩
    · cases hs
  | other src bytes =>
    cases hs
    exact ⟨fun _ => rfl, fun _ => .same _ rfl rfl⟩

end TracerouteUdp

/-! ## `traceroute_icmp` -/

namespace TracerouteIcmp

def judging (s : State) : Option Int :=
  match s.pc with
  | .judge len => some len
  | _ => none

/-- The datagram received last. -/
def last (s : State) : Option (List UInt8) := (s.arrived[s.taken - 1]?).map Datagram.bytes

/-- The message that a step judges. -/
def judged (s : State) : Act → Option (UInt8 × UInt8)
  | .main _ _ _ => message (judging s) (last s)
  | .arrive _ => none

def CountsRight (s : State) (a : Act) (s' : State) : Prop :=
  Counted (judged s a) s.gotThere s'.gotThere s.unreachable s'.unreachable

/-- The message judged, if any, is not a time-exceeded one with code 0. -/
def unmistakable (m : Option (UInt8 × UInt8)) : Bool := m.all (fun m => !(m.1 == 11 && m.2 == 0))

/-- What `icmp_packet_ok` returns for type `t` and code `c`. -/
def packetOk (t c : UInt8) : Int :=
  if (t = TracerouteUdp.ICMP_TIMXCEED ∧ c = ICMP_TIMXCEED_INTRANS) ∨ t = ICMP_UNREACH then c.toNat + 1 else 0

theorem counted_verdict (m : Option (UInt8 × UInt8)) (got unr : Nat) :
    Counted m got (got + (verdictOf (verdict packetOk m)).1) unr (unr + (verdictOf (verdict packetOk m)).2.1) ↔
      unmistakable m = true := by
  unfold unmistakable
  cases m with
  | none => exact ⟨fun _ => rfl, fun _ => counted_rejected none (by decide) got unr⟩
  | some m =>
    obtain ⟨t, c⟩ := m
    by_cases hret : (t = 11 ∧ c = 0) ∨ t = 3
    · have hv : verdict packetOk (some (t, c)) = c.toNat + 1 := if_pos hret
      rw [hv, counted_code]
      rcases hret with ⟨rfl, rfl⟩ | rfl
      · decide
      · simp
    · have hv : verdict packetOk (some (t, c)) = 0 := if_neg hret
      rw [hv]
      refine ⟨fun _ => ?_, fun _ => counted_rejected _ (by decide) got unr⟩
      have hnot : ¬ (t = 11 ∧ c = 0) := fun h => hret (.inl h)
      simpa [Decidable.imp_iff_not_or] using hnot

theorem judge_counts (s : State) (len : Int) (clock : Timeval) :
    (judge s len clock).gotThere = s.gotThere + (verdictOf (icmpPacketOk s.recvBuf len s.seq)).1 ∧
    (judge s len clock).unreachable = s.unreachable + (verdictOf (icmpPacketOk s.recvBuf len s.seq)).2.1 ∧
    (judge s len clock).pc = if icmpPacketOk s.recvBuf len s.seq ≠ 0 then .inner else .exited := by
  unfold judge
  simp only
  split
  · exact ⟨rfl, rfl, rfl⟩
  · rename_i h
    rw [Decidable.not_not.1 h]
    exact ⟨rfl, rfl, rfl⟩

/-- A statement of `main` judges a datagram, or it leaves the counters as they are and does not exit. -/
theorem mainStep_counts {s s' : State} {clock left : Timeval} {ret : Int}
    (h : mainStep s clock ret left = some s') :
    (∃ len, judging s = some len ∧ s' = judge s len clock) ∨
    (judging s = none ∧ s'.gotThere = s.gotThere ∧ s'.unreachable = s.unreachable ∧ s'.pc ≠ .exited ∧
      Received (judging s') (last s') s'.recvBuf) := by
  unfold mainStep at h
  unfold judging
  cases hpc : s.pc with
  | judge len =>
    rw [hpc] at h
    cases h
    exact .inl ⟨len, rfl, rfl⟩
  | outer =>
    rw [hpc] at h
    simp only at h
    split at h
    · cases h
      exact .inr ⟨rfl, rfl, rfl, nofun, fun _ => nofun⟩
    · cases h
      exact .inr ⟨rfl, rfl, rfl, nofun, fun _ => nofun⟩
  | inner =>
    rw [hpc] at h
    simp only at h
    split at h
    · cases h
      exact .inr ⟨rfl, rfl, rfl, nofun, fun _ => nofun⟩
    · cases h
      exact .inr ⟨rfl, rfl, rfl, nofun, fun _ => nofun⟩
  | send =>
    rw [hpc] at h
    cases h
    exact .inr ⟨rfl, rfl, rfl, nofun, fun _ => nofun⟩
  | select =>
    rw [hpc] at h
    simp only at h
    repeat' split at h
    all_goals first
      | (cases h; exact .inr ⟨rfl, rfl, rfl, nofun, fun _ => nofun⟩)
      | cases h
  | recvfrom =>
    rw [hpc] at h
    simp only at h
    split at h
    · cases h
      exact .inr ⟨rfl, rfl, rfl, nofun, fun len hl h0 => (by cases hl; omega)⟩
    · split at h
      · cases h
      · rename_i d hd
        cases h
        refine .inr ⟨rfl, rfl, rfl, nofun, fun len hl _ => ?_⟩
        cases hl
        exact ⟨d.bytes, s.recvBuf, by simp [last, hd], rfl, rfl⟩
  | sleep =>
    rw [hpc] at h
    cases h
    exact .inr ⟨rfl, rfl, rfl, nofun, fun _ => nofun⟩
  | returned =>
    rw [hpc] at h
    cases h
  | exited =>
    rw [hpc] at h
    cases h

/-- The invariant of the buffer. -/
theorem received_step {s s' : State} {a : Act} (h : Received (judging s) (last s) s.recvBuf)
    (hs : step s a = some s') : Received (judging s') (last s') s'.recvBuf := by
  cases a with
  | main clock ret left =>
    rcases mainStep_counts hs with ⟨len, -, rfl⟩ | ⟨-, -, -, -, hr⟩
    · intro len' hj
      unfold judging at hj
      rw [(judge_counts s len clock).2.2] at hj
      split at hj
      · rename_i hl
        split at hl
        · cases hl
        · cases hl
      · cases hj
    · exact hr
  | arrive d =>
    cases hs
    exact h.of_some (fun _ => received_append Datagram.bytes d)

/-- **A step counts right exactly if it does not judge a time-exceeded message with code 0.** -/
theorem counts_step {s s' : State} {a : Act} (h : Received (judging s) (last s) s.recvBuf)
    (hs : step s a = some s') : CountsRight s a s' ↔ unmistakable (judged s a) = true := by
  unfold CountsRight
  cases a with
  | main clock ret left =>
    rcases mainStep_counts hs with ⟨len, hj, rfl⟩ | ⟨hj, hg, hu, -⟩
    · obtain ⟨hg, hu, -⟩ := judge_counts s len clock
      have hi : icmpPacketOk s.recvBuf len s.seq = verdict packetOk (judged s (.main clock ret left)) :=
        h.verdict hj packetOk
      rw [hg, hu, hi]
      exact counted_verdict _ _ _
    · have hm : judged s (.main clock ret left) = none := by
        unfold judged
        rw [hj]
        rfl
      rw [hm]
      exact ⟨fun _ => rfl, fun _ => .same none hg hu⟩
  | arrive d =>
    cases hs
    exact ⟨fun _ => rfl, fun _ => .same _ rfl rfl⟩

end TracerouteIcmp

/-- **A run of either program counts right at every step exactly if it judges no message of another type whose code the
switch decodes**: for `traceroute_udp` one that is neither of type 3 nor of type 11, with a code up to 5, for
`traceroute_icmp` a time-exceeded one with code 0. -/
theorem traceroutes_count_iff (ident : UInt16) (dst src : Nat) (udpActs : List TracerouteUdp.Act)
    (icmpActs : List TracerouteIcmp.Act) :
    (Along (TracerouteUdp.step ident) TracerouteUdp.CountsRight udpActs (TracerouteUdp.init dst src) ↔
      Along (TracerouteUdp.step ident) (fun s a _ => TracerouteUdp.unmistakable (TracerouteUdp.judged s a) = true)
        udpActs (TracerouteUdp.init dst src)) ∧
    (Along TracerouteIcmp.step TracerouteIcmp.CountsRight icmpActs (TracerouteIcmp.init src) ↔
      Along TracerouteIcmp.step (fun s a _ => TracerouteIcmp.unmistakable (TracerouteIcmp.judged s a) = true)
        icmpActs (TracerouteIcmp.init src)) :=
  ⟨along_iff (fun _ _ _ h hs _ => TracerouteUdp.received_step h hs)
      (fun _ _ _ h hs => TracerouteUdp.counts_step h hs) udpActs (TracerouteUdp.init dst src) (fun _ => nofun),
    along_iff (fun _ _ _ h hs _ => TracerouteIcmp.received_step h hs)
      (fun _ _ _ h hs => TracerouteIcmp.counts_step h hs) icmpActs (TracerouteIcmp.init src) (fun _ => nofun)⟩

/-- An IP header and an ICMP header of a type and a code. -/
def icmpDatagram (t c : UInt8) : List UInt8 :=
  [0x45, 0, 0, 28, 0, 0, 0, 0, 64, 1, 0, 0, 10, 0, 0, 1, 10, 0, 0, 9] ++ [t, c, 0, 0, 0, 0, 0, 0]

/-- The first probe of `traceroute_udp`, and an echo reply, as `ping` would wait for, before its answer. -/
def udpEchoReply : List TracerouteUdp.Act :=
  [.main ⟨0, 0⟩ 0 ⟨0, 0⟩, .main ⟨0, 0⟩ 0 ⟨0, 0⟩, .main ⟨0, 0⟩ 48 ⟨0, 0⟩, .other 1 (icmpDatagram 0 0),
    .main ⟨0, 0⟩ 1 ⟨4, 0⟩, .main ⟨0, 0⟩ 28 ⟨0, 0⟩]

/-- The first probe of `traceroute_icmp`, and the time-exceeded message of the first router. -/
def icmpTimeExceeded : List TracerouteIcmp.Act :=
  [.main ⟨0, 0⟩ 0 ⟨0, 0⟩, .main ⟨0, 0⟩ 0 ⟨0, 0⟩, .main ⟨0, 0⟩ 16 ⟨0, 0⟩, .arrive ⟨1, icmpDatagram 11 0⟩,
    .main ⟨0, 0⟩ 1 ⟨4, 0⟩, .main ⟨0, 0⟩ 28 ⟨0, 0⟩]

/-- **An echo reply counts as unreachable in one program, a time-exceeded message in the other.** -/
theorem traceroutes_miscount :
    ¬ Along (TracerouteUdp.step 0x8007) TracerouteUdp.CountsRight (udpEchoReply ++ [.main ⟨0, 0⟩ 0 ⟨0, 0⟩])
      (TracerouteUdp.init 99 0) ∧
    ¬ Along TracerouteIcmp.step TracerouteIcmp.CountsRight (icmpTimeExceeded ++ [.main ⟨0, 0⟩ 0 ⟨0, 0⟩])
      (TracerouteIcmp.init 0) := by
  constructor
  · intro h
    obtain ⟨-, c, hm, -⟩ := (Along.last rfl udpEchoReply _ h rfl).unreachable (by decide)
    cases hm
  · intro h
    obtain ⟨-, c, hm, -⟩ := (Along.last rfl icmpTimeExceeded _ h rfl).unreachable (by decide)
    cases hm

end Cc
