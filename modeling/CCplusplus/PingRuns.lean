import CCplusplus.IcmpUnpack
import CCplusplus.Ping
import Mathlib.Data.List.Range
/-!
# PingRuns — which entry a reply is filed under, and what the statistics count

`ping_recv` hands `icmp_unpack` the entry of the number of replies counted so far.  In every run that number is the number
of acceptable datagrams received before (`holding_run`), so the entry is the one of the probe answered while the
acceptable datagrams arrive in the order of their sequence numbers, none missing and none twice.
-/
namespace Cc
namespace Ping

open CLib

/-! ## What `icmp_unpack` accepts -/

/-- The sequence number of a reply that `icmp_unpack` accepts. -/
def replySeq (pid : Nat) (d : Datagram) : Option Nat :=
  let bytes := d.bytes.take 512
  (icmpUnpack (fun k => bytes.getD k 0) bytes.length (icmpid pid) ⟨0, 0, ⟨0, 0⟩, ⟨0, 0⟩⟩ ⟨0, 0⟩).2.2.map Printed.icmpSeq

/-- Whether a reply is accepted, and under which sequence number, is a matter of its bytes alone. -/
theorem icmpUnpack_congr {buf buf' : Nat → UInt8} {len : Nat} (h : ∀ k, k < len → buf k = buf' k) (icmpid : Int)
    (e e' : PingPacketStatus) (t t' : Timeval) :
    (icmpUnpack buf len icmpid e t).1 = (icmpUnpack buf' len icmpid e' t').1 ∧
    (icmpUnpack buf len icmpid e t).2.2.map Printed.icmpSeq =
      (icmpUnpack buf' len icmpid e' t').2.2.map Printed.icmpSeq := by
  have hshort : (len : Int) - iphdrLen buf < 8 ↔ (len : Int) - iphdrLen buf' < 8 := by
    rcases Nat.eq_zero_or_pos len with rfl | hpos
    · omega
    · have e0 : iphdrLen buf = iphdrLen buf' := by
        unfold iphdrLen
        rw [h 0 hpos]
      rw [e0]
  by_cases hs : (len : Int) - iphdrLen buf < 8
  · rw [icmpUnpack_rejects_short hs, icmpUnpack_rejects_short (hshort.1 hs)]
    exact ⟨rfl, rfl⟩
  · have e0 : iphdrLen buf = iphdrLen buf' := by
      unfold iphdrLen
      rw [h 0 (by omega)]
    have h1 := icmpUnpack_long icmpid e t hs
    have h2 := icmpUnpack_long icmpid e' t' (fun hs' => hs (hshort.2 hs'))
    have eu : ∀ o, o + 2 ≤ 8 → u16At buf (iphdrLen buf + o) = u16At buf' (iphdrLen buf' + o) := fun o ho => by
      unfold u16At
      rw [← e0, h _ (by omega), h _ (by omega)]
    have eb : buf (iphdrLen buf) = buf' (iphdrLen buf') := by rw [← e0, h _ (by omega)]
    rw [eb, eu 4 (by omega), eu 6 (by omega)] at h1
    by_cases hm : buf' (iphdrLen buf') = ICMP_ECHOREPLY ∧ (u16At buf' (iphdrLen buf' + 4) : Int) = icmpid
    · rw [if_pos hm] at h1 h2
      obtain ⟨p, h1, hp⟩ := h1
      obtain ⟨p', h2, hp'⟩ := h2
      rw [h1, h2]
      exact ⟨rfl, congrArg some (hp.trans hp'.symm)⟩
    · rw [if_neg hm] at h1 h2
      rw [h1, h2]
      exact ⟨rfl, rfl⟩

/-- `icmp_unpack` returns `-1` exactly where it prints nothing. -/
theorem icmpUnpack_ret (buf : Nat → UInt8) (len icmpid : Int) (e : PingPacketStatus) (t : Timeval) :
    (icmpUnpack buf len icmpid e t).1 = -1 ↔ (icmpUnpack buf len icmpid e t).2.2 = none := by
  by_cases hs : len - iphdrLen buf < 8
  · rw [icmpUnpack_rejects_short hs]
    exact ⟨fun _ => rfl, fun _ => rfl⟩
  · have h := icmpUnpack_long icmpid e t hs
    split at h
    · obtain ⟨p, h, -⟩ := h
      rw [h]
      exact ⟨fun h => (by cases h), fun h => (by cases h)⟩
    · rw [h]
      exact ⟨fun _ => rfl, fun _ => rfl⟩

/-! ## What the receiver has counted -/

/-- The sequence numbers of the acceptable datagrams, in order of arrival. -/
def seqs (pid : Nat) (l : List Datagram) : List Nat := l.filterMap (replySeq pid)

/-- What `recv_count` counts, at each statement of the receiver. -/
def Counted (pid : Nat) (s : State) : Prop :=
  match s.receiver with
  | .unpack size => ∃ d, 0 < s.taken ∧ s.arrived[s.taken - 1]? = some d ∧ size = (d.bytes.take 512).length ∧
      (∀ k, k < size → s.recvBuf k = (d.bytes.take 512).getD k 0) ∧
      s.recvCount = (seqs pid (s.arrived.take (s.taken - 1))).length
  | .count => s.recvCount + 1 = (seqs pid (s.arrived.take s.taken)).length
  | _ => s.recvCount = (seqs pid (s.arrived.take s.taken)).length

structure Holding (pid : Nat) (s : State) : Prop where
  taken : s.taken ≤ s.arrived.length
  counted : Counted pid s

/-- What the receiver alone writes. -/
def receiverView (s : State) : RecvPc × Nat × (Nat → UInt8) × Nat := (s.receiver, s.recvCount, s.recvBuf, s.taken)

/-- What `main`, the sender and the handler write, but for the program counters of the first and the last. -/
def senderView (s : State) : SendPc × Nat × List (List UInt8) × Bool := (s.sender, s.sendCount, s.sent, s.alive)

theorem sendStep_receiver {pid : Nat} {s s' : State} {clock : Timeval} {transmitted : Bool}
    (h : sendStep pid s clock transmitted = some s') :
    receiverView s' = receiverView s ∧ s'.arrived = s.arrived ∧ s'.main = s.main := by
  unfold sendStep at h
  split at h <;> cases h <;> exact ⟨rfl, rfl, rfl⟩

/-- **What `ping_recv` writes.** -/
theorem recvStep_eq {pid : Nat} {s s' : State} {ret : Int} {clock : Timeval} (h : recvStep pid s ret clock = some s') :
    ∃ receiver recvCount recvBuf taken pingPacket printed, s' = { s with
      receiver := receiver
      recvCount := recvCount
      recvBuf := recvBuf
      taken := taken
      pingPacket := pingPacket
      printed := printed } := by
  unfold recvStep at h
  cases hpc : s.receiver with
  | test | unpack size | count =>
    rw [hpc] at h
    cases h
    exact ⟨_, _, _, _, _, _, rfl⟩
  | select =>
    simp only [hpc] at h
    split at h
    · cases h
      exact ⟨_, _, _, _, _, _, rfl⟩
    · split at h
      · cases h
        exact ⟨_, _, _, _, _, _, rfl⟩
      · cases h
  | recv =>
    simp only [hpc] at h
    split at h
    · cases h
      exact ⟨_, _, _, _, _, _, rfl⟩
    · split at h
      · cases h
      · cases h
        exact ⟨_, _, _, _, _, _, rfl⟩
  | done =>
    rw [hpc] at h
    cases h

theorem recvStep_sender {pid : Nat} {s s' : State} {ret : Int} {clock : Timeval}
    (h : recvStep pid s ret clock = some s') :
    senderView s' = senderView s ∧ s'.arrived = s.arrived ∧ s'.main = s.main := by
  obtain ⟨_, _, _, _, _, _, rfl⟩ := recvStep_eq h
  exact ⟨rfl, rfl, rfl⟩

theorem handlerStep_frame {s s' : State} {clock : Timeval} (h : handlerStep s clock = some s') :
    receiverView s' = receiverView s ∧ s'.arrived = s.arrived ∧ s'.main = s.main ∧
    (s'.sender, s'.sendCount, s'.sent) = (s.sender, s.sendCount, s.sent) := by
  unfold handlerStep at h
  split at h <;> cases h <;> exact ⟨rfl, rfl, rfl, rfl⟩

/-- `main` only goes on. -/
theorem mainStep_eq {s s' : State} {created : Bool} (h : mainStep s created = some s') : ∃ pc, s' = { s with main := pc } := by
  unfold mainStep at h
  cases hpc : s.main with
  | createSend | createRecv | stats =>
    rw [hpc] at h
    cases h
    exact ⟨_, rfl⟩
  | joinSend | joinRecv =>
    rw [hpc] at h
    dsimp only at h
    split at h
    · cases h
      exact ⟨_, rfl⟩
    · cases h
  | returned ret =>
    rw [hpc] at h
    cases h

theorem mainStep_frame {s s' : State} {created : Bool} (h : mainStep s created = some s') :
    receiverView s' = receiverView s ∧ s'.arrived = s.arrived ∧ senderView s' = senderView s := by
  obtain ⟨_, rfl⟩ := mainStep_eq h
  exact ⟨rfl, rfl, rfl⟩

/-- Everything but the receiver's own step leaves what it wrote, and only adds to what arrived. -/
theorem step_receiver {pid : Nat} {s s' : State} {a : Act} (h : step pid s a = some s') :
    (∃ ret clock, a = .recv ret clock ∧ recvStep pid s ret clock = some s') ∨
    (receiverView s' = receiverView s ∧ s'.arrived = s.arrived ++ (arrival s a).toList) := by
  cases a with
  | main created =>
    right
    simp only [step] at h
    split at h
    · obtain ⟨h1, h2, -⟩ := mainStep_frame h
      exact ⟨h1, h2.trans (List.append_nil _).symm⟩
    · cases h
  | send clock transmitted =>
    right
    simp only [step] at h
    split at h
    · obtain ⟨h1, h2, -⟩ := sendStep_receiver h
      exact ⟨h1, h2.trans (List.append_nil _).symm⟩
    · cases h
  | recv ret clock =>
    left
    simp only [step] at h
    split at h
    · exact ⟨ret, clock, rfl, h⟩
    · cases h
  | sigint t =>
    right
    simp only [step] at h
    split at h
    · cases h
      exact ⟨rfl, (List.append_nil _).symm⟩
    · cases h
  | handler clock =>
    right
    obtain ⟨h1, h2, -⟩ := handlerStep_frame h
    exact ⟨h1, h2.trans (List.append_nil _).symm⟩
  | reply j ipHdr cksum =>
    right
    obtain ⟨d, hd, rfl⟩ := Option.map_eq_some_iff.1 h
    exact ⟨rfl, by rw [hd]; rfl⟩
  | other bytes =>
    right
    cases h
    exact ⟨rfl, rfl⟩

theorem seqs_take_succ (pid : Nat) {n : Nat} {l : List Datagram} {d : Datagram} (h : l[n]? = some d) :
    seqs pid (l.take (n + 1)) = seqs pid (l.take n) ++ (replySeq pid d).toList := by
  obtain ⟨hn, rfl⟩ := List.getElem?_eq_some_iff.1 h
  unfold seqs
  rw [← List.take_append_getElem hn, List.filterMap_append]
  cases he : replySeq pid l[n] with
  | none => simp [he]
  | some q => simp [he]

/-- What arrives later does not change what has been counted. -/
theorem Holding.arrive {pid : Nat} {s s' : State} (h : Holding pid s) (hv : receiverView s' = receiverView s)
    {l : List Datagram} (ha : s'.arrived = s.arrived ++ l) : Holding pid s' := by
  obtain ⟨hr, hc, hb, ht⟩ : s'.receiver = s.receiver ∧ s'.recvCount = s.recvCount ∧ s'.recvBuf = s.recvBuf ∧
      s'.taken = s.taken := by simpa [receiverView] using hv
  have htk := h.taken
  have htake : ∀ n, n ≤ s.taken → s'.arrived.take n = s.arrived.take n := fun n hn => by
    rw [ha, List.take_append_of_le_length (by omega)]
  constructor
  · rw [ha, ht, List.length_append]
    omega
  · have hcnt := h.counted
    unfold Counted at hcnt ⊢
    rw [hr, hc, hb, ht, htake _ (Nat.le_refl _), htake _ (Nat.sub_le _ _)]
    cases hpc : s.receiver with
    | unpack size =>
      rw [hpc] at hcnt
      obtain ⟨d, h0, hd, hrest⟩ := hcnt
      exact ⟨d, h0, by rw [ha, List.getElem?_append_left (by omega)]; exact hd, hrest⟩
    | _ => rw [hpc] at hcnt; exact hcnt

/-- The receiver's own steps keep the count. -/
theorem Holding.recvStep {pid : Nat} {s s' : State} (h : Holding pid s) {ret : Int} {clock : Timeval}
    (hs : recvStep pid s ret clock = some s') : Holding pid s' := by
  have htk := h.taken
  have hcnt := h.counted
  unfold Counted at hcnt
  unfold Ping.recvStep at hs
  cases hpc : s.receiver with
  | test =>
    rw [hpc] at hs hcnt
    rcases ite_eq_or_eq (P := (s.alive && decide (s.recvCount < PACKET_SEND_MAX_NUM)) = true) RecvPc.select RecvPc.done
      with e | e
    · rw [e] at hs
      cases hs
      exact ⟨htk, hcnt⟩
    · rw [e] at hs
      cases hs
      exact ⟨htk, hcnt⟩
  | select =>
    rw [hpc] at hs hcnt
    simp only at hs
    split at hs
    · cases hs
      exact ⟨htk, hcnt⟩
    · split at hs
      · cases hs
        exact ⟨htk, hcnt⟩
      · cases hs
  | recv =>
    rw [hpc] at hs hcnt
    simp only at hs
    split at hs
    · cases hs
      exact ⟨htk, hcnt⟩
    · split at hs
      · cases hs
      · rename_i d hd
        cases hs
        have hlt : s.taken < s.arrived.length := (List.getElem?_eq_some_iff.1 hd).1
        refine ⟨hlt, d, Nat.succ_pos _, hd, rfl, fun k hk => ?_, hcnt⟩
        have hget : (d.bytes.take 512)[k]? = some ((d.bytes.take 512).getD k 0) := by
          rw [List.getD_eq_getElem?_getD, List.getElem?_eq_getElem hk]
          rfl
        have hset := setBytes_of_inside s.recvBuf 0 hget
        rwa [Nat.zero_add] at hset
  | unpack size =>
    rw [hpc] at hs hcnt
    obtain ⟨d, h0, hd, rfl, hbuf, hcnt⟩ := hcnt
    have hseq := icmpUnpack_congr hbuf (icmpid pid) (s.pingPacket s.recvCount) ⟨0, 0, ⟨0, 0⟩, ⟨0, 0⟩⟩ clock ⟨0, 0⟩
    have hret := icmpUnpack_ret s.recvBuf ((d.bytes.take 512).length : Nat) (icmpid pid)
      (s.pingPacket s.recvCount) clock
    have hsucc := seqs_take_succ pid hd
    rw [show s.taken - 1 + 1 = s.taken by omega] at hsucc
    have hreply : replySeq pid d = (icmpUnpack s.recvBuf (d.bytes.take 512).length (icmpid pid)
        (s.pingPacket s.recvCount) clock).2.2.map Printed.icmpSeq := hseq.2.symm
    simp only at hs
    generalize icmpUnpack s.recvBuf (d.bytes.take 512).length (icmpid pid) (s.pingPacket s.recvCount) clock = u
      at hs hret hreply
    obtain ⟨r, entry, line⟩ := u
    simp only at hs hret hreply
    by_cases hr : r = -1
    · -- rejected
      rw [if_pos hr] at hs
      cases hs
      refine ⟨htk, ?_⟩
      have : (seqs pid (s.arrived.take s.taken)).length = s.recvCount := by
        rw [hsucc, hreply, hret.1 hr, hcnt]
        simp
      exact this.symm
    · -- accepted
      rw [if_neg hr] at hs
      cases hs
      refine ⟨htk, ?_⟩
      have hline : line ≠ none := fun hn => hr (hret.2 hn)
      obtain ⟨p, rfl⟩ := Option.ne_none_iff_exists'.1 hline
      have : (seqs pid (s.arrived.take s.taken)).length = s.recvCount + 1 := by
        rw [hsucc, hreply, hcnt]
        simp
      exact this.symm
  | count =>
    rw [hpc] at hs hcnt
    cases hs
    exact ⟨htk, hcnt⟩
  | done =>
    rw [hpc] at hs
    cases hs

theorem holding_init (pid : Nat) : Holding pid init := ⟨Nat.le_refl _, rfl⟩

/-- **The receiver has counted the acceptable datagrams it has taken**, in every run. -/
theorem holding_step {pid : Nat} {s s' : State} {a : Act} (h : Holding pid s) (hs : step pid s a = some s') :
    Holding pid s' := by
  rcases step_receiver hs with ⟨ret, clock, -, hr⟩ | ⟨hv, ha⟩
  · exact h.recvStep hr
  · exact h.arrive hv ha

/-! ## Replies in order -/

/-- At the call of `icmp_unpack`, an accepted reply is filed under the entry of its own sequence number. -/
def OwnEntry (pid : Nat) (s : State) : Prop :=
  ∀ size clock p, s.receiver = .unpack size →
    (icmpUnpack s.recvBuf size (icmpid pid) (s.pingPacket s.recvCount) clock).2.2 = some p → p.icmpSeq = s.recvCount

/-- An acceptable datagram that arrives carries the number of those that arrived before it. -/
def inOrder (pid : Nat) (s : State) (a : Act) : Bool :=
  match (arrival s a).bind (replySeq pid) with
  | none => true
  | some q => q == (seqs pid s.arrived).length

/-- The acceptable datagrams carry `0, 1, 2, …`. -/
def Ordered (pid : Nat) (s : State) : Prop := seqs pid s.arrived = List.range (seqs pid s.arrived).length

theorem ordered_step {pid : Nat} {s s' : State} {a : Act} (h : Ordered pid s) (hok : inOrder pid s a = true)
    (hs : step pid s a = some s') : Ordered pid s' := by
  have harr : s'.arrived = s.arrived ++ (arrival s a).toList := by
    rcases step_receiver hs with ⟨ret, clock, rfl, hr⟩ | ⟨-, ha⟩
    · exact (recvStep_sender hr).2.1.trans (List.append_nil _).symm
    · exact ha
  have hseqs : seqs pid s'.arrived = seqs pid s.arrived ++ ((arrival s a).bind (replySeq pid)).toList := by
    rw [harr]
    unfold seqs
    rw [List.filterMap_append]
    congr 1
    cases arrival s a with
    | none => rfl
    | some d =>
      cases he : replySeq pid d with
      | none => simp [he]
      | some q => simp [he]
  unfold Ordered at h ⊢
  unfold inOrder at hok
  rw [hseqs]
  cases hq : (arrival s a).bind (replySeq pid) with
  | none => simpa using h
  | some q =>
    rw [hq] at hok
    have hq' : q = (seqs pid s.arrived).length := by simpa using hok
    simp only [Option.toList_some, List.length_append, List.length_singleton]
    rw [List.range_succ, ← h, hq']

theorem ownEntry_of_ordered {pid : Nat} {s : State} (h : Holding pid s) (ho : Ordered pid s) : OwnEntry pid s := by
  intro size clock p hpc hacc
  have hcnt := h.counted
  unfold Counted at hcnt
  rw [hpc] at hcnt
  obtain ⟨d, h0, hd, rfl, hbuf, hcnt⟩ := hcnt
  have hseq := (icmpUnpack_congr hbuf (icmpid pid) (s.pingPacket s.recvCount) ⟨0, 0, ⟨0, 0⟩, ⟨0, 0⟩⟩ clock ⟨0, 0⟩).2
  have hreply : replySeq pid d = some p.icmpSeq := by
    rw [hacc] at hseq
    exact hseq.symm
  -- the datagram's number stands in the order where the count is
  have hsucc := seqs_take_succ pid hd
  rw [hreply] at hsucc
  have hget : (seqs pid s.arrived)[s.recvCount]? = some p.icmpSeq := by
    have hsplit : seqs pid s.arrived = seqs pid (s.arrived.take (s.taken - 1 + 1)) ++
        seqs pid (s.arrived.drop (s.taken - 1 + 1)) := by
      unfold seqs
      rw [← List.filterMap_append, List.take_append_drop]
    rw [hsplit, hsucc, hcnt]
    simp
  rw [ho] at hget
  obtain ⟨hlt, he⟩ := List.getElem?_eq_some_iff.1 hget
  rw [List.getElem_range] at he
  exact he.symm

/-- **A reply is filed under its own probe's entry** in every run in which the acceptable datagrams arrive in the order
of the probes, each once. -/
theorem ping_own_entry (pid : Nat) (acts : List Act) (s : State)
    (h : run (restrict (inOrder pid) (step pid)) acts init = some s) : OwnEntry pid s := by
  have hinv : Holding pid s ∧ Ordered pid s := restrict_inv
    (fun s => Holding pid s ∧ Ordered pid s)
    (fun s a s' hi hok hs => ⟨holding_step hi.1 hs, ordered_step hi.2 hok hs⟩) acts init s
    ⟨holding_init pid, rfl⟩ h
  exact ownEntry_of_ordered hinv.1 hinv.2

/-- An IP header of 20 bytes. -/
def ipHdr : List UInt8 := 0x45 :: List.replicate 19 0

/-- The statements of `ping_send` that transmit one probe, from its loop test to its `sleep`. -/
def probe (t : Timeval) : List Act := List.replicate 8 (.send t true)

/-- Probe 0 is sent at 1 s and its reply lost, probe 1 is sent at 2 s; the reply to it arrives and is received. -/
def lostReply : List Act :=
  [Act.main true, .main true, .send ⟨0, 0⟩ true] ++ probe ⟨1, 0⟩ ++ [Act.send ⟨1, 0⟩ true] ++ probe ⟨2, 0⟩ ++
    [Act.reply 1 ipHdr (0, 0), .recv 1 ⟨2, 0⟩, .recv 1 ⟨2, 0⟩, .recv 1 ⟨2, 0⟩]

/-- **The reply to probe 1 is filed under the entry of probe 0** when the reply to probe 0 is lost. -/
theorem ping_lostReply : ∃ s, run (step 7) lostReply init = some s ∧ ¬ OwnEntry 7 s := by
  refine ⟨_, rfl, fun h => ?_⟩
  have := h 36 ⟨2, 0⟩ _ rfl rfl
  revert this
  decide

/-- One probe and its reply. -/
def oneReply : List Act :=
  [Act.main true, .main true, .send ⟨0, 0⟩ true] ++ probe ⟨1, 0⟩ ++
    [Act.reply 0 ipHdr (0, 0), .recv 1 ⟨2, 0⟩, .recv 1 ⟨2, 0⟩, .recv 1 ⟨2, 0⟩]

theorem ping_own_entry_oneReply :
    ∃ s, run (restrict (inOrder 7) (step 7)) oneReply init = some s ∧ s.receiver = .unpack 36 ∧ OwnEntry 7 s :=
  ⟨_, rfl, rfl, ping_own_entry 7 oneReply _ rfl⟩

end Ping
end Cc
