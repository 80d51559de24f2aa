import CCplusplus.PingRuns
import Mathlib.Data.List.Nodup
/-!
# PingStats — what `ping_stats_show` divides

`main` reaches the statistics when both threads have ended.  The divisor is then positive unless the handler cleared
`alive` before the sender's loop was entered, and no more replies are counted than probes unless a reply arrives twice or
a datagram that answers no probe is accepted (`ping_stats`).
-/
namespace Cc
namespace Ping

open CLib

/-- The sender is in the body of its loop, or has been through it. -/
def entered (pc : SendPc) (sendCount : Nat) : Bool :=
  decide (0 < sendCount) ||
  match pc with
  | .stamp => true
  | .flag => true
  | .seq => true
  | .pack => true
  | .sendto => true
  | .count _ => true
  | _ => false

/-- Packets transmitted and not yet counted. -/
def pending : SendPc → Nat
  | .count _ => 1
  | _ => 0

/-- What the sender has done, where `alive` is not cleared before its loop is entered. -/
structure Sending (s : State) : Prop where
  stopped : s.alive = false → entered s.sender s.sendCount = true
  done : s.sender = .done → 0 < s.sendCount
  sent : s.sent.length ≤ s.sendCount + pending s.sender

/-- `main` has joined the threads that have ended. -/
structure Joined (s : State) : Prop where
  sender : s.main = .joinRecv ∨ s.main = .stats → s.sender = .done
  receiver : s.main = .stats → s.receiver = .done

/-- Every datagram that is accepted answers a probe of its own. -/
structure Answered (pid : Nat) (s : State) : Prop where
  once : (s.arrived.filterMap Datagram.answers).Nodup
  sent : ∀ j ∈ s.arrived.filterMap Datagram.answers, j < s.sent.length
  others : ∀ d ∈ s.arrived, d.answers = none → replySeq pid d = none

theorem Sending.of_view {s s' : State} (h : Sending s) (hv : senderView s' = senderView s) : Sending s' := by
  have hp : s'.sender = s.sender := congrArg (·.1) hv
  have hc : s'.sendCount = s.sendCount := congrArg (·.2.1) hv
  have hs : s'.sent = s.sent := congrArg (·.2.2.1) hv
  have ha : s'.alive = s.alive := congrArg (·.2.2.2) hv
  constructor
  · rw [ha, hp, hc]
    exact h.stopped
  · rw [hp, hc]
    exact h.done
  · rw [hs, hp, hc]
    exact h.sent

theorem Sending.sendStep {pid : Nat} {s s' : State} {clock : Timeval} {transmitted : Bool} (h : Sending s)
    (hs : sendStep pid s clock transmitted = some s') : Sending s' := by
  have hstop := h.stopped
  have hsent := h.sent
  unfold Ping.sendStep at hs
  cases hpc : s.sender with
  | start =>
    rw [hpc] at hs hstop hsent
    cases hs
    exact ⟨hstop, fun h => (by cases h), hsent⟩
  | test =>
    rw [hpc] at hs hstop hsent
    by_cases hgo : (s.alive && decide (s.sendCount < PACKET_SEND_MAX_NUM)) = true
    · simp only [if_pos hgo] at hs
      cases hs
      exact ⟨fun _ => (by simp [entered]), fun h => (by cases h), hsent⟩
    · simp only [if_neg hgo] at hs
      cases hs
      have hpos : 0 < s.sendCount := by
        cases ha : s.alive with
        | false => simpa [entered] using hstop ha
        | true =>
          rw [ha, Bool.true_and, decide_eq_true_eq] at hgo
          exact Nat.lt_of_lt_of_le (by decide) (Nat.le_of_not_lt hgo)
      exact ⟨fun _ => (by simp [entered, hpos]), fun _ => hpos, hsent⟩
  | stamp | flag | seq | pack =>
    rw [hpc] at hs hstop hsent
    cases hs
    exact ⟨fun _ => (by simp [entered]), fun h => (by cases h), hsent⟩
  | sendto =>
    rw [hpc] at hs hstop hsent
    cases hs
    refine ⟨fun _ => (by simp [entered]), fun h => (by cases h), ?_⟩
    cases transmitted with
    | true => simpa [pending] using hsent
    | false => exact Nat.le_succ_of_le hsent
  | count sent =>
    rw [hpc] at hs hstop hsent
    cases hs
    refine ⟨fun _ => (by simp [entered]), fun h => (by cases sent <;> cases h), ?_⟩
    cases sent with
    | true => exact hsent
    | false => exact hsent
  | sleep =>
    rw [hpc] at hs hstop hsent
    cases hs
    exact ⟨hstop, fun h => (by cases h), hsent⟩
  | done =>
    rw [hpc] at hs
    cases hs

theorem Joined.of_frame {s s' : State} (h : Joined s) (hm : s'.main = s.main)
    (hsend : s.sender = .done → s'.sender = .done) (hrecv : s.receiver = .done → s'.receiver = .done) : Joined s' :=
  ⟨fun hm' => hsend (h.sender (hm ▸ hm')), fun hm' => hrecv (h.receiver (hm ▸ hm'))⟩

theorem Joined.mainStep {s s' : State} {created : Bool} (h : Joined s) (hs : mainStep s created = some s') :
    Joined s' := by
  unfold Ping.mainStep at hs
  cases hpc : s.main with
  | createSend | createRecv =>
    rw [hpc] at hs
    cases hs
    constructor
    · intro hm
      cases created <;> rcases hm with hm | hm <;> cases hm
    · intro hm
      cases created <;> cases hm
  | joinSend =>
    rw [hpc] at hs
    simp only at hs
    split at hs
    · rename_i hdone
      cases hs
      exact ⟨fun _ => hdone, fun hm => (by cases hm)⟩
    · cases hs
  | joinRecv =>
    rw [hpc] at hs
    simp only at hs
    split at hs
    · rename_i hdone
      cases hs
      exact ⟨fun _ => h.sender (.inl hpc), fun _ => hdone⟩
    · cases hs
  | stats =>
    rw [hpc] at hs
    cases hs
    exact ⟨fun hm => (by rcases hm with hm | hm <;> cases hm), fun hm => (by cases hm)⟩
  | returned r =>
    rw [hpc] at hs
    cases hs

/-- SIGINT's handler runs after the sender's loop is entered, no reply arrives twice, and nothing but a reply to a probe
of this process is acceptable. -/
def calm (pid : Nat) (s : State) : Act → Bool
  | .handler _ =>
    match s.handler with
    | some (_, .alive) => entered s.sender s.sendCount
    | _ => true
  | .reply j _ _ => !(s.arrived.filterMap Datagram.answers).contains j
  | .other bytes => (replySeq pid ⟨none, bytes⟩).isNone
  | _ => true

/-- What holds in the runs whose steps are all calm. -/
structure Calm (pid : Nat) (s : State) : Prop where
  holding : Holding pid s
  sending : Sending s
  joined : Joined s
  answered : Answered pid s

theorem calm_init (pid : Nat) : Calm pid init where
  holding := holding_init pid
  sending := ⟨fun h => (by cases h), fun h => (by cases h), Nat.le_refl _⟩
  joined := ⟨fun h => (by rcases h with h | h <;> cases h), fun h => (by cases h)⟩
  answered := ⟨List.nodup_nil, fun _ h => (by cases h), fun _ h => (by cases h)⟩

theorem Answered.of_same {pid : Nat} {s s' : State} (h : Answered pid s) (ha : s'.arrived = s.arrived)
    (hs : s.sent.length ≤ s'.sent.length) : Answered pid s' := by
  constructor
  · rw [ha]
    exact h.once
  · rw [ha]
    exact fun j hj => Nat.lt_of_lt_of_le (h.sent j hj) hs
  · rw [ha]
    exact h.others

theorem sendStep_sent {pid : Nat} {s s' : State} {clock : Timeval} {transmitted : Bool}
    (h : sendStep pid s clock transmitted = some s') : s.sent.length ≤ s'.sent.length ∧ s.sender ≠ .done := by
  unfold sendStep at h
  split at h
  all_goals cases h
  all_goals rename_i hpc
  all_goals refine ⟨?_, by rw [hpc]; simp⟩
  case h_7 =>
    cases transmitted with
    | true => simp
    | false => exact Nat.le_refl _
  all_goals exact Nat.le_refl _

theorem recvStep_not_done {pid : Nat} {s s' : State} {ret : Int} {clock : Timeval}
    (h : recvStep pid s ret clock = some s') : s.receiver ≠ .done := by
  intro hd
  unfold recvStep at h
  rw [hd] at h
  cases h

/-- `alive` is cleared by a handler that runs after the loop is entered, or was clear. -/
theorem Sending.handlerStep {pid : Nat} {s s' : State} {clock : Timeval} (h : Sending s)
    (hok : calm pid s (.handler clock) = true) (hs : handlerStep s clock = some s') : Sending s' := by
  obtain ⟨-, -, -, hsend⟩ := handlerStep_frame hs
  have hp : s'.sender = s.sender := congrArg (·.1) hsend
  have hc : s'.sendCount = s.sendCount := congrArg (·.2.1) hsend
  have hsent : s'.sent = s.sent := congrArg (·.2.2) hsend
  refine ⟨fun ha => ?_, ?_, ?_⟩
  · rw [hp, hc]
    simp only [Ping.handlerStep] at hs
    simp only [calm] at hok
    split at hs
    · cases hs
    · cases hs
    · rename_i heq _
      rw [heq] at hok
      exact hok
    · cases hs
      exact h.stopped ha
    · cases hs
      exact h.stopped ha
  · rw [hp, hc]
    exact h.done
  · rw [hp, hc, hsent]
    exact h.sent

/-- A reply to a probe that has none yet. -/
theorem Answered.reply {pid : Nat} {s : State} {d : Datagram} {j : Nat} (h : Answered pid s) (hd : d.answers = some j)
    (hj : j < s.sent.length) (hnew : j ∉ s.arrived.filterMap Datagram.answers) :
    Answered pid { s with arrived := s.arrived ++ [d] } := by
  have happ : (s.arrived ++ [d]).filterMap Datagram.answers = s.arrived.filterMap Datagram.answers ++ [j] := by
    rw [List.filterMap_append, List.filterMap_cons, hd]
    rfl
  constructor
  · rw [happ]
    exact List.nodup_append.2 ⟨h.once, List.nodup_singleton j, fun x hx y hy hxy => by
      rw [List.mem_singleton] at hy
      subst hxy hy
      exact hnew hx⟩
  · intro k hk
    rw [happ, List.mem_append, List.mem_singleton] at hk
    rcases hk with hk | rfl
    · exact h.sent k hk
    · exact hj
  · intro d' hd' hn
    rcases List.mem_append.1 hd' with hd' | hd'
    · exact h.others d' hd' hn
    · rw [List.mem_singleton] at hd'
      rw [hd', hd] at hn
      cases hn

/-- A datagram that answers no probe and is not accepted. -/
theorem Answered.other {pid : Nat} {s : State} {d : Datagram} (h : Answered pid s) (hd : d.answers = none)
    (hreject : replySeq pid d = none) : Answered pid { s with arrived := s.arrived ++ [d] } := by
  have happ : (s.arrived ++ [d]).filterMap Datagram.answers = s.arrived.filterMap Datagram.answers := by
    rw [List.filterMap_append, List.filterMap_cons, hd]
    exact List.append_nil _
  constructor
  · rw [happ]
    exact h.once
  · rw [happ]
    exact h.sent
  · intro d' hd' hn
    rcases List.mem_append.1 hd' with hd' | hd'
    · exact h.others d' hd' hn
    · rw [List.mem_singleton] at hd'
      rw [hd']
      exact hreject

/-- **A calm step.** -/
theorem calm_step {pid : Nat} {s s' : State} {a : Act} (h : Calm pid s) (hok : calm pid s a = true)
    (hs : step pid s a = some s') : Calm pid s' := by
  have hhold := holding_step h.holding hs
  cases a with
  | main created =>
    simp only [step] at hs
    split at hs
    · obtain ⟨-, harr, hv⟩ := mainStep_frame hs
      have hsent : s'.sent = s.sent := congrArg (fun v => v.2.2.1) hv
      exact ⟨hhold, h.sending.of_view hv, h.joined.mainStep hs, h.answered.of_same harr (by rw [hsent])⟩
    · cases hs
  | send clock transmitted =>
    simp only [step] at hs
    split at hs
    · obtain ⟨hv, harr, hm⟩ := sendStep_receiver hs
      obtain ⟨hsent, hpc⟩ := sendStep_sent hs
      have hrecv : s'.receiver = s.receiver := congrArg (fun v => v.1) hv
      exact ⟨hhold, h.sending.sendStep hs, h.joined.of_frame hm (fun hd => absurd hd hpc) (fun hd => hrecv.trans hd),
        h.answered.of_same harr hsent⟩
    · cases hs
  | recv ret clock =>
    simp only [step] at hs
    split at hs
    · obtain ⟨hv, harr, hm⟩ := recvStep_sender hs
      have hpc := recvStep_not_done hs
      have hsend : s'.sender = s.sender := congrArg (fun v => v.1) hv
      have hsent : s'.sent = s.sent := congrArg (fun v => v.2.2.1) hv
      exact ⟨hhold, h.sending.of_view hv, h.joined.of_frame hm (fun hd => hsend.trans hd) (fun hd => absurd hd hpc),
        h.answered.of_same harr (by rw [hsent])⟩
    · cases hs
  | sigint t =>
    simp only [step] at hs
    split at hs
    · cases hs
      exact ⟨hhold, h.sending.of_view rfl, h.joined.of_frame rfl id id, h.answered.of_same rfl (Nat.le_refl _)⟩
    · cases hs
  | handler clock =>
    obtain ⟨hv, harr, hm, hsend⟩ := handlerStep_frame hs
    have hpc : s'.sender = s.sender := congrArg (·.1) hsend
    have hsent : s'.sent = s.sent := congrArg (·.2.2) hsend
    have hrecv : s'.receiver = s.receiver := congrArg (fun v => v.1) hv
    exact ⟨hhold, h.sending.handlerStep hok hs, h.joined.of_frame hm (fun hd => hpc.trans hd)
      (fun hd => hrecv.trans hd), h.answered.of_same harr (by rw [hsent])⟩
  | reply j ipHdr cksum =>
    obtain ⟨d, hd, rfl⟩ := Option.map_eq_some_iff.1 hs
    refine ⟨hhold, h.sending.of_view rfl, h.joined.of_frame rfl id id, ?_⟩
    simp only [arrival] at hd
    split at hd
    · obtain ⟨packet, hp, rfl⟩ := Option.map_eq_some_iff.1 hd
      exact h.answered.reply rfl (List.getElem?_eq_some_iff.1 hp).1 (by simpa [calm] using hok)
    · cases hd
  | other bytes =>
    cases hs
    exact ⟨hhold, h.sending.of_view rfl, h.joined.of_frame rfl id id,
      h.answered.other rfl (by simpa [calm] using hok)⟩

/-! ## The statistics -/

/-- Every acceptable datagram answers a probe, so there are no more of them than answers. -/
theorem length_seqs_le {pid : Nat} : ∀ {l : List Datagram}, (∀ d ∈ l, d.answers = none → replySeq pid d = none) →
    (seqs pid l).length ≤ (l.filterMap Datagram.answers).length
  | [], _ => Nat.le_refl _
  | d :: l, h => by
    have ih : (seqs pid l).length ≤ (l.filterMap Datagram.answers).length :=
      length_seqs_le (fun d' hd' => h d' (List.mem_cons_of_mem _ hd'))
    have hd := h d List.mem_cons_self
    unfold seqs at ih ⊢
    rw [List.filterMap_cons, List.filterMap_cons]
    cases ha : d.answers with
    | none =>
      rw [hd ha]
      exact ih
    | some j =>
      cases replySeq pid d with
      | none => exact Nat.le_succ_of_le ih
      | some q => exact Nat.succ_le_succ ih

/-- Distinct numbers below `n`. -/
theorem length_le_of_nodup {l : List Nat} {n : Nat} (h : l.Nodup) (hlt : ∀ j ∈ l, j < n) : l.length ≤ n := by
  have hsub : l ⊆ List.range n := fun j hj => List.mem_range.2 (hlt j hj)
  simpa using List.Nodup.length_le_of_subset h hsub

/-- At `ping_stats_show`: the division is defined, and the loss is a percentage. -/
def StatsDefined (s : State) : Prop :=
  0 < s.sendCount ∧ s.recvCount ≤ s.sendCount ∧ ∃ st, pingStatsShow s = some st ∧ 0 ≤ st.loss ∧ st.loss ≤ 100

theorem statsDefined_of_le {s : State} (h0 : 0 < s.sendCount) (h : s.recvCount ≤ s.sendCount) : StatsDefined s := by
  refine ⟨h0, h, _, if_neg (by omega), ?_, ?_⟩
  · apply Int.tdiv_nonneg
    · omega
    · omega
  · simp only
    rw [Int.tdiv_eq_ediv_of_nonneg (by omega)]
    apply Int.ediv_le_of_le_mul
    · omega
    · omega

theorem Calm.recvCount_le {pid : Nat} {s : State} (h : Calm pid s) (hs : s.sender = .done) (hr : s.receiver = .done) :
    s.recvCount ≤ s.sendCount := by
  have hcnt := h.holding.counted
  unfold Counted at hcnt
  rw [hr] at hcnt
  have hsent := h.sending.sent
  rw [hs] at hsent
  have htake : ∀ d ∈ s.arrived.take s.taken, d ∈ s.arrived := fun d hd => List.mem_of_mem_take hd
  calc s.recvCount = (seqs pid (s.arrived.take s.taken)).length := hcnt
    _ ≤ ((s.arrived.take s.taken).filterMap Datagram.answers).length :=
      length_seqs_le (fun d hd => h.answered.others d (htake d hd))
    _ ≤ (s.arrived.filterMap Datagram.answers).length :=
      ((List.take_sublist _ _).filterMap _).length_le
    _ ≤ s.sent.length := length_le_of_nodup h.answered.once h.answered.sent
    _ ≤ s.sendCount := hsent

/-- **The statistics are defined** in every run in which SIGINT's handler runs after the sender's loop is entered, no
reply arrives twice, and nothing but a reply to a probe of this process is acceptable. -/
theorem ping_stats (pid : Nat) (acts : List Act) (s : State)
    (h : run (restrict (calm pid) (step pid)) acts init = some s) (hm : s.main = .stats) : StatsDefined s := by
  have hc : Calm pid s := restrict_inv (Calm pid) (fun s a s' hi hok hs => calm_step hi hok hs) acts init s
    (calm_init pid) h
  have hsend := hc.joined.sender (.inr hm)
  exact statsDefined_of_le (hc.sending.done hsend) (hc.recvCount_le hsend (hc.joined.receiver hm))

/-- SIGINT while `main` has yet to create the sender. -/
def earlySigint : List Act :=
  [.sigint .main, .handler ⟨0, 0⟩, .handler ⟨0, 0⟩, .handler ⟨0, 0⟩, .main true, .main true, .send ⟨0, 0⟩ true,
    .send ⟨0, 0⟩ true, .recv 0 ⟨0, 0⟩, .main true, .main true]

/-- **The statistics divide by zero** after SIGINT before the first probe. -/
theorem ping_stats_earlySigint :
    ∃ s, run (step 7) earlySigint init = some s ∧ s.main = .stats ∧ pingStatsShow s = none ∧ ¬ StatsDefined s :=
  ⟨_, rfl, rfl, rfl, fun h => absurd h.1 (by decide)⟩

/-- One probe, its reply counted, then SIGINT. -/
def calmRun : List Act :=
  oneReply ++ [Act.recv 1 ⟨2, 0⟩, .recv 1 ⟨2, 0⟩, .sigint .main, .handler ⟨3, 0⟩, .handler ⟨3, 0⟩, .handler ⟨3, 0⟩,
    .send ⟨3, 0⟩ true, .recv 0 ⟨3, 0⟩, .main true, .main true]

theorem ping_stats_calmRun :
    ∃ s, run (restrict (calm 7) (step 7)) calmRun init = some s ∧ s.main = .stats ∧ StatsDefined s :=
  ⟨_, rfl, rfl, ping_stats 7 calmRun _ rfl rfl⟩

end Ping
end Cc
