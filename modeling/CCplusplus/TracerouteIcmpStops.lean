import CCplusplus.TracerouteCounts
/-!
# TracerouteIcmpStops — when `traceroute_icmp` ends

The test of the two counters stands over an empty block, and `exit(0)` under it is reached where the `switch` is not
left by a `break`: for a datagram for which `icmp_packet_ok` returns 0.  So the program ends for what is no answer, and
goes on after the last answer.  It follows its stop rule exactly while neither comes: while every datagram judged is too
short, or of a type that is looked at with a code that does not reach the rule (`stops_iff`).
-/
namespace Cc
namespace TracerouteIcmp

open CLib
open TracerouteUdp (verdictOf)

/-- The probe loop has ended before its last `ttl` exactly if a destination answered or 64 messages said unreachable. -/
def StopRule (s : State) : Prop := s.pc = .exited ↔ 0 < s.gotThere ∨ 64 ≤ s.unreachable

/-- The message judged, after `unreachable` others, is an answer that does not reach the stop rule: none at all, or a
time-exceeded message with code 0 or an unreachable one, with a code that leaves both counters below. -/
def keepsOn (unreachable : Nat) : Option (UInt8 × UInt8) → Bool
  | none => true
  | some (t, c) =>
    ((t == 11 && c == 0) || t == 3) && !(c == 2 || c == 3) && (decide (5 < c.toNat) || decide (unreachable < 63))

theorem keepsOn_code {t c : UInt8} (h : (t = 11 ∧ c = 0) ∨ t = 3) (unreachable : Nat) :
    keepsOn unreachable (some (t, c)) = true ↔
      ¬ (c.toNat = 2 ∨ c.toNat = 3) ∧ (5 < c.toNat ∨ unreachable < 63) := by
  have hlook : ((t == 11 && c == 0) || t == 3) = true := by simpa using h
  have hcode : ∀ k : UInt8, (c = k) = (c.toNat = k.toNat) := fun k => propext UInt8.toNat_inj.symm
  unfold keepsOn
  simp only
  rw [hlook]
  simp [hcode]

/-- **Judging a message keeps the rule exactly if it is an answer that does not reach it.** -/
theorem judge_rule {s : State} {len : Int} {clock : Timeval} {m : Option (UInt8 × UInt8)}
    (hi : icmpPacketOk s.recvBuf len s.seq = verdict packetOk m) (hg : s.gotThere = 0) (hu : s.unreachable < 64) :
    StopRule (judge s len clock) ↔ keepsOn s.unreachable m = true := by
  obtain ⟨eg, eu, ep⟩ := judge_counts s len clock
  unfold StopRule
  rw [eg, eu, ep, hi, hg]
  cases m with
  | none =>
    have hv : verdict packetOk none = -1 := rfl
    rw [hv, verdictOf_other (.inl (by decide)), if_pos (by decide)]
    dsimp only
    refine ⟨fun _ => rfl, fun _ => ⟨nofun, ?_⟩⟩
    omega
  | some m =>
    obtain ⟨t, c⟩ := m
    by_cases hret : (t = 11 ∧ c = 0) ∨ t = 3
    · have hv : verdict packetOk (some (t, c)) = c.toNat + 1 := if_pos hret
      rw [keepsOn_code hret, hv, if_pos (by omega)]
      have hcode := verdictOf_code c.toNat
      generalize verdictOf (c.toNat + 1) = v at hcode
      -- the loop goes on, so the counters must be below the rule
      have hgo : (Pc.inner = .exited ↔ 0 < 0 + v.1 ∨ 64 ≤ s.unreachable + v.2.1) ↔
          v.1 = 0 ∧ s.unreachable + v.2.1 < 64 := by
        constructor
        · intro h
          have hnot : ¬ (0 < 0 + v.1 ∨ 64 ≤ s.unreachable + v.2.1) := fun hr => nomatch h.2 hr
          omega
        · rintro ⟨h1, h2⟩
          exact ⟨nofun, fun hr => by omega⟩
      rw [hgo]
      split at hcode
      · obtain ⟨h1, h2⟩ := Prod.mk.inj hcode
        rw [h1, h2]
        omega
      · split at hcode
        · obtain ⟨h1, h2⟩ := Prod.mk.inj hcode
          rw [h1, h2]
          omega
        · obtain ⟨h1, h2⟩ := Prod.mk.inj hcode
          rw [h1, h2]
          omega
    · have hv : verdict packetOk (some (t, c)) = 0 := if_neg hret
      rw [hv, verdictOf_other (.inl (by decide)), if_neg (by decide)]
      dsimp only
      constructor
      · intro h
        have := h.1 rfl
        omega
      · intro h
        have hlook : ((t == 11 && c == 0) || t == 3) = true := by
          unfold keepsOn at h
          simp only [Bool.and_eq_true] at h
          exact h.1.1
        exact absurd (by simpa using hlook) hret

/-- **A step keeps the rule exactly if the message it judges, if any, does not reach it.** -/
theorem stop_step {s s' : State} {a : Act} (h : StopRule s ∧ Received (judging s) (last s) s.recvBuf)
    (hs : step s a = some s') : StopRule s' ↔ keepsOn s.unreachable (judged s a) = true := by
  obtain ⟨hrule, hrec⟩ := h
  cases a with
  | main clock ret left =>
    have hpc : s.pc ≠ .exited := by
      intro hp
      simp [step, mainStep, hp] at hs
    have hbelow : ¬ (0 < s.gotThere ∨ 64 ≤ s.unreachable) := fun hr => hpc (hrule.2 hr)
    rcases mainStep_counts hs with ⟨len, hj, rfl⟩ | ⟨hj, hg, hu, hp, -⟩
    · exact judge_rule (hrec.verdict hj packetOk) (by omega) (by omega)
    · have hm : judged s (.main clock ret left) = none := by
        unfold judged
        rw [hj]
        rfl
      unfold StopRule
      rw [hm, hg, hu]
      exact ⟨fun _ => rfl, fun _ => ⟨fun h => absurd h hp, fun h => absurd h hbelow⟩⟩
  | arrive d =>
    cases hs
    exact ⟨fun _ => rfl, fun _ => hrule⟩

/-- **The program follows its stop rule in every state of a run exactly if every datagram judged in it is too short, or
an answer that does not reach the rule.** -/
theorem stops_iff (src : Nat) (acts : List Act) :
    Along step (fun _ _ s' => StopRule s') acts (init src) ↔
      Along step (fun s a _ => keepsOn s.unreachable (judged s a) = true) acts (init src) := by
  have hrule : StopRule (init src) := ⟨nofun, fun h => by simp [init] at h⟩
  have hrec : Received (judging (init src)) (last (init src)) (init src).recvBuf := fun _ => nofun
  exact along_iff (fun s _ _ (h : StopRule s ∧ Received (judging s) (last s) s.recvBuf) hs hp =>
    ⟨hp, received_step h.2 hs⟩) (fun _ _ _ h hs => stop_step h hs) acts (init src) ⟨hrule, hrec⟩

/-- The first probe of `main`, and a datagram with a message of a type and a code. -/
def firstReply (t c : UInt8) : List Act :=
  [.main ⟨0, 0⟩ 0 ⟨0, 0⟩, .main ⟨0, 0⟩ 0 ⟨0, 0⟩, .main ⟨0, 0⟩ 16 ⟨0, 0⟩, .arrive ⟨1, icmpDatagram t c⟩,
    .main ⟨0, 0⟩ 1 ⟨4, 0⟩, .main ⟨0, 0⟩ 28 ⟨0, 0⟩]

/-- **An echo request of another host ends the program, and the destination's answer does not.** -/
theorem stops_wrong :
    (∃ s, run step (firstReply 8 0 ++ [.main ⟨0, 0⟩ 0 ⟨0, 0⟩]) (init 0) = some s ∧ s.pc = .exited ∧ s.gotThere = 0 ∧
      s.unreachable = 0 ∧ ¬ StopRule s) ∧
    ∃ s, run step (firstReply 3 3 ++ List.replicate 3 (.main ⟨0, 0⟩ 16 ⟨0, 0⟩)) (init 0) = some s ∧ s.gotThere = 1 ∧
      s.sent.length = 2 ∧ ¬ StopRule s := by
  constructor
  · exact ⟨_, rfl, rfl, rfl, rfl, fun h => absurd (h.1 rfl) (by decide)⟩
  · exact ⟨_, rfl, rfl, rfl, fun h => nomatch h.2 (.inl Nat.one_pos)⟩

end TracerouteIcmp
end Cc
