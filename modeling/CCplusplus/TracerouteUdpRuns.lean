import CCplusplus.TracerouteUdp
/-!
# TracerouteUdpRuns — whose answers `main` takes

`icmp_packet_ok` never returns 0, so every datagram received counts as the answer to the probe just sent.  It is one of
that probe's `ttl` while every datagram arrives for the `ttl` in force and none is left over when `main` goes on to the
next one (`traceroute_own_answer`).
-/
namespace Cc
namespace TracerouteUdp

open CLib

/-- **`icmp_packet_ok` rejects nothing**: what it returns is never 0. -/
theorem icmpPacketOk_ne_zero (buf : Nat → UInt8) (len : Int) (seq : UInt8) : icmpPacketOk buf len seq ≠ 0 := by
  unfold icmpPacketOk
  simp only
  split
  · decide
  · split
    · decide
    · omega

/-- The datagram was elicited by a probe of this process with the `ttl` in force. -/
def Elicited (s : State) (d : Datagram) : Prop :=
  ∃ k op, d.answers = some k ∧ s.sent[k]? = some op ∧ op.ipTtl = UInt8.ofNat s.ttl

/-- Where `main` takes the datagram just received for an answer, the datagram is one to a probe of the current `ttl`. -/
def OwnAnswer (s : State) : Prop :=
  ∀ len, s.pc = .judge len → 0 ≤ len → icmpPacketOk s.recvBuf len s.seq ≠ 0 →
    ∃ d, s.arrived[s.taken - 1]? = some d ∧ Elicited s d

/-- Every datagram arrives for the `ttl` in force, and none waits when `main` goes on to the next one. -/
def timely (s : State) : Act → Bool
  | .main _ _ _ => !(decide (s.pc = .inner) && decide (¬ s.probe < 3)) || decide (s.taken = s.arrived.length)
  | .answer k _ _ => (s.sent[k]?).any (fun op => op.ipTtl == UInt8.ofNat s.ttl)
  | .other _ _ => false

/-- The datagrams from position `n` on. -/
def Fresh (s : State) (n : Nat) : Prop := ∀ k d, n ≤ k → s.arrived[k]? = some d → Elicited s d

/-- What holds in the runs whose steps are all timely. -/
structure Timely (s : State) : Prop where
  fresh : Fresh s s.taken
  received : ∀ len, s.pc = .judge len → 0 ≤ len →
    0 < s.taken ∧ s.taken ≤ s.arrived.length ∧ Fresh s (s.taken - 1)

/-- The `ttl` and the datagrams are as they were, and the probes sent among those sent now. -/
structure Extends (s s' : State) : Prop where
  ttl : s'.ttl = s.ttl
  arrived : s'.arrived = s.arrived
  sent : ∃ l, s'.sent = s.sent ++ l

theorem Extends.refl_of {s s' : State} (ht : s'.ttl = s.ttl) (ha : s'.arrived = s.arrived) (hs : s'.sent = s.sent) :
    Extends s s' := ⟨ht, ha, [], hs.trans (List.append_nil _).symm⟩

theorem Elicited.extends {s s' : State} {d : Datagram} (h : Elicited s d) (ht : s'.ttl = s.ttl)
    (hs : ∃ l, s'.sent = s.sent ++ l) : Elicited s' d := by
  obtain ⟨k, op, h1, h2, h3⟩ := h
  obtain ⟨l, hl⟩ := hs
  refine ⟨k, op, h1, ?_, by rw [ht]; exact h3⟩
  rw [hl, List.getElem?_append_left (List.getElem?_eq_some_iff.1 h2).1]
  exact h2

theorem Fresh.extends {s s' : State} {n : Nat} (h : Fresh s n) (he : Extends s s') : Fresh s' n := by
  intro k d hk hd
  rw [he.arrived] at hd
  exact (h k d hk hd).extends he.ttl he.sent

theorem Fresh.later {s : State} {n k : Nat} (h : Fresh s n) (hk : n ≤ k) : Fresh s k :=
  fun j d hj hd => h j d (Nat.le_trans hk hj) hd

/-- Every statement of `main` but the change of the `ttl` and `recvfrom` extends the state, takes nothing, and does not
lead to the judgement of a datagram. -/
theorem mainStep_cases {ident : UInt16} {s s' : State} {clock left : Timeval} {ret : Int}
    (h : mainStep ident s clock ret left = some s') :
    (Extends s s' ∧ s'.taken = s.taken ∧ ∀ len, s'.pc = .judge len → len < 0) ∨
    (s.pc = .inner ∧ ¬ s.probe < 3 ∧ s'.taken = s.taken ∧ s'.arrived = s.arrived ∧ s'.pc = .outer) ∨
    (Extends s s' ∧ s.taken < s.arrived.length ∧ s'.taken = s.taken + 1) := by
  have hselect := mainStep_select h
  unfold mainStep at h
  cases hpc : s.pc with
  | outer =>
    rw [hpc] at h
    simp only at h
    left
    split at h
    · cases h
      exact ⟨.refl_of rfl rfl rfl, rfl, fun len hl => (by cases hl)⟩
    · cases h
      exact ⟨.refl_of rfl rfl rfl, rfl, fun len hl => (by cases hl)⟩
  | inner =>
    rw [hpc] at h
    simp only at h
    split at h
    · cases h
      exact .inl ⟨.refl_of rfl rfl rfl, rfl, fun len hl => (by cases hl)⟩
    · rename_i hp
      cases h
      exact .inr (.inl ⟨rfl, hp, rfl, rfl, rfl⟩)
  | send =>
    rw [hpc] at h
    cases h
    refine .inl ⟨⟨rfl, rfl, ?_⟩, rfl, fun len hl => (by cases hl)⟩
    simp only
    split
    · exact ⟨[], (List.append_nil _).symm⟩
    · exact ⟨_, rfl⟩
  | select =>
    obtain ⟨-, _, _, hnext, rfl⟩ := hselect hpc
    refine .inl ⟨.refl_of rfl rfl rfl, rfl, fun len hl => ?_⟩
    rcases hnext with rfl | rfl
    · cases hl
    · cases hl
  | recvfrom =>
    rw [hpc] at h
    simp only at h
    split at h
    · cases h
      exact .inl ⟨.refl_of rfl rfl rfl, rfl, fun len hl => by cases hl; decide⟩
    · split at h
      · cases h
      · rename_i d hd
        cases h
        exact .inr (.inr ⟨.refl_of rfl rfl rfl, (List.getElem?_eq_some_iff.1 hd).1, rfl⟩)
  | judge len =>
    rw [hpc] at h
    cases h
    left
    unfold judge
    simp only
    split
    · exact ⟨.refl_of rfl rfl rfl, rfl, fun len hl => (by cases hl)⟩
    · exact ⟨.refl_of rfl rfl rfl, rfl, fun len hl => (by cases hl)⟩
  | exitTest =>
    rw [hpc] at h
    simp only at h
    left
    split at h
    · cases h
      exact ⟨.refl_of rfl rfl rfl, rfl, fun len hl => (by cases hl)⟩
    · cases h
      exact ⟨.refl_of rfl rfl rfl, rfl, fun len hl => (by cases hl)⟩
  | ended status =>
    rw [hpc] at h
    cases h

/-- A datagram arrives that is `Elicited`. -/
theorem Timely.arrive {s : State} (h : Timely s) {d : Datagram} (hd : Elicited s d) :
    Timely { s with arrived := s.arrived ++ [d] } := by
  have hfresh : ∀ n, Fresh s n → Fresh { s with arrived := s.arrived ++ [d] } n := fun n hn k d' hk hd' => by
    simp only at hd'
    rcases Nat.lt_or_ge k s.arrived.length with hlt | hge
    · rw [List.getElem?_append_left hlt] at hd'
      exact hn k d' hk hd'
    · rw [List.getElem?_append_right hge] at hd'
      rw [List.getElem?_singleton] at hd'
      split at hd'
      · cases hd'
        exact hd
      · cases hd'
  refine ⟨hfresh _ h.fresh, fun len hpc hlen => ?_⟩
  obtain ⟨h0, h1, h2⟩ := h.received len hpc hlen
  refine ⟨h0, ?_, hfresh _ h2⟩
  simp only [List.length_append]
  exact Nat.le_add_right_of_le h1

/-- **A timely step.** -/
theorem timely_step {ident : UInt16} {s s' : State} {a : Act} (h : Timely s) (hok : timely s a = true)
    (hs : step ident s a = some s') : Timely s' := by
  cases a with
  | main clock ret left =>
    rcases mainStep_cases hs with ⟨he, ht, hj⟩ | ⟨hpc, hp, ht, ha, hpc'⟩ | ⟨he, hlt, ht⟩
    · constructor
      · rw [ht]
        exact h.fresh.extends he
      · intro len hpc hlen
        exact absurd (hj len hpc) (by omega)
    · -- the queue is empty where the `ttl` changes
      have hempty : s.taken = s.arrived.length := by simpa [timely, hpc, hp] using hok
      constructor
      · intro k d hk hd
        rw [ha, List.getElem?_eq_none (by omega)] at hd
        cases hd
      · intro len hl
        rw [hpc'] at hl
        cases hl
    · have hfresh := h.fresh.extends he
      constructor
      · rw [ht]
        exact hfresh.later (Nat.le_succ _)
      · intro len _ _
        rw [ht, he.arrived]
        exact ⟨Nat.succ_pos _, hlt, hfresh⟩
  | answer k src bytes =>
    simp only [step] at hs
    split at hs
    · cases hs
      obtain ⟨op, ho, hop⟩ : ∃ op, s.sent[k]? = some op ∧ op.ipTtl = UInt8.ofNat s.ttl := by
        simpa [timely, Option.any_eq_true] using hok
      exact h.arrive ⟨k, op, rfl, ho, hop⟩
    · cases hs
  | other src bytes => cases hok

/-- **Every datagram taken for an answer is one to a probe of this process with the `ttl` in force**, in every run in
which each datagram arrives for the `ttl` in force and none waits when `main` goes on to the next one. -/
theorem traceroute_own_answer (ident : UInt16) (dst src : Nat) (acts : List Act) (s : State)
    (h : run (restrict timely (step ident)) acts (init dst src) = some s) : OwnAnswer s := by
  have ht : Timely s := restrict_inv Timely (fun s a s' hi hok hs => timely_step hi hok hs) acts
    (init dst src) s ⟨fun k d _ hd => (by simp [init] at hd), fun len hl => (by cases hl)⟩ h
  intro len hpc hlen _
  obtain ⟨hpos, hle, hfresh⟩ := ht.received len hpc hlen
  have hlt : s.taken - 1 < s.arrived.length := Nat.lt_of_lt_of_le (Nat.sub_lt hpos Nat.one_pos) hle
  have hget := List.getElem?_eq_getElem hlt
  exact ⟨_, hget, hfresh _ _ (Nat.le_refl _) hget⟩

/-- The time-exceeded message of a router for the first probe of process 7: under an IP header, the probe's IP header
and UDP header quoted. -/
def timeExceeded : List UInt8 :=
  [0x45, 0, 0, 56, 0, 0, 0, 0, 64, 1, 0, 0, 10, 0, 0, 1, 10, 0, 0, 9] ++ [11, 0, 0, 0, 0, 0, 0, 0] ++
    [0x45, 0, 0, 48, 0x80, 0x08, 0, 0, 1, 17, 0, 0, 10, 0, 0, 9, 10, 0, 0, 99, 0x80, 0x07, 0x82, 0x9B, 0, 28, 0, 0]

/-- A statement of `main` at which nothing happens outside. -/
def quiet : Act := .main ⟨0, 0⟩ 0 ⟨0, 0⟩

/-- A probe from the loop test to the wait for its answer. -/
def sendOne : List Act := [quiet, .main ⟨0, 0⟩ 48 ⟨0, 0⟩]

/-- Three probes with `ttl` 1 time out; the answer to the first one arrives after the first probe with `ttl` 2. -/
def lateAnswer : List Act :=
  [quiet] ++ sendOne ++ [quiet, quiet] ++ sendOne ++ [quiet, quiet] ++ sendOne ++ [quiet, quiet] ++ [quiet, quiet] ++
    sendOne ++ [.answer 0 1 timeExceeded, .main ⟨0, 0⟩ 1 ⟨0, 0⟩, .main ⟨0, 0⟩ 56 ⟨0, 0⟩]

/-- **An answer to a probe with `ttl` 1 is taken for one with `ttl` 2** when it is late. -/
theorem traceroute_lateAnswer :
    ∃ s, run (step 0x8007) lateAnswer (init 99 0) = some s ∧ s.ttl = 2 ∧ s.pc = .judge 56 ∧ ¬ OwnAnswer s := by
  refine ⟨_, rfl, rfl, rfl, fun h => ?_⟩
  obtain ⟨d, hd, k, op, hk, hop, httl⟩ := h 56 rfl (by decide) (icmpPacketOk_ne_zero _ _ _)
  cases hd
  cases hk
  cases hop
  revert httl
  decide

/-- The same answer in time. -/
def timelyAnswer : List Act :=
  [quiet] ++ sendOne ++ [.answer 0 1 timeExceeded, .main ⟨0, 0⟩ 1 ⟨4, 0⟩, .main ⟨0, 0⟩ 56 ⟨0, 0⟩]

theorem traceroute_own_answer_timely :
    ∃ s, run (restrict timely (step 0x8007)) timelyAnswer (init 99 0) = some s ∧ s.pc = .judge 56 ∧ OwnAnswer s :=
  ⟨_, rfl, rfl, traceroute_own_answer 0x8007 99 0 timelyAnswer _ rfl⟩

end TracerouteUdp
end Cc
