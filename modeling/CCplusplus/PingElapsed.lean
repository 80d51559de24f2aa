import CCplusplus.PingStats
import CCplusplus.IcmpUnpack
/-!
# PingElapsed — the time that `ping_stats_show` prints

`time_interval` is computed by the handler of SIGINT and by nobody else.  Where statistics are printed, the handler can
only have read `end_time` after the start: a handler before it clears `alive` before anything is sent, and the division
by `send_count` fails.  The milliseconds printed are then those between the two times unless `time_offset` has borrowed a
second.  So the time printed is the run's exactly if a handler ran to its end and read microseconds that are no less than
those of the start (`ping_elapsed_iff`); a run that ends with its packets prints 0.
-/
namespace Cc
namespace Ping

open CLib

/-- The handler is at a statement, on some thread. -/
def AtHandler (s : State) (pc : SigPc) : Prop := ∃ t, s.handler = some (t, pc)

/-- A handler has run to its end in the run, the last to do so; `c` is the `end_time` that it had read. -/
def Handled (pid : Nat) (as : List Act) (c : Timeval) : Prop :=
  ∃ before c' after s₁, as = before ++ Act.handler c' :: after ∧ run (step pid) before init = some s₁ ∧
    AtHandler s₁ .timeInterval ∧ s₁.endTime = c ∧
    ∀ mid c'' rest s₂, after = mid ++ Act.handler c'' :: rest →
      run (step pid) (before ++ Act.handler c' :: mid) init = some s₂ → ¬ AtHandler s₂ .timeInterval

/-- A handler has read `end_time` in the run, after `start_time` was read. -/
def Read (pid : Nat) (as : List Act) (c : Timeval) : Prop :=
  ∃ before between s₁, as = before ++ Act.handler c :: between ∧ run (step pid) before init = some s₁ ∧
    AtHandler s₁ .endTime ∧ s₁.sender ≠ .start

/-- `time_interval` was last computed from an `end_time` read after `start_time`, and the time printed is the whole
milliseconds between the two. -/
def Elapsed (pid : Nat) (as : List Act) (s : State) : Prop :=
  ∃ c, Handled pid as c ∧ Read pid as c ∧
    (pingStatsShow s).map Stats.time = some ((c.micros - s.startTime.micros) / 1000)

/-- The sender's loop is not entered and will not be. -/
structure Idle (s : State) : Prop where
  alive : s.alive = false
  sendCount : s.sendCount = 0
  sender : s.sender = .start ∨ s.sender = .test ∨ s.sender = .done

/-- A step of the sender reads the start, or it leaves the times. -/
theorem sendStep_time {pid : Nat} {s s' : State} {clock : Timeval} {transmitted : Bool}
    (h : sendStep pid s clock transmitted = some s') :
    s'.alive = s.alive ∧ s'.handler = s.handler ∧ s'.endTime = s.endTime ∧ s'.timeInterval = s.timeInterval ∧
      s'.sender ≠ .start ∧ (s.sender ≠ .start → s'.startTime = s.startTime) := by
  unfold sendStep at h
  cases hpc : s.sender with
  | start =>
    rw [hpc] at h
    cases h
    exact ⟨rfl, rfl, rfl, rfl, nofun, fun hn => absurd rfl hn⟩
  | test =>
    rw [hpc] at h
    cases h
    refine ⟨rfl, rfl, rfl, rfl, ?_, fun _ => rfl⟩
    simp only
    split
    · nofun
    · nofun
  | count sent =>
    rw [hpc] at h
    cases h
    refine ⟨rfl, rfl, rfl, rfl, ?_, fun _ => rfl⟩
    cases sent
    · nofun
    · nofun
  | done =>
    rw [hpc] at h
    cases h
  | _ =>
    rw [hpc] at h
    cases h
    exact ⟨rfl, rfl, rfl, rfl, nofun, fun _ => rfl⟩

theorem Idle.sendStep {pid : Nat} {s s' : State} {clock : Timeval} {transmitted : Bool} (h : Idle s)
    (hs : sendStep pid s clock transmitted = some s') : Idle s' := by
  unfold Ping.sendStep at hs
  rcases h.sender with hpc | hpc | hpc
  · rw [hpc] at hs
    cases hs
    exact ⟨h.alive, h.sendCount, .inr (.inl rfl)⟩
  · rw [hpc] at hs
    cases hs
    exact ⟨h.alive, h.sendCount, .inr (.inr (by simp [h.alive]))⟩
  · rw [hpc] at hs
    cases hs

/-- A step that is none of the last two statements of the handler: it leaves `end_time` and `time_interval`, and once
`start_time` is read it leaves that. -/
structure Untimed (s s' : State) : Prop where
  endTime : s'.endTime = s.endTime
  timeInterval : s'.timeInterval = s.timeInterval
  computing : AtHandler s' .timeInterval → AtHandler s .timeInterval
  started : s.sender ≠ .start → s'.sender ≠ .start ∧ s'.startTime = s.startTime
  idle : Idle s → Idle s'
  /-- the handler has cleared `alive` before it reads `end_time` -/
  cleared : (AtHandler s .endTime → s.alive = false) → AtHandler s' .endTime → s'.alive = false
  count : (s.sender = .start → s.sendCount = 0) → s'.sender = .start → s'.sendCount = 0

theorem Untimed.of_same {s s' : State} (he : s'.endTime = s.endTime) (ht : s'.timeInterval = s.timeInterval)
    (hs : s'.startTime = s.startTime) (hh : s'.handler = s.handler ∨ ∃ t, s'.handler = some (t, .alive))
    (hv : senderView s' = senderView s) : Untimed s s' := by
  have hp : s'.sender = s.sender := congrArg (·.1) hv
  have hc : s'.sendCount = s.sendCount := congrArg (·.2.1) hv
  have ha : s'.alive = s.alive := congrArg (·.2.2.2) hv
  have hend : SigPc.endTime ≠ .alive := by decide
  have hint : SigPc.timeInterval ≠ .alive := by decide
  have hat : ∀ pc, pc ≠ .alive → AtHandler s' pc → AtHandler s pc := by
    rintro pc hne ⟨t, h⟩
    rcases hh with hh | ⟨t', hh⟩
    · exact ⟨t, hh.symm.trans h⟩
    · cases hh.symm.trans h
      exact absurd rfl hne
  refine ⟨he, ht, hat _ hint, fun hn => ⟨hp ▸ hn, hs⟩, fun hi => ⟨ha.trans hi.alive, hc.trans hi.sendCount, ?_⟩,
    fun hcl h => ha.trans (hcl (hat _ hend h)), fun hcl h => hc.trans (hcl (hp.symm.trans h))⟩
  rw [hp]
  exact hi.sender

theorem mainStep_time {s s' : State} {created : Bool} (h : mainStep s created = some s') :
    s'.endTime = s.endTime ∧ s'.timeInterval = s.timeInterval ∧ s'.startTime = s.startTime ∧
      s'.handler = s.handler := by
  obtain ⟨_, rfl⟩ := mainStep_eq h
  exact ⟨rfl, rfl, rfl, rfl⟩

theorem recvStep_time {pid : Nat} {s s' : State} {ret : Int} {clock : Timeval}
    (h : recvStep pid s ret clock = some s') :
    s'.endTime = s.endTime ∧ s'.timeInterval = s.timeInterval ∧ s'.startTime = s.startTime ∧
      s'.handler = s.handler := by
  obtain ⟨_, _, _, _, _, _, rfl⟩ := recvStep_eq h
  exact ⟨rfl, rfl, rfl, rfl⟩

/-- **What a step does to the times**: the handler reads `end_time`, or it computes `time_interval`, or neither. -/
theorem step_time {pid : Nat} {s s' : State} {a : Act} (h : step pid s a = some s') :
    (∃ c t, a = .handler c ∧ s.handler = some (t, .endTime) ∧
      s' = { s with endTime := c, handler := some (t, .timeInterval) }) ∨
    (∃ c t, a = .handler c ∧ s.handler = some (t, .timeInterval) ∧
      s' = { s with timeInterval := timeOffset s.startTime s.endTime, handler := none }) ∨
    (Untimed s s' ∧ ∀ c, a = .handler c → ¬ AtHandler s .timeInterval) := by
  cases a with
  | main created =>
    simp only [step] at h
    split at h
    · obtain ⟨-, -, hv⟩ := mainStep_frame h
      obtain ⟨he, ht, hs, hh⟩ := mainStep_time h
      exact .inr (.inr ⟨.of_same he ht hs (.inl hh) hv, fun c hc => (by cases hc)⟩)
    · cases h
  | send clock transmitted =>
    simp only [step] at h
    split at h
    · obtain ⟨ha, hh, he, ht, hn, hs⟩ := sendStep_time h
      have hat : ∀ pc, AtHandler s' pc → AtHandler s pc := by
        rintro pc ⟨t, hpc⟩
        exact ⟨t, hh.symm.trans hpc⟩
      exact .inr (.inr ⟨⟨he, ht, hat _, fun hst => ⟨hn, hs hst⟩, fun hi => hi.sendStep h,
        fun hcl hpc => ha.trans (hcl (hat _ hpc)), fun _ hst => absurd hst hn⟩, fun c hc => (by cases hc)⟩)
    · cases h
  | recv ret clock =>
    simp only [step] at h
    split at h
    · obtain ⟨hv, -, -⟩ := recvStep_sender h
      obtain ⟨he, ht, hs, hh⟩ := recvStep_time h
      exact .inr (.inr ⟨.of_same he ht hs (.inl hh) hv, fun c hc => (by cases hc)⟩)
    · cases h
  | sigint t =>
    simp only [step] at h
    split at h
    · cases h
      exact .inr (.inr ⟨.of_same rfl rfl rfl (.inr ⟨t, rfl⟩) rfl, fun c hc => (by cases hc)⟩)
    · cases h
  | handler clock =>
    simp only [step, handlerStep] at h
    split at h
    · cases h
    · cases h
    · rename_i t hh _
      cases h
      refine .inr (.inr ⟨⟨rfl, rfl, fun hc => ?_, fun hn => ⟨hn, rfl⟩,
        fun hi => ⟨rfl, hi.sendCount, hi.sender⟩, fun _ _ => rfl, fun hcl => hcl⟩, fun c _ hc => ?_⟩)
      · obtain ⟨t', ht'⟩ := hc
        cases ht'
      · obtain ⟨t', ht'⟩ := hc
        cases hh.symm.trans ht'
    · rename_i t hh _
      cases h
      exact .inl ⟨clock, t, rfl, hh, rfl⟩
    · rename_i t hh _
      cases h
      exact .inr (.inl ⟨clock, t, rfl, hh, rfl⟩)
  | reply j ipHdr cksum =>
    obtain ⟨d, -, rfl⟩ := Option.map_eq_some_iff.1 h
    exact .inr (.inr ⟨.of_same rfl rfl rfl (.inl rfl) rfl, fun c hc => (by cases hc)⟩)
  | other bytes =>
    cases h
    exact .inr (.inr ⟨.of_same rfl rfl rfl (.inl rfl) rfl, fun c hc => (by cases hc)⟩)

/-! ## What a run has done -/

theorem Read.snoc {pid : Nat} {as : List Act} {c : Timeval} (h : Read pid as c) (a : Act) : Read pid (as ++ [a]) c := by
  obtain ⟨before, between, s₁, rfl, h⟩ := h
  exact ⟨before, between ++ [a], s₁, by simp, h⟩

/-- The last step of a run completes the handler, or the last one before has. -/
theorem Handled.of_snoc {pid : Nat} {as : List Act} {s : State} {a : Act} {c : Timeval}
    (hr : run (step pid) as init = some s) (h : Handled pid (as ++ [a]) c) :
    ((∃ c', a = .handler c') ∧ AtHandler s .timeInterval ∧ s.endTime = c) ∨
      Handled pid as c ∧ ¬ ((∃ c', a = .handler c') ∧ AtHandler s .timeInterval) := by
  obtain ⟨before, c', after, s₁, heq, hb, h1, hend, hlast⟩ := h
  rcases List.eq_nil_or_concat after with rfl | ⟨after, b, rfl⟩
  · obtain ⟨rfl, ha⟩ := List.append_inj' heq rfl
    cases ha
    cases hb.symm.trans hr
    exact .inl ⟨⟨c', rfl⟩, h1, hend⟩
  · rw [List.concat_eq_append, ← List.cons_append, ← List.append_assoc] at heq
    obtain ⟨rfl, hab⟩ := List.append_inj' heq rfl
    cases hab
    refine .inr ⟨⟨before, c', after, s₁, rfl, hb, h1, hend, fun mid c'' rest s₂ hsplit => ?_⟩, ?_⟩
    · exact hlast mid c'' (rest ++ [a]) s₂ (by rw [hsplit]; simp)
    · rintro ⟨⟨c'', rfl⟩, hat⟩
      exact hlast after c'' [] s List.concat_eq_append hr hat

/-- What a run has done with the times, unless its sender stays idle. -/
structure Timed (pid : Nat) (as : List Act) (s : State) : Prop where
  cleared : AtHandler s .endTime → s.alive = false
  count : s.sender = .start → s.sendCount = 0
  reading : AtHandler s .timeInterval → Idle s ∨ (s.sender ≠ .start ∧ Read pid as s.endTime)
  computed : ∀ c, Handled pid as c →
    Idle s ∨ (s.sender ≠ .start ∧ Read pid as c ∧ s.timeInterval = timeOffset s.startTime c)

theorem timed_init (pid : Nat) : Timed pid [] init where
  cleared := fun ⟨_, h⟩ => nomatch h
  count := fun _ => rfl
  reading := fun ⟨_, h⟩ => nomatch h
  computed := fun c ⟨before, c', after, s₁, h, _⟩ => by simp at h

/-- **One step more of a run.** -/
theorem timed_step {pid : Nat} {as : List Act} {s s' : State} {a : Act} (hr : run (step pid) as init = some s)
    (h : Timed pid as s) (hs : step pid s a = some s') : Timed pid (as ++ [a]) s' := by
  rcases step_time hs with ⟨c, t, rfl, hh, rfl⟩ | ⟨c, t, rfl, hh, rfl⟩ | ⟨hu, hnot⟩
  · -- `end_time` is read: after the start, or the sender is idle
    refine ⟨fun ⟨t', ht'⟩ => (nomatch ht'), h.count, fun _ => ?_, fun c' hd => ?_⟩
    · by_cases hst : s.sender = .start
      · exact .inl ⟨h.cleared ⟨t, hh⟩, h.count hst, .inl hst⟩
      · exact .inr ⟨hst, as, [], s, rfl, hr, ⟨t, hh⟩, hst⟩
    · rcases hd.of_snoc hr with ⟨-, ⟨t', ht'⟩, -⟩ | ⟨hd, -⟩
      · cases hh.symm.trans ht'
      · rcases h.computed c' hd with hi | ⟨hn, hread, hval⟩
        · exact .inl ⟨hi.alive, hi.sendCount, hi.sender⟩
        · exact .inr ⟨hn, hread.snoc _, hval⟩
  · -- `time_interval` is computed
    refine ⟨fun ⟨t', ht'⟩ => (nomatch ht'), h.count, fun ⟨t', ht'⟩ => (nomatch ht'), fun c' hd => ?_⟩
    rcases hd.of_snoc hr with ⟨-, -, rfl⟩ | ⟨-, hnot⟩
    · rcases h.reading ⟨t, hh⟩ with hi | ⟨hn, hread⟩
      · exact .inl ⟨hi.alive, hi.sendCount, hi.sender⟩
      · exact .inr ⟨hn, hread.snoc _, rfl⟩
    · exact absurd ⟨⟨c, rfl⟩, ⟨t, hh⟩⟩ hnot
  · refine ⟨hu.cleared h.cleared, hu.count h.count, fun hc => ?_, fun c' hd => ?_⟩
    · rcases h.reading (hu.computing hc) with hi | ⟨hn, hread⟩
      · exact .inl (hu.idle hi)
      · exact .inr ⟨(hu.started hn).1, hu.endTime ▸ hread.snoc a⟩
    · rcases hd.of_snoc hr with ⟨⟨c, hc⟩, hat, -⟩ | ⟨hd, -⟩
      · exact absurd hat (hnot c hc)
      · rcases h.computed c' hd with hi | ⟨hn, hread, hval⟩
        · exact .inl (hu.idle hi)
        · obtain ⟨hn', hst⟩ := hu.started hn
          exact .inr ⟨hn', hread.snoc a, by rw [hu.timeInterval, hst, hval]⟩

/-- The milliseconds of an offset are the whole ones between the two times exactly if no second is borrowed. -/
theorem printed_iff (b e : Timeval) :
    (timeOffset b e).tvSec * 1000 + (timeOffset b e).tvUsec.tdiv 1000 = (e.micros - b.micros) / 1000 ↔
      b.tvUsec ≤ e.tvUsec := by
  constructor
  · intro heq
    by_contra hlt
    -- the borrow adds 999999 s, and the division of the microseconds is off by one at most
    unfold timeOffset at heq
    simp only [Timeval.micros] at heq
    rw [if_pos (by omega)] at heq
    have hdiv : (e.tvUsec - b.tvUsec).tdiv 1000 = -((b.tvUsec - e.tvUsec) / 1000) := by
      rw [← Int.neg_sub b.tvUsec, Int.neg_tdiv, Int.tdiv_eq_ediv_of_nonneg (by omega)]
    simp only at heq
    omega
  · exact rtt_of_le

/-- **The time printed is that of the run exactly if a handler of SIGINT has run to its end, and its `end_time` needs no
borrow.** -/
theorem ping_elapsed_iff (pid : Nat) (as : List Act) (s : State) (h : run (step pid) as init = some s)
    (hprint : pingStatsShow s ≠ none) :
    Elapsed pid as s ↔ ∃ c, Handled pid as c ∧ s.startTime.tvUsec ≤ c.tvUsec := by
  have ht := run_hist (Timed pid) (timed_init pid) (fun _ _ _ _ hr h hs => timed_step hr h hs) as s h
  have hcount : s.sendCount ≠ 0 := fun hzero => hprint (by
    unfold pingStatsShow
    simp only
    rw [if_pos hzero])
  -- a sender that stays idle has sent nothing
  have hcomputed : ∀ c, Handled pid as c → Read pid as c ∧ s.timeInterval = timeOffset s.startTime c := fun c hd =>
    ((ht.computed c hd).resolve_left (fun hi => hcount hi.sendCount)).2
  have htime : ∀ c, s.timeInterval = timeOffset s.startTime c →
      ((pingStatsShow s).map Stats.time = some ((c.micros - s.startTime.micros) / 1000) ↔
        s.startTime.tvUsec ≤ c.tvUsec) := fun c hval => by
    rw [← printed_iff]
    unfold pingStatsShow
    simp only
    rw [if_neg hcount, hval, Option.map_some, Option.some_inj]
  constructor
  · rintro ⟨c, hd, -, hshown⟩
    exact ⟨c, hd, (htime c (hcomputed c hd).2).1 hshown⟩
  · rintro ⟨c, hd, hle⟩
    obtain ⟨hread, hval⟩ := hcomputed c hd
    exact ⟨c, hd, hread, (htime c hval).2 hle⟩

/-- SIGINT while the sender sleeps after its first packet. -/
def interrupted : List Act :=
  [Act.main true, .main true] ++ List.replicate 8 (Act.send ⟨100, 0⟩ true) ++
    [Act.sigint .main, .handler ⟨101, 0⟩, .handler ⟨101, 0⟩, .handler ⟨101, 0⟩, .send ⟨102, 0⟩ true, .send ⟨102, 0⟩ true,
      .recv 0 ⟨102, 0⟩, .main true, .main true]

theorem ping_elapsed_interrupted :
    ∃ s, run (step 7) interrupted init = some s ∧ s.main = .stats ∧
      (Elapsed 7 interrupted s ↔ ∃ c, Handled 7 interrupted c ∧ s.startTime.tvUsec ≤ c.tvUsec) :=
  ⟨_, rfl, rfl, ping_elapsed_iff 7 interrupted _ rfl nofun⟩

/-- The start at 100 s, 64 packets until 164 s, a reply to each of them, and no SIGINT. -/
def unsignalled : List Act :=
  [Act.main true, .main true, .send ⟨100, 0⟩ true] ++ List.replicate 513 (Act.send ⟨164, 0⟩ true) ++
    (List.range 64).map
      (fun j => Act.reply j [0x45, 0, 0, 36, 0, 0, 0, 0, 64, 1, 0, 0, 10, 0, 0, 1, 10, 0, 0, 9] (0, 0)) ++
    List.replicate 321 (Act.recv 36 ⟨164, 0⟩) ++ [Act.main true, .main true]

/-- **A run that ends with its packets prints no time**, though 64 seconds went by. -/
theorem ping_unsignalled : ∃ s, run (step 7) unsignalled init = some s ∧ s.main = .stats ∧
    pingStatsShow s = some ⟨64, 64, 0, 0⟩ ∧ s.startTime = ⟨100, 0⟩ ∧ ¬ Elapsed 7 unsignalled s := by
  have hrun : (run (step 7) unsignalled init).map (fun s => (s.main, pingStatsShow s, s.startTime)) =
      some (.stats, some ⟨64, 64, 0, 0⟩, ⟨100, 0⟩) := by decide +kernel
  obtain ⟨s, hs, hv⟩ := Option.map_eq_some_iff.1 hrun
  obtain ⟨hm, hp, ht⟩ : s.main = .stats ∧ pingStatsShow s = some ⟨64, 64, 0, 0⟩ ∧ s.startTime = ⟨100, 0⟩ := by
    simpa using hv
  refine ⟨s, hs, hm, hp, ht, ?_⟩
  rintro ⟨-, ⟨before, c, after, s₁, heq, -⟩, -⟩
  -- no statement of the handler is in the run
  have hmem : Act.handler c ∈ unsignalled := by
    rw [heq]
    simp
  simp only [unsignalled, List.mem_append, List.mem_cons, List.mem_replicate, List.mem_map, List.not_mem_nil,
    reduceCtorEq, and_false, or_false, exists_false] at hmem

end Ping
end Cc
