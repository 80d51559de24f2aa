import CCplusplus.TracerouteStdRuns
/-!
# TracerouteStdHops — the hops that the original prints, and where it stops

What is printed is one hop after another, each with the outcomes of its probes, and the trace ends at the first hop that
meets the stop rule, or at the last ttl (`traceroute_std_hops`).  The rule asks for one unreachable less than there are
probes: with one probe a hop it asks for none, and no trace gets to a second hop (`traceroute_std_second_hop`).
-/
namespace Cc
namespace TracerouteStd

open CLib
open TracerouteUdp (verdictOf)

/-- How a probe ended. -/
def Line.outcome : Line → Bool
  | .answer .. => true
  | .star => true
  | _ => false

/-- A line within a hop. -/
def Line.within : Line → Bool
  | .hop _ => false
  | .newline => false
  | _ => true

def Line.got : Line → Nat
  | .answer _ _ _ i _ => (verdictOf i).1
  | _ => 0

def Line.unreachable : Line → Nat
  | .answer _ _ _ i _ => (verdictOf i).2.1
  | _ => 0

/-- The total of a counter over the lines. -/
def total (f : Line → Nat) : List Line → Nat
  | [] => 0
  | l :: ls => f l + total f ls

theorem total_append (f : Line → Nat) (ms : List Line) : ∀ ls : List Line, total f (ls ++ ms) = total f ls + total f ms
  | [] => (Nat.zero_add _).symm
  | l :: ls => by
    rw [List.cons_append, total, total, total_append f ms ls, Nat.add_assoc]

/-- The lines of hops, the first of them with ttl `t`. -/
def hopLines : Nat → List (List Line) → List Line
  | _, [] => []
  | t, b :: bs => .hop t :: (b ++ .newline :: hopLines (t + 1) bs)

theorem hopLines_snoc (b : List Line) : ∀ (t : Nat) (bs : List (List Line)),
    hopLines t (bs ++ [b]) = hopLines t bs ++ .hop (t + bs.length) :: b ++ [.newline]
  | t, [] => rfl
  | t, c :: bs => by
    rw [List.cons_append, hopLines, hopLines, hopLines_snoc b (t + 1) bs]
    simp [Nat.add_assoc, Nat.add_comm 1]

/-- What is printed of the first `n` probes of a hop. -/
structure Outcomes (b : List Line) (n : Nat) : Prop where
  count : (b.filter Line.outcome).length = n
  within : ∀ l ∈ b, l.within = true

/-- A destination answered, or all probes but one were answered by unreachables. -/
def stopsAt (cfg : Config) (b : List Line) : Prop :=
  0 < total Line.got b ∨ (cfg.nprobes : Int) - 1 ≤ total Line.unreachable b

theorem Outcomes.more {b : List Line} {n : Nat} (h : Outcomes b n) {ls : List Line} {k : Nat} (hls : Outcomes ls k) :
    Outcomes (b ++ ls) (n + k) where
  count := by rw [List.filter_append, List.length_append, h.count, hls.count]
  within := fun l hl => (List.mem_append.1 hl).elim (h.within l) (hls.within l)

/-- The hops done, none of which meets the stop rule, and the lines of the one under way. -/
structure Under (cfg : Config) (s : State) (done : List (List Line)) (b : List Line) : Prop where
  before : ∀ d ∈ done, Outcomes d cfg.nprobes ∧ ¬ stopsAt cfg d
  ttl : s.ttl = done.length + 1
  le : s.ttl ≤ cfg.maxTtl
  body : Outcomes b s.probe
  got : s.gotThere = total Line.got b
  unreachable : s.unreachable = total Line.unreachable b

/-- All hops. -/
structure Over (cfg : Config) (s : State) (done : List (List Line)) (last : List Line) : Prop where
  before : ∀ d ∈ done, Outcomes d cfg.nprobes ∧ ¬ stopsAt cfg d
  body : Outcomes last cfg.nprobes
  printed : s.printed = hopLines 1 (done ++ [last])
  le : done.length + 1 ≤ cfg.maxTtl
  stops : stopsAt cfg last ∨ done.length + 1 = cfg.maxTtl

def Traced (cfg : Config) (s : State) : Prop :=
  match s.pc with
  | .outer => ∃ done, (∀ d ∈ done, Outcomes d cfg.nprobes ∧ ¬ stopsAt cfg d) ∧ s.printed = hopLines 1 done ∧
      s.ttl = done.length + 1 ∧ done.length ≤ cfg.maxTtl
  | .inner => ∃ done b, Under cfg s done b ∧ s.printed = hopLines 1 done ++ .hop s.ttl :: b ∧ s.probe ≤ cfg.nprobes
  | .exitTest => ∃ done b, Under cfg s done b ∧ s.printed = hopLines 1 (done ++ [b]) ∧ s.probe = cfg.nprobes
  | .ended => ∃ done last, Over cfg s done last
  | _ => ∃ done b, Under cfg s done b ∧ s.printed = hopLines 1 done ++ .hop s.ttl :: b ∧ s.probe < cfg.nprobes

theorem traced_init (cfg : Config) (dst src tos : Nat) : Traced cfg (init dst src tos) :=
  ⟨[], fun d hd => (by cases hd), rfl, rfl, Nat.zero_le _⟩

/-- A hop under way, between the probe and its outcome. -/
theorem traced_waits {cfg : Config} {s : State} (hwait : s.pc.waits = true) (h : Traced cfg s) :
    ∃ done b, Under cfg s done b ∧ s.printed = hopLines 1 done ++ .hop s.ttl :: b ∧ s.probe < cfg.nprobes := by
  cases hpc : s.pc with
  | select | recvfrom | judge cc =>
    rw [Traced, hpc] at h
    exact h
  | outer | inner | send | exitTest | ended =>
    rw [hpc] at hwait
    cases hwait

theorem traced_of_waits {cfg : Config} {s : State} (hwait : s.pc.waits = true)
    (h : ∃ done b, Under cfg s done b ∧ s.printed = hopLines 1 done ++ .hop s.ttl :: b ∧ s.probe < cfg.nprobes) :
    Traced cfg s := by
  cases hpc : s.pc with
  | select | recvfrom | judge cc =>
    rw [Traced, hpc]
    exact h
  | outer | inner | send | exitTest | ended =>
    rw [hpc] at hwait
    cases hwait

namespace Under

variable {cfg : Config} {s s' : State} {done : List (List Line)} {b ls : List Line}

/-- Lines that are the outcome of `k` probes. -/
theorem more (h : Under cfg s done b) {k : Nat} (hls : Outcomes ls k) (httl : s'.ttl = s.ttl)
    (hprobe : s'.probe = s.probe + k) (hgot : s'.gotThere = s.gotThere + total Line.got ls)
    (hunr : s'.unreachable = s.unreachable + total Line.unreachable ls) : Under cfg s' done (b ++ ls) where
  before := h.before
  ttl := httl.trans h.ttl
  le := httl ▸ h.le
  body := hprobe ▸ h.body.more hls
  got := by rw [hgot, h.got, total_append]
  unreachable := by rw [hunr, h.unreachable, total_append]

/-- Lines between a probe and its outcome. -/
theorem lines (h : Under cfg s done b) (hls : Outcomes ls 0) (hgot : total Line.got ls = 0)
    (hunr : total Line.unreachable ls = 0) (httl : s'.ttl = s.ttl) (hprobe : s'.probe = s.probe)
    (hgot' : s'.gotThere = s.gotThere) (hunr' : s'.unreachable = s.unreachable) : Under cfg s' done (b ++ ls) :=
  h.more hls httl hprobe (by rw [hgot', hgot]; rfl) (by rw [hunr', hunr]; rfl)

end Under

theorem outcomes_nil : Outcomes [] 0 := ⟨rfl, fun l hl => by cases hl⟩

theorem outcomes_star : Outcomes [.star] 1 := ⟨rfl, fun l hl => by cases List.mem_singleton.1 hl; rfl⟩

theorem outcomes_answer (router : Option Nat) (t1 t2 : Timeval) (i : Int) (mark : String) :
    Outcomes [.answer router t1 t2 i mark] 1 := ⟨rfl, fun l hl => by cases List.mem_singleton.1 hl; rfl⟩

theorem complaint_lines (cfg : Config) (buf : Nat → UInt8) (cc : Int) :
    Outcomes (complaint cfg buf cc) 0 ∧ total Line.got (complaint cfg buf cc) = 0 ∧
      total Line.unreachable (complaint cfg buf cc) = 0 := by
  unfold complaint
  split
  · split
    · exact ⟨⟨rfl, fun l hl => by cases List.mem_singleton.1 hl; rfl⟩, rfl, rfl⟩
    · exact ⟨⟨rfl, fun l hl => by cases List.mem_singleton.1 hl; rfl⟩, rfl, rfl⟩
  · exact ⟨outcomes_nil, rfl, rfl⟩

/-- The outcome of a probe that `main` waits for. -/
theorem traced_outcome {cfg : Config} {s s' : State} (h : Traced cfg s) (hwait : s.pc.waits = true) (hpc' : s'.pc = .inner)
    {l : Line} (hl : Outcomes [l] 1) (hprinted : s'.printed = s.printed ++ [l]) (httl : s'.ttl = s.ttl)
    (hprobe : s'.probe = s.probe + 1) (hgot : s'.gotThere = s.gotThere + l.got)
    (hunr : s'.unreachable = s.unreachable + l.unreachable) : Traced cfg s' := by
  obtain ⟨done, b, hunder, hb, hlt⟩ := traced_waits hwait h
  rw [Traced, hpc']
  refine ⟨done, b ++ [l], hunder.more hl httl hprobe hgot hunr, ?_, by omega⟩
  rw [hprinted, hb, httl, List.append_assoc, List.cons_append]

/-- `main` goes on waiting. -/
theorem traced_waiting {cfg : Config} {s s' : State} (h : Traced cfg s) (hwait : s.pc.waits = true)
    (hwait' : s'.pc.waits = true) {ls : List Line} (hls : Outcomes ls 0) (hzero : total Line.got ls = 0)
    (hzero' : total Line.unreachable ls = 0) (hprinted : s'.printed = s.printed ++ ls) (httl : s'.ttl = s.ttl)
    (hprobe : s'.probe = s.probe) (hgot : s'.gotThere = s.gotThere) (hunr : s'.unreachable = s.unreachable) :
    Traced cfg s' := by
  obtain ⟨done, b, hunder, hb, hlt⟩ := traced_waits hwait h
  refine traced_of_waits hwait' ⟨done, b ++ ls, hunder.lines hls hzero hzero' httl hprobe hgot hunr, ?_, by omega⟩
  rw [hprinted, hb, httl, List.append_assoc, List.cons_append]

theorem traced_main {cfg : Config} {s s' : State} {clock : Timeval} {ret : Int} (h : Traced cfg s)
    (hs : mainStep cfg s clock ret = some s') : Traced cfg s' := by
  unfold mainStep at hs
  cases hpc : s.pc with
  | outer =>
    rw [hpc] at hs
    rw [Traced, hpc] at h
    simp only at hs h
    obtain ⟨done, hdone, hprinted, httl, hle⟩ := h
    split at hs
    · rename_i hgo
      cases hs
      refine ⟨done, [], ⟨hdone, httl, hgo, outcomes_nil, rfl, rfl⟩, ?_, Nat.zero_le _⟩
      rw [hprinted]
    · rename_i hend
      cases hs
      -- `max_ttl` is not 0, so there is a last hop
      have hmax := cfg.one_lt_maxTtl
      obtain rfl | ⟨before, last, rfl⟩ := List.eq_nil_or_concat done
      · simp only [List.length_nil] at httl
        omega
      · rw [List.concat_eq_append] at hdone hprinted httl hle
        rw [List.length_append, List.length_singleton] at httl hle
        exact ⟨before, last, fun d hd => hdone d (List.mem_append_left _ hd),
          (hdone last (List.mem_append_right _ (List.mem_singleton.2 rfl))).1, hprinted, hle, .inr (by omega)⟩
  | inner =>
    rw [hpc] at hs
    rw [Traced, hpc] at h
    simp only at hs h
    obtain ⟨done, b, hunder, hprinted, hle⟩ := h
    split at hs
    · rename_i hlt
      cases hs
      exact ⟨done, b, ⟨hunder.before, hunder.ttl, hunder.le, hunder.body, hunder.got, hunder.unreachable⟩, hprinted, hlt⟩
    · cases hs
      refine ⟨done, b, ⟨hunder.before, hunder.ttl, hunder.le, hunder.body, hunder.got, hunder.unreachable⟩, ?_, by
        simp only; omega⟩
      rw [hopLines_snoc, hprinted, hunder.ttl, Nat.add_comm 1]
  | send =>
    rw [hpc] at hs
    rw [Traced, hpc] at h
    cases hs
    obtain ⟨done, b, hunder, hprinted, hlt⟩ := h
    by_cases hshort : ret < 0 ∨ ret ≠ cfg.datalen
    · refine ⟨done, b ++ [.wrote ret], hunder.lines ⟨rfl, fun l hl => by cases List.mem_singleton.1 hl; rfl⟩ rfl rfl rfl
        rfl rfl rfl, ?_, hlt⟩
      simp only [if_pos hshort, hprinted, List.append_assoc, List.cons_append]
    · refine ⟨done, b, ⟨hunder.before, hunder.ttl, hunder.le, hunder.body, hunder.got, hunder.unreachable⟩, ?_, hlt⟩
      simp only [if_neg hshort, hprinted]
  | select =>
    rw [hpc] at hs
    simp only at hs
    have hwait : s.pc.waits = true := by rw [hpc]; rfl
    have hstar : Traced cfg (star s) := traced_outcome h hwait rfl outcomes_star rfl rfl rfl rfl rfl
    split at hs
    · cases hs
      exact hstar
    · split at hs
      · split at hs
        · cases hs
          exact hstar
        · cases hs
      · split at hs
        · cases hs
          exact traced_waiting h hwait rfl outcomes_nil rfl rfl (List.append_nil _).symm rfl rfl rfl rfl
        · cases hs
  | recvfrom =>
    rw [hpc] at hs
    simp only at hs
    have hwait : s.pc.waits = true := by rw [hpc]; rfl
    split at hs
    · cases hs
      exact traced_waiting h hwait rfl outcomes_nil rfl rfl (List.append_nil _).symm rfl rfl rfl rfl
    · split at hs
      · cases hs
      · cases hs
        split
        · exact traced_outcome h hwait rfl outcomes_star rfl rfl rfl rfl rfl
        · exact traced_waiting h hwait rfl outcomes_nil rfl rfl (List.append_nil _).symm rfl rfl rfl rfl
  | judge cc =>
    rw [hpc] at hs
    cases hs
    have hwait : s.pc.waits = true := by rw [hpc]; rfl
    unfold judge
    simp only
    split
    · exact traced_outcome h hwait rfl (outcomes_answer _ s.t1 clock _ (markOf _ (s.packet 8))) rfl rfl rfl rfl rfl
    · obtain ⟨hls, hzero, hzero'⟩ := complaint_lines cfg s.packet cc
      exact traced_waiting h hwait rfl hls hzero hzero' rfl rfl rfl rfl rfl
  | exitTest =>
    rw [hpc] at hs
    rw [Traced, hpc] at h
    simp only at hs h
    obtain ⟨done, b, hunder, hprinted, hall⟩ := h
    have hle := hunder.le
    have httl := hunder.ttl
    have hbody := hunder.body
    rw [hall] at hbody
    have hrule : stopsAt cfg b ↔ 0 < s.gotThere ∨ (cfg.nprobes : Int) - 1 ≤ s.unreachable := by
      rw [stopsAt, hunder.got, hunder.unreachable]
    split at hs
    · rename_i hstop
      cases hs
      exact ⟨done, b, hunder.before, hbody, hprinted, by omega, .inl (hrule.2 hstop)⟩
    · rename_i hgo
      cases hs
      refine ⟨done ++ [b], fun d hd => ?_, hprinted, ?_, ?_⟩
      · rcases List.mem_append.1 hd with hd | hd
        · exact hunder.before d hd
        · rw [List.mem_singleton.1 hd]
          exact ⟨hbody, fun hs => hgo (hrule.1 hs)⟩
      · rw [List.length_append, List.length_singleton, httl]
      · rw [List.length_append, List.length_singleton]
        omega
  | ended =>
    rw [hpc] at hs
    cases hs

theorem traced_arrive {cfg : Config} {s : State} (h : Traced cfg s) (d : TracerouteUdp.Datagram) :
    Traced cfg { s with arrived := s.arrived ++ [d] } := by
  cases hpc : s.pc with
  | outer =>
    simp only [Traced, hpc] at h ⊢
    exact h
  | ended =>
    simp only [Traced, hpc] at h ⊢
    obtain ⟨done, last, ho⟩ := h
    exact ⟨done, last, ho.before, ho.body, ho.printed, ho.le, ho.stops⟩
  | inner | send | select | recvfrom | judge | exitTest =>
    simp only [Traced, hpc] at h ⊢
    obtain ⟨done, b, hu, hrest⟩ := h
    exact ⟨done, b, ⟨hu.before, hu.ttl, hu.le, hu.body, hu.got, hu.unreachable⟩, hrest⟩

theorem traced_step {cfg : Config} {s s' : State} {a : Act} (h : Traced cfg s) (hs : step cfg s a = some s') :
    Traced cfg s' := by
  cases a with
  | main clock ret => exact traced_main h hs
  | answer k src bytes =>
    unfold step at hs
    simp only at hs
    split at hs
    · cases hs
      exact traced_arrive h _
    · cases hs
  | other src bytes =>
    cases hs
    exact traced_arrive h _

/-- **A trace that has ended has printed its hops one after another, each with the outcomes of all its probes; it ended at
the first of them that meets the stop rule, or at `max_ttl`**, whatever arrived and whatever the calls returned. -/
theorem traceroute_std_hops (cfg : Config) (dst src tos : Nat) (as : List Act) (s : State)
    (h : run (step cfg) as (init dst src tos) = some s) (hend : s.pc = .ended) :
    ∃ (done : List (List Line)) (last : List Line), s.printed = hopLines 1 (done ++ [last]) ∧
      (∀ d ∈ done, Outcomes d cfg.nprobes ∧ ¬ stopsAt cfg d) ∧ Outcomes last cfg.nprobes ∧
      done.length + 1 ≤ cfg.maxTtl ∧ (stopsAt cfg last ∨ done.length + 1 = cfg.maxTtl) := by
  have htraced : Traced cfg s :=
    run_inv (Traced cfg) (fun _ _ _ hi hs => traced_step hi hs) as _ s (traced_init cfg dst src tos) h
  rw [Traced, hend] at htraced
  obtain ⟨done, last, hover⟩ := htraced
  exact ⟨done, last, hover.printed, hover.before, hover.body, hover.le, hover.stops⟩

/-- The destination's message for a probe of process 7. -/
def portUnreachable (port : UInt8) : List UInt8 :=
  [0x45, 0, 0, 56, 0, 0, 0, 0, 64, 1, 0, 0, 10, 0, 0, 99] ++ [10, 0, 0, 9, 3, 3, 0, 0, 0, 0, 0, 0] ++
    [0x45, 0, 0, 40, 0, 0, 0, 0, 1, 17, 0, 0, 10, 0, 0, 9, 10, 0, 0, 99, 0x80, 0x07, 0x82, port, 0, 20, 0, 0]

/-- Both probes of the first hop have the destination's answer. -/
def oneHop : List Act :=
  [statement 0, statement 0, statement 40, .answer 0 99 (portUnreachable 0x9B), statement 1, statement 56, statement 0] ++
    [statement 0, statement 40, .answer 1 99 (portUnreachable 0x9C), statement 1, statement 56, statement 0] ++
    [statement 0, statement 0]

theorem traceroute_std_hops_one :
    ∃ s, run (step twoProbes) oneHop (init 99 0 0) = some s ∧ s.pc = .ended ∧
      ∃ (done : List (List Line)) (last : List Line), s.printed = hopLines 1 (done ++ [last]) ∧
        (∀ d ∈ done, Outcomes d twoProbes.nprobes ∧ ¬ stopsAt twoProbes d) ∧ Outcomes last twoProbes.nprobes ∧
        done.length + 1 ≤ twoProbes.maxTtl ∧ (stopsAt twoProbes last ∨ done.length + 1 = twoProbes.maxTtl) :=
  ⟨_, rfl, rfl, traceroute_std_hops twoProbes 99 0 0 oneHop _ rfl rfl⟩

/-! ## The second hop -/

/-- Only the test at the end of a hop raises the ttl, where the stop rule is not met. -/
theorem step_ttl {cfg : Config} {s s' : State} {a : Act} (hs : step cfg s a = some s') :
    s'.ttl = s.ttl ∨ ¬ (0 < s.gotThere ∨ (cfg.nprobes : Int) - 1 ≤ s.unreachable) := by
  cases a with
  | main clock ret =>
    unfold step mainStep at hs
    simp only at hs
    split at hs
    · split at hs <;> (cases hs; exact .inl rfl)
    · split at hs <;> (cases hs; exact .inl rfl)
    · cases hs
      exact .inl rfl
    · split at hs
      · cases hs
        exact .inl rfl
      · split at hs
        · split at hs
          · cases hs
            exact .inl rfl
          · cases hs
        · split at hs
          · cases hs
            exact .inl rfl
          · cases hs
    · split at hs
      · cases hs
        exact .inl rfl
      · split at hs
        · cases hs
        · cases hs
          split <;> exact .inl rfl
    · cases hs
      unfold judge
      simp only
      split <;> exact .inl rfl
    · split at hs
      · cases hs
        exact .inl rfl
      · rename_i hgo
        exact .inr hgo
    · cases hs
  | answer k src bytes =>
    unfold step at hs
    simp only at hs
    split at hs
    · cases hs
      exact .inl rfl
    · cases hs
  | other src bytes =>
    cases hs
    exact .inl rfl

/-- Nothing has arrived. -/
structure Silent (s : State) : Prop where
  taken : s.taken = s.arrived.length
  gotThere : s.gotThere = 0
  unreachable : s.unreachable = 0

/-- The rest of a hop's probes time out. -/
theorem reach_timeouts (cfg : Config) : ∀ (n : Nat) (s : State), s.pc = .inner → s.probe + n = cfg.nprobes → Silent s →
    ∃ t, Reach (step cfg) s t ∧ t.pc = .inner ∧ t.probe = cfg.nprobes ∧ t.ttl = s.ttl ∧ Silent t
  | 0, s, hpc, hprobe, hsilent => ⟨s, .refl s, hpc, hprobe, rfl, hsilent⟩
  | n + 1, s, hpc, hprobe, hsilent => by
    let s₁ : State := { s with t1 := ⟨0, 0⟩, pc := .send }
    let op := sendProbe cfg s₁.outpacket (s₁.seq + 1) s₁.ttl ⟨0, 0⟩
    let s₂ : State := { s₁ with
      seq := s₁.seq + 1, outpacket := op, printed := s₁.printed ++ [.wrote (-1)], pc := .select }
    have hinner : step cfg s (.main ⟨0, 0⟩ 0) = some s₁ := by
      unfold step mainStep
      simp only [hpc]
      rw [if_pos (by omega)]
    have hsend : step cfg s₁ (.main ⟨0, 0⟩ (-1)) = some s₂ := rfl
    have hselect : step cfg s₂ (.main ⟨0, 0⟩ 0) = some (star s₂) := by
      unfold step mainStep
      exact if_pos hsilent.taken
    obtain ⟨t, hreach, hrest⟩ := reach_timeouts cfg n (star s₂) rfl (by simp only [star, s₂, s₁]; omega)
      ⟨hsilent.taken, hsilent.gotThere, hsilent.unreachable⟩
    exact ⟨t, (Reach.of_step hinner).trans ((Reach.of_step hsend).trans ((Reach.of_step hselect).trans hreach)), hrest⟩

/-- **Some trace gets to a second hop exactly if there are two probes a hop at least**: with one probe every trace ends
after its first hop, whatever the answer. -/
theorem traceroute_std_second_hop (cfg : Config) (dst src tos : Nat) :
    (∃ s, Reach (step cfg) (init dst src tos) s ∧ s.ttl = 2) ↔ 2 ≤ cfg.nprobes := by
  constructor
  · rintro ⟨s, ⟨as, h⟩, httl⟩
    by_contra hfew
    have hpos := cfg.nprobes_pos
    have hone : s.ttl = 1 := run_inv (fun s => s.ttl = 1) (fun s a s' hi hs => by
      rcases step_ttl hs with hkeep | hgo
      · exact hkeep.trans hi
      · exact absurd (.inr (by omega)) hgo) as _ s rfl h
    omega
  · intro htwo
    have hmax := cfg.one_lt_maxTtl
    let s₁ : State := { init dst src tos with printed := [.hop 1], pc := .inner }
    have houter : step cfg (init dst src tos) (.main ⟨0, 0⟩ 0) = some s₁ := by
      unfold step mainStep
      exact if_pos (Nat.le_of_lt hmax)
    obtain ⟨t, hreach, hpc, hprobe, httl, hsilent⟩ :=
      reach_timeouts cfg cfg.nprobes s₁ rfl (Nat.zero_add _) ⟨rfl, rfl, rfl⟩
    let t₁ : State := { t with printed := t.printed ++ [.newline], pc := .exitTest }
    have hinner : step cfg t (.main ⟨0, 0⟩ 0) = some t₁ := by
      unfold step mainStep
      simp only [hpc]
      rw [if_neg (by omega)]
    have hgo : step cfg t₁ (.main ⟨0, 0⟩ 0) = some { t₁ with ttl := t₁.ttl + 1, pc := .outer } := by
      unfold step mainStep
      refine if_neg ?_
      show ¬ (0 < t.gotThere ∨ (cfg.nprobes : Int) - 1 ≤ t.unreachable)
      rw [hsilent.gotThere, hsilent.unreachable]
      omega
    refine ⟨_, (Reach.of_step houter).trans (hreach.trans ((Reach.of_step hinner).trans (Reach.of_step hgo))), ?_⟩
    show t.ttl + 1 = 2
    rw [httl]
    rfl

end TracerouteStd
end Cc
