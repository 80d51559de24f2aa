import CCplusplus.TracerouteStd
/-!
# TracerouteStdRuns — whose answers the original takes

A probe carries its number in the destination port, which its answers quote, and `packet_ok` compares it, so that a
reply that was delayed in transit is not taken for one to a later probe.  The port is of 16 bits: what is taken is an
answer to a probe of the same number modulo 65536 (`traceroute_std_reply`), which is the probe just sent in every trace of
at most 65536 probes (`traceroute_std_own_reply`).
-/
namespace Cc
namespace TracerouteStd

open CLib
open TracerouteUdp (Opacket Datagram htons verdictOf ICMP_TIMXCEED IPPROTO_UDP IPVERSION)

theorem htons_htons (x : UInt16) : htons (htons x) = x := by
  apply UInt16.eq_of_toBitVec_eq
  simp only [htons, UInt16.toBitVec_or, UInt16.toBitVec_shiftLeft, UInt16.toBitVec_shiftRight]
  apply BitVec.eq_of_getLsbD_eq
  intro i hi
  have h8 : (UInt16.toBitVec 8 % 16 : BitVec 16) = 8 := by decide
  rw [h8]
  have hout : x.toBitVec.getLsbD (8 + (8 + i)) = false := BitVec.getLsbD_of_ge _ _ (by omega)
  by_cases h : i < 8
  · have h16 : 8 + i < 16 := by omega
    have hhigh : ¬ 8 + i < 8 := by omega
    simp [h, hout, h16, hhigh, BitVec.getLsbD_eq_getElem hi]
  · have hback : 8 + (i - 8) = i := by omega
    have hlow : i - 8 < 8 := by omega
    have hshort : i - 8 < 16 := by omega
    have hhigh : ¬ 8 + i < 16 := by omega
    simp [h, hi, hout, hback, hlow, hhigh]

/-! ## What `packet_ok` takes -/

/-- A message of one of the two types. -/
def isError (b : Nat → UInt8) : Prop :=
  b (iphdrLen b) = ICMP_TIMXCEED ∧ b (iphdrLen b + 1) = ICMP_TIMXCEED_INTRANS ∨ b (iphdrLen b) = ICMP_UNREACH

instance (b : Nat → UInt8) : Decidable (isError b) := inferInstanceAs (Decidable (_ ∨ _))

/-- What the message quotes begins with an IP header, of 20 bytes at least. -/
def Headed (b : Nat → UInt8) (cc : Int) : Prop :=
  iphdrLen b + 8 < cc → isError b → 5 ≤ (b (iphdrLen b + 8) &&& 0x0F).toNat

instance (b : Nat → UInt8) (cc : Int) : Decidable (Headed b cc) := inferInstanceAs (Decidable (_ → _))

/-- The bytes received decide what is quoted. -/
theorem quoted_congr {b b' : Nat → UInt8} {cc : Int} (h : ∀ i : Nat, (i : Int) < cc → b i = b' i) (hhead : Headed b' cc) :
    quoted b cc = quoted b' cc := by
  by_cases hshort : cc < 1
  · have hnone : ∀ c : Nat → UInt8, quoted c cc = none := fun c => if_pos (by unfold ICMP_MINLEN; omega)
    rw [hnone, hnone]
  have hhlen : iphdrLen b = iphdrLen b' := by
    unfold iphdrLen
    rw [h 0 (by omega)]
  unfold Headed isError at hhead
  unfold quoted
  simp only [hhlen]
  generalize iphdrLen b' = hlen at hhead ⊢
  by_cases hmin : cc < hlen + ICMP_MINLEN
  · rw [if_pos hmin, if_pos hmin]
  rw [if_neg hmin, if_neg hmin]
  unfold ICMP_MINLEN at hmin
  rw [h hlen (by omega), h (hlen + 1) (by omega)]
  split
  · rename_i htype
    by_cases hhip : cc = hlen + 8
    · -- nothing is quoted
      rw [if_neg (by omega), if_neg (by omega)]
    · have hhl := hhead (by omega) htype
      rw [h (hlen + 8) (by omega)]
      generalize (b' (hlen + 8) &&& 0x0F).toNat = hl at hhl ⊢
      by_cases hlong : ((hl * 4 : Nat) : Int) + 12 ≤ cc - hlen
      · unfold u16At
        rw [h (hlen + 8 + 9) (by omega), h (hlen + 8 + hl * 4) (by omega), h (hlen + 8 + hl * 4 + 1) (by omega),
          h (hlen + 8 + hl * 4 + 2) (by omega), h (hlen + 8 + hl * 4 + 2 + 1) (by omega)]
      · rw [if_neg (fun hc => hlong hc.1), if_neg (fun hc => hlong hc.1)]
  · rfl

/-- What is taken quotes the ports of this process and of the number. -/
theorem quoted_of_ok {cfg : Config} {buf : Nat → UInt8} {cc : Int} {seq : Nat} (h : packetOk cfg buf cc seq ≠ 0) :
    ∃ type code, quoted buf cc = some (type, code, (htons cfg.ident).toNat, (htons (cfg.port + UInt16.ofNat seq)).toNat) ∧
      packetOk cfg buf cc seq = if type = ICMP_TIMXCEED then -1 else (code.toNat : Int) + 1 := by
  unfold packetOk at h ⊢
  unfold quoted
  simp only at h ⊢
  split at h
  · exact absurd rfl h
  rename_i hmin
  rw [if_neg hmin, if_neg hmin]
  split at h
  · rename_i htype
    rw [if_pos htype, if_pos htype]
    split at h
    · rename_i hports
      rw [if_pos hports, if_pos ⟨hports.1, hports.2.1⟩, hports.2.2.1, hports.2.2.2]
      exact ⟨_, _, rfl, rfl⟩
    · exact absurd rfl h
  · exact absurd rfl h

/-- Two numbers with the same port. -/
theorem mod_eq_of_port {port : UInt16} {n m : Nat}
    (h : (htons (port + UInt16.ofNat n)).toNat = (htons (port + UInt16.ofNat m)).toNat) : n % 65536 = m % 65536 := by
  have hport : port + UInt16.ofNat n = port + UInt16.ofNat m := by
    rw [← htons_htons (port + UInt16.ofNat n), UInt16.toNat_inj.1 h, htons_htons]
  have hnum : UInt16.ofNat n = UInt16.ofNat m := by
    have hsub := congrArg (fun x => x - port) hport
    simpa [UInt16.add_comm port] using hsub
  have htoNat := congrArg UInt16.toNat hnum
  rwa [UInt16.toNat_ofNat', UInt16.toNat_ofNat'] at htoNat

/-! ## Datagrams -/

/-- A datagram in a buffer, as `recvfrom` puts it there. -/
def received (bytes : List UInt8) : Nat → UInt8 := setBytes (fun _ => 0) 0 (bytes.take 512)

def quotedBy (bytes : List UInt8) : Option (UInt8 × UInt8 × Nat × Nat) := quoted (received bytes) (bytes.take 512).length

/-- The answers to a probe quote its ports, and no message of others quotes the source port of this process. -/
def Honest (cfg : Config) (sent : List (Nat × Opacket)) (d : Datagram) : Prop :=
  Headed (received d.bytes) (d.bytes.take 512).length ∧
  match d.answers with
  | some k => ∃ n op, sent[k]? = some (n, op) ∧ ∀ type code sport dport, quotedBy d.bytes = some (type, code, sport, dport) →
      sport = op.uhSport.toNat ∧ dport = op.uhDport.toNat
  | none => ∀ type code sport dport, quotedBy d.bytes = some (type, code, sport, dport) → sport ≠ (htons cfg.ident).toNat

/-- What an ICMP message quotes begins with an IP header; an answer quotes the ports of the probe that elicited it, and no
other ICMP traffic quotes the source port of this process. -/
def honest (cfg : Config) (s : State) : Act → Bool
  | .main _ _ => true
  | .answer k _ bytes =>
    decide (Headed (received bytes) (bytes.take 512).length) &&
    match s.sent[k]?, quotedBy bytes with
    | some (_, op), some (_, _, sport, dport) => decide (sport = op.uhSport.toNat ∧ dport = op.uhDport.toNat)
    | some _, none => true
    | none, _ => false
  | .other _ bytes =>
    decide (Headed (received bytes) (bytes.take 512).length) &&
    match quotedBy bytes with
    | some (_, _, sport, _) => decide (sport ≠ (htons cfg.ident).toNat)
    | none => true

theorem honest_answer {cfg : Config} {s : State} {k src : Nat} {bytes : List UInt8}
    (h : honest cfg s (.answer k src bytes) = true) : Honest cfg s.sent ⟨some k, src, bytes⟩ := by
  obtain ⟨hhead, hquote⟩ := Bool.and_eq_true_iff.1 h
  refine ⟨of_decide_eq_true hhead, ?_⟩
  split at hquote
  · rename_i n op t c sport dport hk hq
    refine ⟨n, op, hk, fun type code sport' dport' hq' => ?_⟩
    rw [hq] at hq'
    cases hq'
    exact of_decide_eq_true hquote
  · rename_i p hk hq
    exact ⟨p.1, p.2, hk, fun _ _ _ _ hq' => by rw [hq] at hq'; cases hq'⟩
  · cases hquote

theorem honest_other {cfg : Config} {s : State} {src : Nat} {bytes : List UInt8}
    (h : honest cfg s (.other src bytes) = true) : Honest cfg s.sent ⟨none, src, bytes⟩ := by
  obtain ⟨hhead, hquote⟩ := Bool.and_eq_true_iff.1 h
  refine ⟨of_decide_eq_true hhead, fun type code sport dport hq => ?_⟩
  dsimp only at hq
  rw [hq] at hquote
  exact of_decide_eq_true hquote

theorem Honest.append {cfg : Config} {sent : List (Nat × Opacket)} {d : Datagram} (h : Honest cfg sent d)
    (l : List (Nat × Opacket)) : Honest cfg (sent ++ l) d := by
  obtain ⟨hhead, hd⟩ := h
  refine ⟨hhead, ?_⟩
  split at hd
  · rename_i k hk
    obtain ⟨n, op, hget, hquote⟩ := hd
    exact ⟨n, op, by rw [List.getElem?_append_left (List.getElem?_eq_some_iff.1 hget).1]; exact hget, hquote⟩
  · exact hd

/-! ## Runs -/

def Pc.waits : Pc → Bool
  | .select => true
  | .recvfrom => true
  | .judge _ => true
  | _ => false

/-- The number of the probe, from where `main` is in its loops. -/
def counted (cfg : Config) (s : State) : Prop :=
  match s.pc with
  | .outer => s.seq = (s.ttl - 1) * cfg.nprobes ∧ 1 ≤ s.ttl
  | .inner => s.seq = (s.ttl - 1) * cfg.nprobes + s.probe ∧ s.probe ≤ cfg.nprobes ∧ 1 ≤ s.ttl ∧ s.ttl ≤ cfg.maxTtl
  | .send => s.seq = (s.ttl - 1) * cfg.nprobes + s.probe ∧ s.probe < cfg.nprobes ∧ 1 ≤ s.ttl ∧ s.ttl ≤ cfg.maxTtl
  | .exitTest => s.seq = (s.ttl - 1) * cfg.nprobes + cfg.nprobes ∧ 1 ≤ s.ttl ∧ s.ttl ≤ cfg.maxTtl
  | .ended => True
  | _ => s.seq = (s.ttl - 1) * cfg.nprobes + s.probe + 1 ∧ s.probe < cfg.nprobes ∧ 1 ≤ s.ttl ∧ s.ttl ≤ cfg.maxTtl

structure Numbered (cfg : Config) (s : State) : Prop where
  sent : ∀ (k n : Nat) (op : Opacket), s.sent[k]? = some (n, op) →
    1 ≤ n ∧ n ≤ s.seq ∧ op.uhSport = htons cfg.ident ∧ op.uhDport = htons (cfg.port + UInt16.ofNat n)
  last : s.pc.waits = true → ∀ (k : Nat) (op : Opacket), s.sent[k]? = some (s.seq, op) → op.ipTtl = UInt8.ofNat s.ttl
  arrived : ∀ d ∈ s.arrived, Honest cfg s.sent d
  judged : ∀ cc, s.pc = .judge cc → 0 ≤ cc → ∃ d, s.arrived[s.taken - 1]? = some d ∧
    cc = (d.bytes.take 512).length ∧ ∀ i : Nat, (i : Int) < cc → s.packet i = received d.bytes i
  count : counted cfg s

theorem numbered_init (cfg : Config) (dst src tos : Nat) : Numbered cfg (init dst src tos) where
  sent := fun k n op h => by cases h
  last := fun h => by cases h
  arrived := fun d h => by cases h
  judged := fun cc h => by cases h
  count := ⟨by simp [init], Nat.le_refl 1⟩

namespace Numbered

variable {cfg : Config} {s s' : State}

/-- No probe is sent and nothing arrives. -/
theorem keep (h : Numbered cfg s) (hsent : s'.sent = s.sent) (harrived : s'.arrived = s.arrived) (hseq : s'.seq = s.seq)
    (hlast : s'.pc.waits = true → s.pc.waits = true ∧ s'.ttl = s.ttl) (hjudge : ∀ cc, s'.pc = .judge cc → cc < 0)
    (hcount : counted cfg s') : Numbered cfg s' where
  sent := by
    rw [hsent, hseq]
    exact h.sent
  last := fun hw => by
    obtain ⟨hw', httl⟩ := hlast hw
    rw [hsent, hseq, httl]
    exact h.last hw'
  arrived := by
    rw [hsent, harrived]
    exact h.arrived
  judged := fun cc hcc hpos => absurd (hjudge cc hcc) (by omega)
  count := hcount

/-- A datagram arrives. -/
theorem arrive (h : Numbered cfg s) {d : Datagram} (hd : Honest cfg s.sent d) :
    Numbered cfg { s with arrived := s.arrived ++ [d] } where
  sent := h.sent
  last := h.last
  arrived := fun d' hd' => (List.mem_append.1 hd').elim (h.arrived d') (fun h1 => List.mem_singleton.1 h1 ▸ hd)
  judged := fun cc hcc hpos => by
    obtain ⟨d', hget, hbytes⟩ := h.judged cc hcc hpos
    exact ⟨d', by rw [List.getElem?_append_left (List.getElem?_eq_some_iff.1 hget).1]; exact hget, hbytes⟩
  count := h.count

/-- A probe is sent, or not. -/
theorem send (h : Numbered cfg s) (hpc : s.pc = .send) (clock : Timeval) (ret : Int) {lines : List Line} :
    Numbered cfg { s with
      seq := s.seq + 1
      outpacket := sendProbe cfg s.outpacket (s.seq + 1) s.ttl clock
      sent := if ret < 0 then s.sent else s.sent ++ [(s.seq + 1, sendProbe cfg s.outpacket (s.seq + 1) s.ttl clock)]
      printed := lines
      pc := .select } := by
  have hcount := h.count
  rw [counted, hpc] at hcount
  have hnew : ∀ k n op, (s.sent ++ [(s.seq + 1, sendProbe cfg s.outpacket (s.seq + 1) s.ttl clock)])[k]? = some (n, op) →
      s.sent[k]? = some (n, op) ∨ n = s.seq + 1 ∧ op = sendProbe cfg s.outpacket (s.seq + 1) s.ttl clock :=
    fun k n op hk => by
      rcases Nat.lt_or_ge k s.sent.length with hlt | hge
      · rw [List.getElem?_append_left hlt] at hk
        exact .inl hk
      · rw [List.getElem?_append_right hge, List.getElem?_singleton] at hk
        split at hk
        · cases hk
          exact .inr ⟨rfl, rfl⟩
        · cases hk
  refine ⟨fun k n op hk => ?_, fun _ k op hk => ?_, fun d hd => ?_, fun cc hcc => (by cases hcc),
    ⟨by simp only; omega, hcount.2⟩⟩
  · have hold : s.sent[k]? = some (n, op) → _ := fun hk => h.sent k n op hk
    split at hk
    · obtain ⟨h1, h2, h3⟩ := hold hk
      exact ⟨h1, Nat.le_succ_of_le h2, h3⟩
    · rcases hnew k n op hk with hk | ⟨rfl, rfl⟩
      · obtain ⟨h1, h2, h3⟩ := hold hk
        exact ⟨h1, Nat.le_succ_of_le h2, h3⟩
      · exact ⟨Nat.succ_pos _, Nat.le_refl _, rfl, rfl⟩
  · have hold : s.sent[k]? ≠ some (s.seq + 1, op) := fun hk => by
      have := (h.sent k _ op hk).2.1
      omega
    split at hk
    · exact absurd hk hold
    · rcases hnew k _ op hk with hk | ⟨-, rfl⟩
      · exact absurd hk hold
      · rfl
  · dsimp only
    split
    · exact h.arrived d hd
    · exact (h.arrived d hd).append _

/-- A datagram is taken. -/
theorem receive (h : Numbered cfg s) (hpc : s.pc = .recvfrom) {d : Datagram} (hd : s.arrived[s.taken]? = some d) :
    Numbered cfg { s with
      packet := setBytes s.packet 0 (d.bytes.take 512), fromAddr := d.src, taken := s.taken + 1,
      pc := .judge (d.bytes.take 512).length } := by
  have hcount := h.count
  have hlast := h.last
  rw [counted, hpc] at hcount
  rw [hpc] at hlast
  refine ⟨h.sent, fun _ => hlast rfl, h.arrived, fun cc hcc _ => ?_, hcount⟩
  cases hcc
  refine ⟨d, hd, rfl, fun i hi => ?_⟩
  obtain ⟨b, hget⟩ : ∃ b, (d.bytes.take 512)[i]? = some b := ⟨_, List.getElem?_eq_getElem (by omega)⟩
  have hnew := setBytes_of_inside s.packet 0 hget
  have hrec := setBytes_of_inside (fun _ => 0) 0 hget
  rw [Nat.zero_add] at hnew hrec
  exact hnew.trans hrec.symm

/-- A probe has no answer, or one. -/
theorem answered (h : Numbered cfg s) (hwait : s.pc.waits = true) (hpc' : s'.pc = .inner)
    (hsent : s'.sent = s.sent) (harrived : s'.arrived = s.arrived) (hseq : s'.seq = s.seq) (httl : s'.ttl = s.ttl)
    (hprobe : s'.probe = s.probe + 1) : Numbered cfg s' := by
  refine h.keep hsent harrived hseq (fun hw => ?_) (fun cc hcc => ?_) ?_
  · rw [hpc'] at hw
    cases hw
  · rw [hpc'] at hcc
    cases hcc
  · have hcount := h.count
    unfold counted at hcount ⊢
    rw [hpc', hseq, httl, hprobe]
    cases hpc : s.pc with
    | select | recvfrom | judge cc =>
      rw [hpc] at hcount
      simp only at hcount ⊢
      omega
    | outer | inner | send | exitTest | ended =>
      rw [hpc] at hwait
      cases hwait

theorem main (h : Numbered cfg s) {clock : Timeval} {ret : Int} (hs : mainStep cfg s clock ret = some s') :
    Numbered cfg s' := by
  have hcount := h.count
  unfold mainStep at hs
  cases hpc : s.pc with
  | outer =>
    rw [hpc] at hs
    simp only [counted, hpc] at hs hcount
    split at hs
    · cases hs
      refine h.keep rfl rfl rfl (fun hw => by cases hw) (fun cc hcc => by cases hcc) ?_
      rename_i hle
      simp only [counted]
      omega
    · cases hs
      exact h.keep rfl rfl rfl (fun hw => by cases hw) (fun cc hcc => by cases hcc) trivial
  | inner =>
    rw [hpc] at hs
    simp only [counted, hpc] at hs hcount
    split at hs
    · cases hs
      refine h.keep rfl rfl rfl (fun hw => by cases hw) (fun cc hcc => by cases hcc) ?_
      rename_i hlt
      simp only [counted]
      omega
    · cases hs
      refine h.keep rfl rfl rfl (fun hw => by cases hw) (fun cc hcc => by cases hcc) ?_
      rename_i hlt
      simp only [counted]
      omega
  | send =>
    rw [hpc] at hs
    cases hs
    exact h.send hpc clock ret
  | select =>
    rw [hpc] at hs
    simp only at hs
    have hstar : Numbered cfg (star s) := h.answered (by rw [hpc]; rfl) rfl rfl rfl rfl rfl rfl
    split at hs
    · cases hs
      exact hstar
    · split at hs
      · split at hs
        · cases hs
          exact hstar
        · cases hs
      · split at hs
        · cases hs
          refine h.keep rfl rfl rfl (fun _ => ⟨by rw [hpc]; rfl, rfl⟩) (fun cc hcc => by cases hcc) ?_
          simp only [counted, hpc] at hcount ⊢
          exact hcount
        · cases hs
  | recvfrom =>
    rw [hpc] at hs
    simp only at hs
    split at hs
    · cases hs
      refine h.keep rfl rfl rfl (fun _ => ⟨by rw [hpc]; rfl, rfl⟩) (fun cc hcc => by cases hcc; decide) ?_
      simp only [counted, hpc] at hcount ⊢
      exact hcount
    · split at hs
      · cases hs
      · rename_i d hd
        cases hs
        split
        · exact h.answered (by rw [hpc]; rfl) rfl rfl rfl rfl rfl rfl
        · exact h.receive hpc hd
  | judge cc =>
    rw [hpc] at hs
    cases hs
    unfold judge
    simp only
    split
    · exact h.answered (by rw [hpc]; rfl) rfl rfl rfl rfl rfl rfl
    · refine h.keep rfl rfl rfl (fun _ => ⟨by rw [hpc]; rfl, rfl⟩) (fun cc hcc => by cases hcc) ?_
      simp only [counted, hpc] at hcount ⊢
      exact hcount
  | exitTest =>
    rw [hpc] at hs
    simp only [counted, hpc] at hs hcount
    split at hs
    · cases hs
      exact h.keep rfl rfl rfl (fun hw => by cases hw) (fun cc hcc => by cases hcc) trivial
    · cases hs
      refine h.keep rfl rfl rfl (fun hw => by cases hw) (fun cc hcc => by cases hcc) ?_
      refine ⟨?_, Nat.le_add_left 1 _⟩
      calc s.seq = (s.ttl - 1) * cfg.nprobes + cfg.nprobes := hcount.1
        _ = (s.ttl - 1 + 1) * cfg.nprobes := (Nat.succ_mul _ _).symm
        _ = (s.ttl + 1 - 1) * cfg.nprobes := by rw [Nat.sub_add_cancel hcount.2.1, Nat.add_sub_cancel]
  | ended =>
    rw [hpc] at hs
    cases hs

theorem step (h : Numbered cfg s) {a : Act} (hok : honest cfg s a = true) (hs : step cfg s a = some s') :
    Numbered cfg s' := by
  cases a with
  | main clock ret => exact h.main hs
  | answer k src bytes =>
    unfold TracerouteStd.step at hs
    simp only at hs
    split at hs
    · cases hs
      exact h.arrive (honest_answer hok)
    · cases hs
  | other src bytes =>
    cases hs
    exact h.arrive (honest_other hok)

end Numbered

/-- What is taken is an answer to a probe of the number waited for, modulo 65536. -/
theorem Numbered.taken {cfg : Config} {s : State} (h : Numbered cfg s) {cc : Int} (hpc : s.pc = .judge cc)
    (hok : packetOk cfg s.packet cc s.seq ≠ 0) :
    ∃ d k n op, s.arrived[s.taken - 1]? = some d ∧ d.answers = some k ∧ s.sent[k]? = some (n, op) ∧
      1 ≤ n ∧ n ≤ s.seq ∧ n % 65536 = s.seq % 65536 := by
  obtain ⟨type, code, hquoted, -⟩ := quoted_of_ok hok
  have hpos : 0 ≤ cc := by
    by_contra hneg
    have hnone : quoted s.packet cc = none := if_pos (by unfold ICMP_MINLEN; omega)
    rw [hnone] at hquoted
    cases hquoted
  obtain ⟨d, hd, hlen, hbytes⟩ := h.judged cc hpc hpos
  obtain ⟨hhead, hhonest⟩ := h.arrived d (List.mem_of_getElem? hd)
  have hby : quotedBy d.bytes = quoted s.packet cc := by
    unfold quotedBy
    rw [← hlen]
    exact (quoted_congr hbytes (hlen ▸ hhead)).symm
  rw [hquoted] at hby
  split at hhonest
  · rename_i k hk
    obtain ⟨n, op, hget, hports⟩ := hhonest
    obtain ⟨h1, hle, -, hdport⟩ := h.sent k n op hget
    have hport := (hports _ _ _ _ hby).2
    rw [hdport] at hport
    exact ⟨d, k, n, op, hd, hk, hget, h1, hle, (mod_eq_of_port hport).symm⟩
  · exact absurd rfl (hhonest _ _ _ _ hby)

theorem numbered_run {cfg : Config} {dst src tos : Nat} {as : List Act} {s : State}
    (h : run (restrict (honest cfg) (step cfg)) as (init dst src tos) = some s) : Numbered cfg s :=
  restrict_inv (Numbered cfg) (fun _ _ _ hi hok hs => hi.step hok hs) as _ s (numbered_init cfg dst src tos) h

/-- **A reply that is taken answers a probe of this process with the number of the probe just sent, modulo 65536**,
whenever the answers arrive and in whatever order, as long as no other ICMP traffic quotes the source port of this
process. -/
theorem traceroute_std_reply (cfg : Config) (dst src tos : Nat) (as : List Act) (s : State)
    (h : run (restrict (honest cfg) (step cfg)) as (init dst src tos) = some s) (cc : Int) (hpc : s.pc = .judge cc)
    (hok : packetOk cfg s.packet cc s.seq ≠ 0) :
    ∃ d k n op, s.arrived[s.taken - 1]? = some d ∧ d.answers = some k ∧ s.sent[k]? = some (n, op) ∧
      1 ≤ n ∧ n ≤ s.seq ∧ n % 65536 = s.seq % 65536 :=
  (numbered_run h).taken hpc hok

/-- Two probes a hop to the default port, from process 7. -/
def twoProbes : Config where
  nprobes := 2
  nprobes_pos := by decide
  maxTtl := 30
  one_lt_maxTtl := by decide
  port := 33434
  verbose := false
  ident := 0x8007
  datalen := 40

/-- A time-exceeded message that quotes the IP header of a probe and the ports of process 7, the second one to the last
byte. -/
def timeExceeded (port : UInt8) : List UInt8 :=
  [0x45, 0, 0, 56, 0, 0, 0, 0, 64, 1, 0, 0, 10, 0, 0, 1, 10, 0, 0, 9] ++ [11, 0, 0, 0, 0, 0, 0, 0] ++
    [0x45, 0, 0, 40, 0, 0, 0, 0, 1, 17, 0, 0, 10, 0, 0, 9, 10, 0, 0, 99, 0x80, 0x07, 0x82, port, 0, 20, 0, 0]

def statement (ret : Int) : Act := .main ⟨0, 0⟩ ret

/-- The first probe times out, and its answer arrives before that to the second. -/
def lateReply : List Act :=
  [statement 0, statement 0, statement 40, statement 0, statement 0, statement 40, .answer 0 1 (timeExceeded 0x9B),
    .answer 1 1 (timeExceeded 0x9C), statement 1, statement 56]

theorem traceroute_std_reply_late :
    ∃ s₁ s, run (restrict (honest twoProbes) (step twoProbes)) lateReply (init 99 0 0) = some s₁ ∧ s₁.pc = .judge 56 ∧
      packetOk twoProbes s₁.packet 56 s₁.seq = 0 ∧
      run (restrict (honest twoProbes) (step twoProbes)) [statement 0, statement 1, statement 56] s₁ = some s ∧
      s.pc = .judge 56 ∧
      ∃ d k n op, s.arrived[s.taken - 1]? = some d ∧ d.answers = some k ∧ s.sent[k]? = some (n, op) ∧
        1 ≤ n ∧ n ≤ s.seq ∧ n % 65536 = s.seq % 65536 :=
  ⟨_, _, rfl, rfl, by decide, rfl, rfl, traceroute_std_reply twoProbes 99 0 0
    (lateReply ++ [statement 0, statement 1, statement 56]) _ rfl 56 rfl (by decide)⟩

end TracerouteStd
end Cc
