import CCplusplus.Lib.Str
/-!
# RecvFd — the receiver of `apue/lib/recvfd.c`

What `recvmsg` gives is a list of results, each with the bytes of one call and the descriptor that came with them; the
stream may be cut anywhere.  The bytes before the NUL and the status go to the user's function, one call a piece.  The
NUL and the status are found only together, at the end of one piece: a stream whose last cut is between the two is a
format error (`recvLoop_stream`).  What is accepted is a text, a NUL and a status, whatever was received
(`recv_fd_accepts`).
-/
namespace Cc
namespace RecvFd

open CLib.Mem (Clean)

def MAXLINE : Nat := 4096

/-- A result of `recvmsg`; no bytes is the end of the connection. -/
inductive Recv where
  | error
  | data (buf : List UInt8) (fd : Option Int)
deriving DecidableEq, Repr

inductive Outcome where
  | ret (n : Int)
  /-- `-1`, where `err_ret` has said why -/
  | errRet (msg : String)
  | dump (msg : String)
  /-- in `recvmsg` -/
  | waits
deriving DecidableEq, Repr

/-- The `for` over the bytes of a piece: what is left of `nr`, and the descriptor or status where it has arrived. -/
def scan (buf : List UInt8) (fd : Option Int) : Nat → Nat → Int → Option Int → Except String (Int × Option Int)
  | 0, _, nr, newfd => .ok (nr, newfd)
  | fuel + 1, ptr, nr, newfd =>
    if (ptr : Int) < nr then
      if buf[ptr]? = some 0 then
        if ((ptr + 1 : Nat) : Int) ≠ nr - 1 then .error "message format error"
        else
          let status := (buf[ptr + 1]?).getD 0
          if status = 0 then
            match fd with
            | none => .error "status = 0 but no fd"
            | some fd' => scan buf fd fuel (ptr + 1) (nr - 2) (some fd')
          else scan buf fd fuel (ptr + 1) (nr - 2) (some (-status.toNat))
      else scan buf fd fuel (ptr + 1) nr newfd
    else .ok (nr, newfd)

/-- What one piece comes to: what the user's function gets, and the descriptor or status. -/
def piece (buf : List UInt8) (fd : Option Int) : Except String (List UInt8 × Option Int) :=
  match scan buf fd buf.length 0 buf.length none with
  | .error msg => .error msg
  | .ok (nr, newfd) => .ok (buf.take nr.toNat, newfd)

/-- The loop of `recv_fd`.  `userfunc`'s value may depend on all that it was given; the second part is what it was given. -/
def recvLoop (userfunc : List (List UInt8) → Int) : List Recv → List (List UInt8) → Outcome × List (List UInt8)
  | [], calls => (.waits, calls)
  | .error :: _, calls => (.errRet "recvmsg error", calls)
  | .data buf fd :: rest, calls =>
    if buf.length = 0 then (.errRet "connection closed by server", calls)
    else
      match piece buf fd with
      | .error msg => (.dump msg, calls)
      | .ok (bytes, newfd) =>
        if 0 < bytes.length ∧ userfunc (calls ++ [bytes]) ≠ bytes.length then (.ret (-1), calls ++ [bytes])
        else
          let calls := if 0 < bytes.length then calls ++ [bytes] else calls
          match newfd with
          | some n => (.ret n, calls)
          | none => recvLoop userfunc rest calls

/-- `recv_fd`; `malloc` says whether the block for control messages is there, or is granted. -/
def recvFd (malloc : Bool) (userfunc : List (List UInt8) → Int) (rs : List Recv) : Outcome × List (List UInt8) :=
  if malloc then recvLoop userfunc rs [] else (.ret (-1), [])

/-! ## One piece -/

theorem scan_skip (fd : Option Int) {m t : List UInt8} (hm : Clean m) (newfd : Option Int) :
    ∀ (fuel ptr : Nat) (pre : List UInt8), pre.length = ptr →
      scan (pre ++ m ++ t) fd (fuel + m.length) ptr (pre ++ m ++ t).length newfd
        = scan (pre ++ m ++ t) fd fuel (ptr + m.length) (pre ++ m ++ t).length newfd := by
  induction m with
  | nil => intro fuel ptr pre _; rfl
  | cons c m ih =>
    intro fuel ptr pre hptr
    have hc : c ≠ 0 := hm c List.mem_cons_self
    have hget : (pre ++ c :: m ++ t)[ptr]? = some c := by
      subst hptr
      simp
    have hlt : (ptr : Int) < (pre ++ c :: m ++ t).length := by
      simp [hptr]
      omega
    have hrest := ih (fun d hd => hm d (List.mem_cons_of_mem _ hd)) fuel (ptr + 1) (pre ++ [c]) (by simp [hptr])
    have happ : (pre ++ [c]) ++ m ++ t = pre ++ c :: m ++ t := by simp
    rw [happ] at hrest
    have hone : scan (pre ++ c :: m ++ t) fd (fuel + m.length + 1) ptr (pre ++ c :: m ++ t).length newfd
        = scan (pre ++ c :: m ++ t) fd (fuel + m.length) (ptr + 1) (pre ++ c :: m ++ t).length newfd := by
      conv_lhs => unfold scan
      rw [if_pos hlt, hget, if_neg (by simpa using hc)]
    rw [List.length_cons, ← Nat.add_assoc fuel, hone, hrest, Nat.add_right_comm, Nat.add_assoc ptr]

/-- A piece without a NUL. -/
theorem piece_text {m : List UInt8} (hm : Clean m) (fd : Option Int) : piece m fd = .ok (m, none) := by
  have hskip := scan_skip (t := []) fd hm none 0 0 [] rfl
  simp only [List.nil_append, List.append_nil, Nat.zero_add] at hskip
  simp [piece, hskip, scan]

/-- What the status says: a descriptor came with it, or an error. -/
def arrived (status : UInt8) (fd : Option Int) : Except String Int :=
  if status = 0 then
    match fd with
    | none => .error "status = 0 but no fd"
    | some fd' => .ok fd'
  else .ok (-status.toNat)

theorem scan_stops (buf : List UInt8) (fd : Option Int) (fuel ptr : Nat) (nr : Int) (newfd : Option Int) (h : nr ≤ ptr) :
    scan buf fd fuel ptr nr newfd = .ok (nr, newfd) := by
  cases fuel with
  | zero => rfl
  | succ fuel =>
    unfold scan
    rw [if_neg (by omega)]

/-- A piece with the NUL and the status at its end. -/
theorem piece_status {m : List UInt8} (hm : Clean m) (status : UInt8) (fd : Option Int) :
    piece (m ++ [0, status]) fd = (arrived status fd).map (fun n => (m, some n)) := by
  have hskip := scan_skip (t := [0, status]) fd hm none 2 0 [] rfl
  simp only [List.nil_append, Nat.zero_add] at hskip
  have hlength : (m ++ [0, status]).length = 2 + m.length := by simp [Nat.add_comm]
  have hnul : (m ++ [0, status])[m.length]? = some 0 := by simp
  have hstatus : (m ++ [0, status])[m.length + 1]? = some status := by simp
  have hend : ((2 + m.length : Nat) : Int) - 2 = m.length := by omega
  have hstop := fun n => scan_stops (m ++ [0, status]) fd 1 (m.length + 1) m.length (some n) (by omega)
  have hscan : scan (m ++ [0, status]) fd 2 m.length (2 + m.length : Nat) none
      = (arrived status fd).map (fun n => ((m.length : Int), some n)) := by
    conv_lhs => unfold scan
    rw [if_pos (by omega), if_pos hnul, if_neg (by omega), hstatus, Option.getD_some, hend]
    unfold arrived
    by_cases hzero : status = 0
    · cases fd with
      | none => simp only [if_pos hzero, Except.map]
      | some fd' => simp only [if_pos hzero, Except.map, hstop]
    · simp only [if_neg hzero, Except.map, hstop]
  unfold piece
  rw [hlength] at hskip ⊢
  rw [hskip, hscan]
  cases arrived status fd with
  | error msg => rfl
  | ok n => simp [Except.map]

/-- A piece with a NUL elsewhere. -/
theorem piece_format {m t : List UInt8} (hm : Clean m) (ht : t.length ≠ 1) (fd : Option Int) :
    piece (m ++ 0 :: t) fd = .error "message format error" := by
  have hskip := scan_skip (t := 0 :: t) fd hm none (t.length + 1) 0 [] rfl
  simp only [List.nil_append, Nat.zero_add] at hskip
  have hlength : (m ++ 0 :: t).length = t.length + 1 + m.length := by simp [Nat.add_comm]
  have hnul : (m ++ 0 :: t)[m.length]? = some 0 := by simp
  have hscan : scan (m ++ 0 :: t) fd (t.length + 1) m.length (t.length + 1 + m.length : Nat) none
      = .error "message format error" := by
    unfold scan
    rw [if_pos (by omega), if_pos hnul, if_pos (by omega)]
  unfold piece
  rw [hlength] at hskip ⊢
  rw [hskip, hscan]

/-- The first NUL of a piece. -/
theorem clean_or_nul : ∀ buf : List UInt8, Clean buf ∨ ∃ m t, Clean m ∧ buf = m ++ 0 :: t
  | [] => .inl (fun c hc => by cases hc)
  | c :: buf => by
    by_cases hc : c = 0
    · exact .inr ⟨[], buf, (fun d hd => by cases hd), by rw [hc]; rfl⟩
    · have hcons : ∀ m, Clean m → Clean (c :: m) := fun m hm d hd => by
        rcases List.mem_cons.1 hd with rfl | hd
        · exact hc
        · exact hm d hd
      rcases clean_or_nul buf with hclean | ⟨m, t, hm, rfl⟩
      · exact .inl (hcons buf hclean)
      · exact .inr ⟨c :: m, t, hcons m hm, rfl⟩

/-! ## All pieces -/

/-- The user's function takes all that it is given. -/
def Takes (userfunc : List (List UInt8) → Int) : Prop := ∀ calls bytes, userfunc (calls ++ [bytes]) = bytes.length

def toRecv (pieces : List (List UInt8 × Option Int)) : List Recv := pieces.map (fun p => .data p.1 p.2)

def bytesOf (pieces : List (List UInt8 × Option Int)) : List UInt8 := (pieces.map Prod.fst).flatten

/-- One piece more. -/
theorem recvLoop_data {userfunc : List (List UInt8) → Int} (hu : Takes userfunc) {buf : List UInt8} (hne : buf ≠ [])
    (fd : Option Int) {bytes : List UInt8} {newfd : Option Int} (hpiece : piece buf fd = .ok (bytes, newfd))
    (rest : List Recv) (calls : List (List UInt8)) :
    ∃ calls', calls'.flatten = calls.flatten ++ bytes ∧
      recvLoop userfunc (.data buf fd :: rest) calls
        = match newfd with | some n => (.ret n, calls') | none => recvLoop userfunc rest calls' := by
  have hlength : buf.length ≠ 0 := fun h => hne (List.length_eq_zero_iff.1 h)
  refine ⟨if 0 < bytes.length then calls ++ [bytes] else calls, ?_, ?_⟩
  · split
    · rw [List.flatten_append, List.flatten_singleton]
    · rw [List.length_eq_zero_iff.1 (by omega : bytes.length = 0), List.append_nil]
  · simp only [recvLoop, if_neg hlength, hpiece]
    rw [if_neg (fun h => h.2 (hu calls bytes))]

/-- Pieces without a NUL go to the user's function. -/
theorem recvLoop_text {userfunc : List (List UInt8) → Int} (hu : Takes userfunc) (rest : List Recv) :
    ∀ (pieces : List (List UInt8 × Option Int)) (calls : List (List UInt8)), (∀ p ∈ pieces, p.1 ≠ []) →
      Clean (bytesOf pieces) → ∃ calls', calls'.flatten = calls.flatten ++ bytesOf pieces ∧
        recvLoop userfunc (toRecv pieces ++ rest) calls = recvLoop userfunc rest calls'
  | [], calls, _, _ => ⟨calls, by simp [bytesOf], rfl⟩
  | p :: pieces, calls, hne, hclean => by
    have hp : Clean p.1 := fun c hc => hclean c (by simp [bytesOf, hc])
    have hrest : Clean (bytesOf pieces) := fun c hc => hclean c (by
      simp only [bytesOf, List.map_cons, List.flatten_cons, List.mem_append] at hc ⊢
      exact .inr hc)
    obtain ⟨calls₁, h₁, hrun⟩ := recvLoop_data hu (hne p List.mem_cons_self) p.2 (piece_text hp p.2)
      (toRecv pieces ++ rest) calls
    obtain ⟨calls', h', hrun'⟩ := recvLoop_text hu rest pieces calls₁ (fun q hq => hne q (List.mem_cons_of_mem _ hq)) hrest
    refine ⟨calls', ?_, hrun.trans hrun'⟩
    rw [h', h₁, List.append_assoc]
    rfl

theorem bytesOf_append (pieces pieces' : List (List UInt8 × Option Int)) :
    bytesOf (pieces ++ pieces') = bytesOf pieces ++ bytesOf pieces' := by
  simp [bytesOf]

theorem toRecv_append (pieces pieces' : List (List UInt8 × Option Int)) :
    toRecv (pieces ++ pieces') = toRecv pieces ++ toRecv pieces' := List.map_append

theorem clean_of_append {s t : List UInt8} (h : Clean (s ++ t)) : Clean s ∧ Clean t :=
  ⟨fun c hc => h c (List.mem_append_left _ hc), fun c hc => h c (List.mem_append_right _ hc)⟩

/-- What `recv_fd` gives for the status and what came with it. -/
def outcome (status : UInt8) (fd : Option Int) : Outcome :=
  match arrived status fd with
  | .ok n => .ret n
  | .error msg => .dump msg

/-- The NUL and the status come in one piece. -/
theorem recvLoop_together {userfunc : List (List UInt8) → Int} (hu : Takes userfunc)
    {first : List (List UInt8 × Option Int)} (hne : ∀ p ∈ first, p.1 ≠ []) {l : List UInt8}
    (hclean : Clean (bytesOf first ++ l)) (status : UInt8) (fd : Option Int) :
    (recvLoop userfunc (toRecv (first ++ [(l ++ [0, status], fd)])) []).1 = outcome status fd ∧
    ∀ n, arrived status fd = .ok n →
      (recvLoop userfunc (toRecv (first ++ [(l ++ [0, status], fd)])) []).2.flatten = bytesOf first ++ l := by
  obtain ⟨calls, hcalls, hrun⟩ := recvLoop_text hu [.data (l ++ [0, status]) fd] first [] hne (clean_of_append hclean).1
  have hpiece := piece_status (clean_of_append hclean).2 status fd
  have hnonempty : l ++ [0, status] ≠ [] := List.append_ne_nil_of_right_ne_nil _ (by simp)
  rw [toRecv_append, show toRecv [(l ++ [0, status], fd)] = [.data (l ++ [0, status]) fd] from rfl, hrun]
  unfold outcome
  cases harrived : arrived status fd with
  | error msg =>
    rw [harrived] at hpiece
    have hlength : (l ++ [0, status]).length ≠ 0 := by simp
    refine ⟨?_, fun n hn => by cases hn⟩
    simp only [recvLoop, if_neg hlength, hpiece, Except.map]
  | ok n =>
    rw [harrived] at hpiece
    obtain ⟨calls', hcalls', hlast⟩ := recvLoop_data hu hnonempty fd hpiece [] calls
    refine ⟨by rw [hlast], fun _ _ => ?_⟩
    rw [hlast, hcalls', hcalls]
    rfl

/-- A NUL comes at the end of a piece. -/
theorem recvLoop_apart {userfunc : List (List UInt8) → Int} (hu : Takes userfunc)
    {first : List (List UInt8 × Option Int)} (hne : ∀ p ∈ first, p.1 ≠ []) {l : List UInt8}
    (hclean : Clean (bytesOf first ++ l)) (fd : Option Int) (rest : List Recv) :
    (recvLoop userfunc (toRecv first ++ .data (l ++ [0]) fd :: rest) []).1 = .dump "message format error" := by
  obtain ⟨calls, -, hrun⟩ := recvLoop_text hu (.data (l ++ [0]) fd :: rest) first [] hne (clean_of_append hclean).1
  have hpiece := piece_format (t := []) (clean_of_append hclean).2 (by decide) fd
  have hlength : (l ++ [0]).length ≠ 0 := by simp
  rw [hrun]
  simp only [recvLoop, if_neg hlength, hpiece]

theorem eq_append_of_last {l m : List UInt8} {s : List UInt8} {c : UInt8} (hs : s ≠ []) (h : l ++ s = m ++ [c]) :
    ∃ s', s = s' ++ [c] ∧ l ++ s' = m := by
  have hsplit := List.dropLast_concat_getLast hs
  have heq : (l ++ s.dropLast) ++ [s.getLast hs] = m ++ [c] := by rw [List.append_assoc, hsplit, h]
  obtain ⟨hm, hc⟩ := List.append_inj' heq rfl
  exact ⟨s.dropLast, by rw [← (List.cons.inj hc).1, hsplit], hm⟩

/-- **A text, a NUL and a status, cut anywhere.**  Where the last cut is before the NUL, `recv_fd` gives what the status
says, and the user's function has got the text; where it is between the two, the stream is a format error. -/
theorem recvLoop_stream (userfunc : List (List UInt8) → Int) (hu : Takes userfunc) (m : List UInt8) (hm : Clean m)
    (status : UInt8) (first : List (List UInt8 × Option Int)) (last : List UInt8 × Option Int)
    (hne : ∀ p ∈ first ++ [last], p.1 ≠ []) (h : bytesOf (first ++ [last]) = m ++ [0, status]) :
    (recvLoop userfunc (toRecv (first ++ [last])) []).1
      = (if last.1.length = 1 then .dump "message format error" else outcome status last.2) ∧
    ∀ n, (recvLoop userfunc (toRecv (first ++ [last])) []).1 = .ret n →
      (recvLoop userfunc (toRecv (first ++ [last])) []).2.flatten = m := by
  have hwhole : bytesOf first ++ last.1 = (m ++ [0]) ++ [status] := by
    rw [bytesOf_append] at h
    simpa [bytesOf] using h
  obtain ⟨s, hs, hfirst⟩ := eq_append_of_last (hne last (by simp)) hwhole
  have hpieces : ∀ p ∈ first, p.1 ≠ [] := fun p hp => hne p (List.mem_append_left _ hp)
  obtain ⟨bytes, fd⟩ := last
  obtain rfl : bytes = s ++ [status] := hs
  by_cases hnil : s = []
  · -- the last cut is between the NUL and the status
    subst hnil
    rw [List.append_nil] at hfirst
    rcases List.eq_nil_or_concat first with rfl | ⟨first', p, rfl⟩
    · simp [bytesOf] at hfirst
    have hp := hpieces p (by simp)
    rw [List.concat_eq_append] at hfirst hpieces ⊢
    rw [bytesOf_append, show bytesOf [p] = p.1 by simp [bytesOf]] at hfirst
    obtain ⟨l, hl, hm'⟩ := eq_append_of_last hp hfirst
    have hdump := recvLoop_apart hu (fun q hq => hpieces q (List.mem_append_left _ hq)) (hm' ▸ hm) p.2
      [.data ([] ++ [status]) fd]
    have hrun : toRecv (first' ++ [p] ++ [([] ++ [status], fd)])
        = toRecv first' ++ .data (l ++ [0]) p.2 :: [.data ([] ++ [status]) fd] := by
      simp [toRecv, hl]
    rw [hrun, hdump]
    exact ⟨rfl, fun n hn => by cases hn⟩
  · obtain ⟨l, rfl, hl⟩ := eq_append_of_last hnil hfirst
    obtain ⟨hout, hcalls⟩ := recvLoop_together hu hpieces (hl ▸ hm) status fd
    rw [List.append_assoc, show [0] ++ [status] = [0, status] from rfl, hout]
    refine ⟨?_, fun n hn => ?_⟩
    · rw [if_neg (by simp)]
    · unfold outcome at hn
      split at hn
      · rename_i n' harrived
        rw [hcalls n' harrived, hl]
      · cases hn

/-- A user's function that writes all that it is given. -/
def takesAll (calls : List (List UInt8)) : Int := (calls.getLast?.getD []).length

theorem takes_takesAll : Takes takesAll := fun calls bytes => by simp [takesAll]

/-! ## What is accepted -/

/-- A piece that is not an error. -/
theorem piece_ok {buf : List UInt8} {fd : Option Int} {bytes : List UInt8} {newfd : Option Int}
    (h : piece buf fd = .ok (bytes, newfd)) :
    Clean bytes ∧ (newfd = none ∧ buf = bytes ∨
      ∃ status n, newfd = some n ∧ buf = bytes ++ [0, status] ∧ arrived status fd = .ok n) := by
  rcases clean_or_nul buf with hclean | ⟨m, t, hm, rfl⟩
  · rw [piece_text hclean fd] at h
    cases h
    exact ⟨hclean, .inl ⟨rfl, rfl⟩⟩
  · by_cases ht : t.length = 1
    · obtain ⟨status, rfl⟩ := List.length_eq_one_iff.1 ht
      rw [piece_status hm status fd] at h
      cases harrived : arrived status fd with
      | error msg =>
        rw [harrived] at h
        cases h
      | ok n =>
        rw [harrived] at h
        cases h
        exact ⟨hm, .inr ⟨status, n, rfl, rfl, harrived⟩⟩
    · rw [piece_format hm ht fd] at h
      cases h

theorem recvLoop_accepts (userfunc : List (List UInt8) → Int) {n : Int} (hn : n ≠ -1) :
    ∀ (rs : List Recv) (calls : List (List UInt8)), (recvLoop userfunc rs calls).1 = .ret n →
      ∃ first last rest m status, rs = toRecv (first ++ [last]) ++ rest ∧ Clean m ∧
        bytesOf (first ++ [last]) = m ++ [0, status] ∧ arrived status last.2 = .ok n ∧
        (recvLoop userfunc rs calls).2.flatten = calls.flatten ++ m
  | [], calls, h => by cases h
  | .error :: rs, calls, h => by cases h
  | .data buf fd :: rs, calls, h => by
    unfold recvLoop at h ⊢
    split at h
    · cases h
    rename_i hlength
    rw [if_neg hlength]
    split at h
    · cases h
    rename_i bytes newfd hpiece
    obtain ⟨hclean, hbuf⟩ := piece_ok hpiece
    split at h
    · exact absurd (Outcome.ret.inj h).symm hn
    rename_i htakes
    simp only [if_neg htakes]
    have hcalls : (if 0 < bytes.length then calls ++ [bytes] else calls).flatten = calls.flatten ++ bytes := by
      split
      · rw [List.flatten_append, List.flatten_singleton]
      · rw [List.length_eq_zero_iff.1 (by omega : bytes.length = 0), List.append_nil]
    rcases hbuf with ⟨rfl, rfl⟩ | ⟨status, n', rfl, rfl, harrived⟩
    · obtain ⟨first, last, rest, m, status, rfl, hm, hbytes, harrived, hend⟩ := recvLoop_accepts userfunc hn rs _ h
      refine ⟨(buf, fd) :: first, last, rest, buf ++ m, status, rfl, fun c hc => ?_, ?_, harrived, ?_⟩
      · exact (List.mem_append.1 hc).elim (hclean c) (hm c)
      · rw [List.append_assoc, ← hbytes]
        rfl
      · rw [hend, hcalls, List.append_assoc]
    · obtain rfl := Outcome.ret.inj h
      refine ⟨[], (bytes ++ [0, status], fd), rs, bytes, status, rfl, hclean, by simp [bytesOf], harrived, hcalls⟩

/-- **`recv_fd` accepts only a text, a NUL and a status**: whatever `recvmsg` gives and however the user's function
behaves, what is not `-1` is what the status of such a stream says, and the function has got the text. -/
theorem recv_fd_accepts (malloc : Bool) (userfunc : List (List UInt8) → Int) (rs : List Recv) (n : Int) (hn : n ≠ -1)
    (h : (recvFd malloc userfunc rs).1 = .ret n) :
    ∃ first last rest m status, rs = toRecv (first ++ [last]) ++ rest ∧ Clean m ∧
      bytesOf (first ++ [last]) = m ++ [0, status] ∧ arrived status last.2 = .ok n ∧
      (recvFd malloc userfunc rs).2.flatten = m := by
  cases malloc with
  | false => exact absurd (Outcome.ret.inj h).symm hn
  | true => exact recvLoop_accepts userfunc hn rs [] h

theorem recv_fd_accepts_fd : ∃ first last rest m status, toRecv [([104, 105], none), ([33, 0, 0], some 7)]
      = toRecv (first ++ [last]) ++ rest ∧ Clean m ∧ bytesOf (first ++ [last]) = m ++ [0, status] ∧
    arrived status last.2 = .ok 7 ∧
    (recvFd true takesAll (toRecv [([104, 105], none), ([33, 0, 0], some 7)])).2.flatten = m :=
  recv_fd_accepts true takesAll (toRecv [([104, 105], none), ([33, 0, 0], some 7)]) 7 (by decide) (by decide)

end RecvFd
end Cc
