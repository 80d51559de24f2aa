import CCplusplus.Lib.Transfer
import CCplusplus.RecvFd
/-!
# SendErr — an error that goes to `recv_fd`

`send_err` writes its message, and `send_fd` sends a NUL and a status after it (`apue/lib/senderr.c`, `sendfd.c`).  What
`recv_fd` makes of that, for every cut of the stream, is the error in the range of a byte and the message
(`send_err_recv_fd`); but where it finds all of the stream there and takes `MAXLINE` bytes at a time, a message that is
one byte short of a multiple of `MAXLINE` is a format error (`send_err_recv_fd_whole`).
-/
namespace Cc
namespace RecvFd

open CLib CLib.Mem

def readn (read : Nat → Int) (stream : List UInt8) (n : Nat) : Int × List UInt8 := move read n stream

def writen (write : Nat → Int) (ptr : List UInt8) : Int × List UInt8 := move write ptr.length ptr

/-- **What `writen` says is written is read back**: the bytes that `readn` gets are the first of them, as many as it says,
whatever pieces the calls make. -/
theorem readn_writen (write read : Nat → Int) (ptr : List UInt8) (n : Nat) :
    ∃ k j, (writen write ptr).2 = ptr.take k ∧ (readn read (writen write ptr).2 n).2 = ptr.take j ∧ j ≤ k ∧ j ≤ n ∧
      k ≤ ptr.length ∧
      ((writen write ptr).1 = k ∨ (writen write ptr).1 = -1 ∧ k = 0) ∧
      ((readn read (writen write ptr).2 n).1 = j ∨ (readn read (writen write ptr).2 n).1 = -1 ∧ j = 0) := by
  obtain ⟨k, hk, hwritten, hwrote⟩ := move_spec write ptr.length ptr
  obtain ⟨j, hj, hgot, hread⟩ := move_spec read n (writen write ptr).2
  have hlength : (writen write ptr).2.length = k := by
    rw [show (writen write ptr).2 = ptr.take k from hwritten, List.length_take]
    omega
  refine ⟨k, min j k, hwritten, ?_, Nat.min_le_right _ _, by omega, hk, ?_, ?_⟩
  · rw [show (readn read (writen write ptr).2 n).2 = (writen write ptr).2.take j from hgot,
      show (writen write ptr).2 = ptr.take k from hwritten, List.take_take]
  · rcases hwrote with hret | ⟨hret, hnil⟩
    · exact .inl (by rw [← hlength]; exact hret)
    · exact .inr ⟨hret, by rw [← hlength, show (writen write ptr).2 = [] from hnil]; rfl⟩
  · have hgotten : (readn read (writen write ptr).2 n).2.length = min j k := by
      rw [show (readn read (writen write ptr).2 n).2 = (writen write ptr).2.take j from hgot, List.length_take, hlength]
    rcases hread with hret | ⟨hret, hnil⟩
    · exact .inl (by rw [← hgotten]; exact hret)
    · exact .inr ⟨hret, by rw [← hgotten, show (readn read (writen write ptr).2 n).2 = [] from hnil]; rfl⟩

/-- An `int` in a `char`. -/
def toByte (n : Int) : UInt8 := UInt8.ofNat (n % 256).toNat

/-- What `send_fd` returns, what it sends, and the descriptor that goes with it; `sendmsg` sends both bytes or fails. -/
def sendFd (malloc sendmsg : Bool) (fdToSend : Int) : Int × List UInt8 × Option Int :=
  if fdToSend < 0 then
    let status := toByte (-fdToSend)
    -- `-256`, etc.
    let status := if status = 0 then 1 else status
    if sendmsg then (0, [0, status], none) else (-1, [], none)
  else if malloc then if sendmsg then (0, [0, 0], some fdToSend) else (-1, [], none)
  else (-1, [], none)

/-- `send_err` of a C string, and what it sends. -/
def sendErr (write : Nat → Int) (sendmsg : Bool) (errcode : Int) (msg : List UInt8) : Int × List UInt8 :=
  -- `int n`
  let n := (msg.length : Int).bmod 4294967296
  let written := if 0 < n then writen write (msg.take n.toNat) else (n, [])
  if written.1 ≠ n ∧ 0 < n then (-1, written.2)
  else
    let sent := sendFd true sendmsg (if 0 ≤ errcode then -1 else errcode)
    if sent.1 < 0 then (-1, written.2 ++ sent.2.1) else (0, written.2 ++ sent.2.1)

/-- The status of an error. -/
def errStatus (errcode : Int) : UInt8 :=
  let errcode := if 0 ≤ errcode then -1 else errcode
  let status := toByte (-errcode)
  if status = 0 then 1 else status

theorem errStatus_ne_zero (errcode : Int) : errStatus errcode ≠ 0 := by
  unfold errStatus
  dsimp only
  generalize toByte _ = status
  by_cases hzero : status = 0
  · rw [if_pos hzero]
    decide
  · rwa [if_neg hzero]

theorem sendFd_err (sendmsg : Bool) (errcode : Int) :
    sendFd true sendmsg (if 0 ≤ errcode then -1 else errcode)
      = if sendmsg then (0, [0, errStatus errcode], none) else (-1, [], none) := by
  unfold sendFd errStatus
  rw [if_pos (by split <;> omega)]

/-- What is sent where nothing fails. -/
theorem sendErr_sent {write : Nat → Int} {sendmsg : Bool} {errcode : Int} {msg : List UInt8} (hlen : msg.length < 2147483648)
    (h : (sendErr write sendmsg errcode msg).1 = 0) :
    (sendErr write sendmsg errcode msg).2 = msg ++ [0, errStatus errcode] := by
  have hn : (msg.length : Int).bmod 4294967296 = msg.length := Int.bmod_eq_of_le (by omega) (by omega)
  have hwritten : (if 0 < (msg.length : Int) then writen write (msg.take (msg.length : Int).toNat)
      else ((msg.length : Int), [])) = writen write msg := by
    cases msg with
    | nil => rfl
    | cons c msg => rw [if_pos (by simp), Int.toNat_natCast, List.take_length]
  unfold sendErr at h ⊢
  simp only [hn, hwritten, sendFd_err] at h ⊢
  split at h
  · cases h
  rename_i hall
  rw [if_neg hall]
  have hmsg : (writen write msg).2 = msg := by
    cases msg with
    | nil => rfl
    | cons c msg => exact move_all (by_contra fun hne => hall ⟨hne, by simp⟩)
  rw [hmsg] at h ⊢
  cases sendmsg with
  | false => simp at h
  | true => simp

theorem outcome_errStatus (errcode : Int) (fd : Option Int) :
    outcome (errStatus errcode) fd = .ret (-(errStatus errcode).toNat) := by
  unfold outcome arrived
  rw [if_neg (errStatus_ne_zero errcode)]

/-- **An error gets through** where `recv_fd` has its block: it gives the status of the error, and the user's function the
message, however the stream is cut, unless the last cut is between the NUL and the status. -/
theorem send_err_recv_fd (write : Nat → Int) (sendmsg : Bool) (errcode : Int) (msg : List UInt8) (hmsg : Clean msg)
    (hlen : msg.length < 2147483648) (hsent : (sendErr write sendmsg errcode msg).1 = 0) (malloc : Bool)
    (hmalloc : malloc = true) (userfunc : List (List UInt8) → Int) (hu : Takes userfunc)
    (first : List (List UInt8 × Option Int)) (last : List UInt8 × Option Int) (hne : ∀ p ∈ first ++ [last], p.1 ≠ [])
    (hcut : bytesOf (first ++ [last]) = (sendErr write sendmsg errcode msg).2) :
    (recvFd malloc userfunc (toRecv (first ++ [last]))).1
      = (if last.1.length = 1 then .dump "message format error" else .ret (-(errStatus errcode).toNat)) ∧
    (last.1.length ≠ 1 → (recvFd malloc userfunc (toRecv (first ++ [last]))).2.flatten = msg) := by
  subst hmalloc
  rw [sendErr_sent hlen hsent] at hcut
  obtain ⟨hout, hcalls⟩ := recvLoop_stream userfunc hu msg hmsg (errStatus errcode) first last hne hcut
  rw [outcome_errStatus] at hout
  refine ⟨hout, fun hlast => hcalls (-(errStatus errcode).toNat) ?_⟩
  rw [hout, if_neg hlast]

theorem send_err_recv_fd_cut :
    (recvFd true takesAll (toRecv ([([104], none)] ++ [([105, 0, 2], none)]))).1
      = (if ([105, 0, 2] : List UInt8).length = 1 then .dump "message format error"
        else .ret (-(errStatus (-2)).toNat)) ∧
    (([105, 0, 2] : List UInt8).length ≠ 1 →
      (recvFd true takesAll (toRecv ([([104], none)] ++ [([105, 0, 2], none)]))).2.flatten = [104, 105]) :=
  send_err_recv_fd (fun _ => 1) true (-2) [104, 105] (by decide) (by decide) (by decide) true rfl takesAll
    takes_takesAll [([104], none)] ([105, 0, 2], none) (by decide) (by decide)

/-- The errors that come out as they went in. -/
theorem errStatus_toNat {errcode : Int} (h₁ : -255 ≤ errcode) (h₂ : errcode ≤ -1) :
    -((errStatus errcode).toNat : Int) = errcode := by
  obtain ⟨k, rfl⟩ : ∃ k : Nat, errcode = -k := ⟨errcode.natAbs, by omega⟩
  have hbyte : toByte (-(-(k : Int))) = UInt8.ofNat k := by
    rw [toByte, Int.neg_neg, Int.emod_eq_of_lt (by omega) (by omega), Int.toNat_natCast]
  have htoNat : (UInt8.ofNat k).toNat = k := by
    rw [UInt8.toNat_ofNat']
    omega
  have hne : UInt8.ofNat k ≠ 0 := fun hzero => by
    rw [hzero, UInt8.toNat_zero] at htoNat
    omega
  have hneg : ¬ (0 : Int) ≤ -(k : Int) := by omega
  simp only [errStatus, if_neg hneg, hbyte, if_neg hne, htoNat]

/-- All of the stream, `MAXLINE` bytes at a time. -/
def whole (stream : List UInt8) : List Recv := (cut MAXLINE stream).map (fun buf => .data buf none)

/-- **Where all of the stream is there**, an error and its message get through unless the message is one byte short of a
multiple of `MAXLINE`; there it is a message format error. -/
theorem send_err_recv_fd_whole (write : Nat → Int) (sendmsg : Bool) (errcode : Int) (h₁ : -255 ≤ errcode)
    (h₂ : errcode ≤ -1) (msg : List UInt8) (hmsg : Clean msg) (hlen : msg.length < 2147483648)
    (hsent : (sendErr write sendmsg errcode msg).1 = 0) (malloc : Bool) (hmalloc : malloc = true)
    (userfunc : List (List UInt8) → Int) (hu : Takes userfunc) :
    ((recvFd malloc userfunc (whole (sendErr write sendmsg errcode msg).2)).1 = .ret errcode ∧
        (recvFd malloc userfunc (whole (sendErr write sendmsg errcode msg).2)).2.flatten = msg ↔
      (msg.length + 1) % MAXLINE ≠ 0) ∧
    ((msg.length + 1) % MAXLINE = 0 →
      (recvFd malloc userfunc (whole (sendErr write sendmsg errcode msg).2)).1 = .dump "message format error") := by
  subst hmalloc
  have hmax : 0 < MAXLINE := by decide
  have hstream := sendErr_sent hlen hsent
  have hne : (sendErr write sendmsg errcode msg).2 ≠ [] := by
    rw [hstream]
    simp
  obtain ⟨first, last, hcut, hlast⟩ := cut_last hmax hne
  rw [hstream, List.length_append, List.length_cons, List.length_singleton, Nat.add_sub_cancel (m := 1)] at hlast
  have hflatten := cut_flatten hmax (sendErr write sendmsg errcode msg).2
  have hpieces := cut_ne_nil hmax (sendErr write sendmsg errcode msg).2
  rw [hcut] at hflatten hpieces
  have hwhole : whole (sendErr write sendmsg errcode msg).2
      = toRecv (first.map (fun buf => (buf, none)) ++ [(last, none)]) := by
    rw [whole, hcut]
    simp [toRecv]
  have hbytes : bytesOf (first.map (fun buf => (buf, none)) ++ [(last, none)])
      = (sendErr write sendmsg errcode msg).2 := by
    rw [← hflatten]
    simp [bytesOf, Function.comp_def]
  have hnonempty : ∀ p ∈ first.map (fun buf => (buf, none)) ++ [(last, (none : Option Int))], p.1 ≠ [] := fun p hp => by
    rcases List.mem_append.1 hp with hp | hp
    · obtain ⟨buf, hbuf, rfl⟩ := List.mem_map.1 hp
      exact hpieces buf (List.mem_append_left _ hbuf)
    · rw [List.mem_singleton.1 hp]
      exact hpieces last (by simp)
  rw [hstream] at hbytes
  obtain ⟨hout, hcalls⟩ := recvLoop_stream userfunc hu msg hmsg (errStatus errcode)
    (first.map (fun buf => (buf, none))) (last, none) hnonempty hbytes
  rw [outcome_errStatus, errStatus_toNat h₁ h₂] at hout
  rw [hwhole]
  have hfirst : (recvFd true userfunc (toRecv (first.map (fun buf => (buf, none)) ++ [(last, none)]))).1
      = if last.length = 1 then .dump "message format error" else .ret errcode := hout
  have hdump : (msg.length + 1) % MAXLINE = 0 →
      (recvFd true userfunc (toRecv (first.map (fun buf => (buf, none)) ++ [(last, none)]))).1
        = .dump "message format error" := fun hzero => by rw [hfirst, if_pos (by omega)]
  refine ⟨⟨?_, fun hne => ?_⟩, hdump⟩
  · rintro ⟨hret, -⟩ hzero
    cases hret.symm.trans (hdump hzero)
  · rw [if_neg (by omega)] at hfirst
    exact ⟨hfirst, hcalls errcode hfirst⟩

theorem send_err_recv_fd_whole_short :
    ((recvFd true takesAll (whole (sendErr (fun _ => 1) true (-2) [104, 105]).2)).1 = .ret (-2) ∧
        (recvFd true takesAll (whole (sendErr (fun _ => 1) true (-2) [104, 105]).2)).2.flatten = [104, 105] ↔
      (([104, 105] : List UInt8).length + 1) % MAXLINE ≠ 0) ∧
    ((([104, 105] : List UInt8).length + 1) % MAXLINE = 0 →
      (recvFd true takesAll (whole (sendErr (fun _ => 1) true (-2) [104, 105]).2)).1 = .dump "message format error") :=
  send_err_recv_fd_whole (fun _ => 1) true (-2) (by decide) (by decide) [104, 105] (by decide) (by decide) (by decide)
    true rfl takesAll takes_takesAll

end RecvFd
end Cc
