import CCplusplus.MyStackRefine
/-!
# Dispose — what a list and a stack leave behind

`list_dispose` and `mystack_dispose` free one block, and it is all that is there: after `list_new` or `mystack_new`, any
calls and the disposal, the live blocks are those from before and those that the caller has asked for in between
(`list_disposes`, `stack_disposes`).  This needs nothing of the caller but that no call was a fault.
-/
namespace Cc

open CLib

/-- One block, live from its first byte on, besides the caller's, whose sizes are kept. -/
structure Owns (values : Ptr) (keep : Nat → Option Nat) (m : Mem) : Prop where
  base : values.off = 0
  live : ∃ n, m.size values.block = some n
  others : ∀ b, b ≠ values.block → m.size b = keep b
  none : keep values.block = none

/-- The caller's blocks after a request of its own. -/
def granted (m : Mem) (n : Nat) (keep : Nat → Option Nat) : Nat → Option Nat :=
  match m.os m.next with
  | .refuse => keep
  | .grant _ _ => fun b => if b = m.next then some n else keep b

namespace Owns

variable {values q : Ptr} {keep : Nat → Option Nat} {m m' : Mem} {n : Nat}

theorem malloc (h : m.malloc n = (some q, m')) : Owns q m.size m' := by
  rcases Mem.malloc_cases m n with ⟨-, hnull⟩ | ⟨m₁, hm, ha⟩
  · rw [h] at hnull
    cases hnull
  · cases h.symm.trans hm
    exact ⟨rfl, ⟨n, ha.new⟩, ha.old, m.fresh m.next (Nat.le_refl _)⟩

/-- The same blocks. -/
theorem same (h : Owns values keep m) (hsize : m'.size = m.size) : Owns values keep m' := by
  obtain ⟨n, hn⟩ := h.live
  exact ⟨h.base, ⟨n, by rw [hsize, hn]⟩, by rw [hsize]; exact h.others, h.none⟩

theorem free (h : Owns values keep m) : ∃ m', m.free values = .ok m' ∧ m'.size = keep := by
  obtain ⟨n, hn⟩ := h.live
  obtain ⟨m', hm, hsize, -⟩ := Mem.free_ok hn h.base
  refine ⟨m', hm, funext fun b => ?_⟩
  rw [hsize]
  by_cases hb : b = values.block
  · rw [if_pos hb, hb, h.none]
  · rw [if_neg hb, h.others b hb]

theorem realloc (h : Owns values keep m) (hr : m.realloc values n = .ok (some q, m')) : Owns q keep m' := by
  obtain ⟨s, hs⟩ := h.live
  have hlt := Mem.lt_next_of_size hs
  unfold Mem.realloc at hr
  split at hr
  · cases hr
  · rw [if_pos h.base] at hr
    split at hr
    · cases hr
    · -- in place
      cases hr
      refine ⟨h.base, ⟨n, if_pos rfl⟩, fun b hb => ?_, h.none⟩
      exact (if_neg hb).trans (h.others b hb)
    · -- moved
      cases hr
      refine ⟨rfl, ⟨n, if_pos rfl⟩, fun b hb => ?_, ?_⟩
      · refine (if_neg hb).trans ?_
        by_cases hold : b = values.block
        · rw [if_pos hold, hold, h.none]
        · rw [if_neg hold, h.others b hold]
      · dsimp only
        rw [← h.others m.next (by omega)]
        exact m.fresh m.next (Nat.le_refl _)

/-- The caller asks for a block of its own. -/
theorem alloc (h : Owns values keep m) (n : Nat) : Owns values (granted m n keep) (m.malloc n).2 := by
  obtain ⟨s, hs⟩ := h.live
  have hlt := Mem.lt_next_of_size hs
  unfold granted Mem.malloc
  cases m.os m.next with
  | refuse => exact h.same rfl
  | grant junk inPlace =>
    refine ⟨h.base, ⟨s, ?_⟩, fun b hb => ?_, ?_⟩
    · exact (if_neg (by omega)).trans hs
    · dsimp only
      by_cases hnew : b = m.next
      · rw [if_pos hnew, if_pos hnew]
      · rw [if_neg hnew, if_neg hnew, h.others b hb]
    · exact (if_neg (by omega)).trans h.none

end Owns

theorem memcpy_size {m m' : Mem} {dst src : Ptr} {n : Nat} (h : m.memcpy dst src n = .ok m') : m'.size = m.size := by
  unfold Mem.memcpy at h
  split at h
  · split at h
    · cases h
      rfl
    · cases h
  · cases h

theorem store_size {m m' : Mem} {p : Ptr} {v : UInt8} (h : m.store p v = .ok m') : m'.size = m.size := by
  unfold Mem.store at h
  split at h
  · cases h
    rfl
  · cases h

theorem forLoop_size {body : Int → Mem → Exec Mem} (hbody : ∀ i m m', body i m = .ok m' → m'.size = m.size) :
    ∀ (n : Nat) (i : Int) (m m' : Mem), forLoop body n i m = .ok m' → m'.size = m.size
  | 0, i, m, m', h => by
    cases h
    rfl
  | n + 1, i, m, m', h => by
    unfold forLoop at h
    cases hb : body i m with
    | error e =>
      rw [hb] at h
      cases h
    | ok m₁ =>
      rw [hb] at h
      exact (forLoop_size hbody n (i + 1) m₁ m' h).trans (hbody i m m₁ hb)

/-- What a computation that is followed by another returned. -/
theorem bind_ok {α β : Type} {x : Exec α} {f : α → Exec β} {b : β} (h : x >>= f = .ok b) : ∃ a, x = .ok a ∧ f a = .ok b := by
  cases x with
  | error e => cases h
  | ok a => exact ⟨a, rfl, h⟩

namespace MyArrayList

variable {keep : Nat → Option Nat} {m m' : Mem} {list list' : MyArrayList}

theorem listNew_owns {size elemSize : Int} (h : listNew m size elemSize = .ok (m', list')) :
    Owns list'.values m.size m' := by
  unfold listNew at h
  split at h
  · split at h
    · cases h
    · rename_i values m₁ hm
      cases h
      exact .malloc hm
  · cases h

theorem listGrow_owns (h : Owns list.values keep m) (hg : listGrow m list = .ok (m', list')) :
    Owns list'.values keep m' := by
  unfold listGrow at hg
  obtain ⟨⟨q, m₁⟩, hr, hg⟩ := bind_ok hg
  cases q with
  | none => cases hg
  | some q =>
    cases hg
    exact h.realloc hr

theorem listAdd_owns {p : Ptr} (h : Owns list.values keep m) (ha : listAdd m list p = .ok (m', list')) :
    Owns list'.values keep m' := by
  have hcopied : ∀ (m₁ : Mem) (list₁ : MyArrayList), Owns list₁.values keep m₁ →
      (do
        let m₂ ← m₁.memcpy (elemAddr list₁ list₁.currentSize) p (asSizeT list₁.elemSize)
        pure (m₂, { list₁ with currentSize := list₁.currentSize + 1 }) : Exec (Mem × MyArrayList)) = .ok (m', list') →
      Owns list'.values keep m' := by
    intro m₁ list₁ h₁ ha
    obtain ⟨m₂, hcopy, ha⟩ := bind_ok ha
    cases ha
    exact h₁.same (memcpy_size hcopy)
  unfold listAdd at ha
  by_cases hfull : list.currentSize = list.size
  · rw [if_pos hfull] at ha
    obtain ⟨⟨m₁, list₁⟩, hgrow, ha⟩ := bind_ok ha
    exact hcopied m₁ list₁ (listGrow_owns h hgrow) ha
  · rw [if_neg hfull] at ha
    exact hcopied m list h ha

theorem listRemove_owns {index r : Int} (h : Owns list.values keep m)
    (hr : listRemove m list index = .ok (m', list', r)) : Owns list'.values keep m' := by
  unfold listRemove at hr
  split at hr
  · obtain ⟨m₁, hloop, hr⟩ := bind_ok hr
    cases hr
    refine h.same (forLoop_size (fun i m m' hturn => ?_) _ _ _ _ hloop)
    unfold removeTurn at hturn
    split at hturn
    · cases hturn
      rfl
    · exact memcpy_size hturn
  · cases hr

/-- The caller's blocks after a call. -/
def Call.asks (m : Mem) (keep : Nat → Option Nat) : Call → Nat → Option Nat
  | .alloc n => granted m n keep
  | _ => keep

/-- The caller's blocks at the end of a run. -/
def callers {elemSize : Nat} (cmpfn : CmpFn elemSize) :
    List Call → Mem × MyArrayList → (Nat → Option Nat) → Nat → Option Nat
  | [], _, keep => keep
  | c :: calls, s, keep =>
    match step cmpfn c s with
    | .ok (s', _) => callers cmpfn calls s' (c.asks s.1 keep)
    | .error _ => keep

theorem step_owns {elemSize : Nat} {cmpfn : CmpFn elemSize} {c : Call} {e : Option (Event elemSize)}
    (h : Owns list.values keep m) (hs : step cmpfn c (m, list) = .ok ((m', list'), e)) :
    Owns list'.values (c.asks m keep) m' := by
  cases c with
  | add p =>
    obtain ⟨⟨m₁, list₁⟩, hadd, hs⟩ := bind_ok hs
    cases hs
    exact listAdd_owns h hadd
  | remove index =>
    obtain ⟨⟨m₁, list₁, r⟩, hrem, hs⟩ := bind_ok hs
    cases hs
    exact listRemove_owns h hrem
  | removeVal p =>
    obtain ⟨⟨m₁, list₁, r⟩, hrem, hs⟩ := bind_ok hs
    cases hs
    unfold listRemoveVal at hrem
    obtain ⟨index, -, hrem⟩ := bind_ok hrem
    split at hrem
    · cases hrem
      exact h
    · exact listRemove_owns h hrem
  | contain p =>
    obtain ⟨r, -, hs⟩ := bind_ok hs
    cases hs
    exact h
  | get index =>
    obtain ⟨p, -, hs⟩ := bind_ok hs
    split at hs
    · cases hs
      exact h
    · cases hs
  | store p v =>
    obtain ⟨m₁, hstore, hs⟩ := bind_ok hs
    cases hs
    exact h.same (store_size hstore)
  | alloc n =>
    cases hs
    exact h.alloc n

theorem run_owns {elemSize : Nat} {cmpfn : CmpFn elemSize} : ∀ (calls : List Call) (s s' : Mem × MyArrayList)
    (es : List (Event elemSize)) (keep : Nat → Option Nat), Owns s.2.values keep s.1 →
    run cmpfn calls s = .ok (s', es) → Owns s'.2.values (callers cmpfn calls s keep) s'.1
  | [], s, s', es, keep, h, hr => by
    cases hr
    exact h
  | c :: calls, s, s', es, keep, h, hr => by
    unfold run at hr
    obtain ⟨⟨s₁, e⟩, hs, hr⟩ := bind_ok hr
    obtain ⟨⟨s₂, es₁⟩, hrest, hr⟩ := bind_ok hr
    cases hr
    unfold callers
    rw [hs]
    exact run_owns calls s₁ s' es₁ _ (step_owns h hs) hrest

end MyArrayList

/-- **A list that is disposed of leaves the caller's blocks**: `list_dispose` is never a fault after calls that were none,
and what is live then is what was live before `list_new` and what the caller has been granted since. -/
theorem list_disposes {elemSize : Nat} (cmpfn : CmpFn elemSize) (m : Mem) (size elem : Int) (m₀ : Mem) (list₀ : MyArrayList)
    (hnew : MyArrayList.listNew m size elem = .ok (m₀, list₀)) (calls : List MyArrayList.Call) (m' : Mem)
    (list' : MyArrayList) (es : List (MyArrayList.Event elemSize))
    (hrun : MyArrayList.run cmpfn calls (m₀, list₀) = .ok ((m', list'), es)) :
    ∃ m'', MyArrayList.listDispose m' list' = .ok m'' ∧
      m''.size = MyArrayList.callers cmpfn calls (m₀, list₀) m.size :=
  (MyArrayList.run_owns calls (m₀, list₀) (m', list') es m.size (MyArrayList.listNew_owns hnew) hrun).free

/-- Two elements added to a list of one slot, which is then disposed of. -/
theorem list_disposes_two : ∃ m₀ list₀ m' list' es m'',
    MyArrayList.listNew MyArrayList.callerMem 1 2 = .ok (m₀, list₀) ∧
    MyArrayList.run MyArrayList.cmpBytes [.add ⟨0, 0⟩, .add ⟨0, 2⟩] (m₀, list₀) = .ok ((m', list'), es) ∧
    MyArrayList.listDispose m' list' = .ok m'' ∧ m''.size = MyArrayList.callerMem.size := by
  obtain ⟨m'', hdispose, hsize⟩ := list_disposes MyArrayList.cmpBytes MyArrayList.callerMem 1 2 _ _ rfl
    [.add ⟨0, 0⟩, .add ⟨0, 2⟩] _ _ _ rfl
  exact ⟨_, _, _, _, _, m'', rfl, rfl, hdispose, hsize⟩

namespace MyStack

variable {keep : Nat → Option Nat} {m m' : Mem} {s s' : MyStack}

theorem mystackNew_owns {elemSize : Int} (h : mystackNew m elemSize = .ok (m', s')) : Owns s'.elems m.size m' := by
  rw [mystackNew_eq] at h
  obtain ⟨⟨m₁, list⟩, hnew, h⟩ := bind_ok h
  cases h
  exact MyArrayList.listNew_owns hnew

theorem mystackPush_owns {p : Ptr} (h : Owns s.elems keep m) (hp : mystackPush m s p = .ok (m', s')) :
    Owns s'.elems keep m' := by
  rw [mystackPush_eq] at hp
  obtain ⟨⟨m₁, list⟩, hadd, hp⟩ := bind_ok hp
  cases hp
  have hown : Owns s.asList.values keep m := h
  exact MyArrayList.listAdd_owns hown hadd

theorem mystackPop_owns {p : Ptr} (h : Owns s.elems keep m) (hp : mystackPop m s p = .ok (m', s')) :
    Owns s'.elems keep m' := by
  unfold mystackPop at hp
  obtain ⟨m₁, hcopy, hp⟩ := bind_ok hp
  cases hp
  exact h.same (memcpy_size hcopy)

/-- The caller's blocks after a call. -/
def Call.asks (m : Mem) (keep : Nat → Option Nat) : Call → Nat → Option Nat
  | .alloc n => granted m n keep
  | _ => keep

/-- The caller's blocks at the end of a run. -/
def callers (elemSize : Nat) : List Call → Mem × MyStack → (Nat → Option Nat) → Nat → Option Nat
  | [], _, keep => keep
  | c :: calls, t, keep =>
    match step elemSize c t with
    | .ok (t', _) => callers elemSize calls t' (c.asks t.1 keep)
    | .error _ => keep

theorem step_owns {elemSize : Nat} {c : Call} {e : Option (Event (Elem elemSize))} (h : Owns s.elems keep m)
    (hs : step elemSize c (m, s) = .ok ((m', s'), e)) :
    Owns s'.elems (c.asks m keep) m' := by
  cases c with
  | push p =>
    obtain ⟨⟨m₁, s₁⟩, hpush, hs⟩ := bind_ok hs
    cases hs
    exact mystackPush_owns h hpush
  | pop p =>
    obtain ⟨⟨m₁, s₁⟩, hpop, hs⟩ := bind_ok hs
    cases hs
    exact mystackPop_owns h hpop
  | store p v =>
    obtain ⟨m₁, hstore, hs⟩ := bind_ok hs
    cases hs
    exact h.same (store_size hstore)
  | alloc n =>
    cases hs
    exact h.alloc n

theorem run_owns {elemSize : Nat} : ∀ (calls : List Call) (t t' : Mem × MyStack) (es : List (Event (Elem elemSize)))
    (keep : Nat → Option Nat), Owns t.2.elems keep t.1 → run elemSize calls t = .ok (t', es) →
    Owns t'.2.elems (callers elemSize calls t keep) t'.1
  | [], t, t', es, keep, h, hr => by
    cases hr
    exact h
  | c :: calls, t, t', es, keep, h, hr => by
    unfold run at hr
    obtain ⟨⟨t₁, e⟩, hs, hr⟩ := bind_ok hr
    obtain ⟨⟨t₂, es₁⟩, hrest, hr⟩ := bind_ok hr
    cases hr
    unfold callers
    rw [hs]
    exact run_owns calls t₁ t' es₁ _ (step_owns h hs) hrest

end MyStack

/-- **A stack that is disposed of leaves the caller's blocks**, also after pops of an empty one that were no faults. -/
theorem stack_disposes (elemSize : Nat) (m : Mem) (elem : Int) (m₀ : Mem) (s₀ : MyStack)
    (hnew : MyStack.mystackNew m elem = .ok (m₀, s₀)) (calls : List MyStack.Call) (m' : Mem) (s' : MyStack)
    (es : List (MyStack.Event (Elem elemSize))) (hrun : MyStack.run elemSize calls (m₀, s₀) = .ok ((m', s'), es)) :
    ∃ m'', MyStack.mystackDispose m' s' = .ok m'' ∧ m''.size = MyStack.callers elemSize calls (m₀, s₀) m.size :=
  (MyStack.run_owns calls (m₀, s₀) (m', s') es m.size (MyStack.mystackNew_owns hnew) hrun).free

/-- A push and a pop, and the stack is disposed of. -/
theorem stack_disposes_two : ∃ m₀ s₀ m' s' es m'',
    MyStack.mystackNew MyStack.callerMem 2 = .ok (m₀, s₀) ∧
    MyStack.run 2 [.push ⟨0, 0⟩, .pop ⟨0, 4⟩] (m₀, s₀) = .ok ((m', s'), es) ∧
    MyStack.mystackDispose m' s' = .ok m'' ∧ m''.size = MyStack.callerMem.size := by
  obtain ⟨m'', hdispose, hsize⟩ := stack_disposes 2 MyStack.callerMem 2 _ _ rfl [.push ⟨0, 0⟩, .pop ⟨0, 4⟩] _ _ _ rfl
  exact ⟨_, _, _, _, _, m'', rfl, rfl, hdispose, hsize⟩

end Cc
