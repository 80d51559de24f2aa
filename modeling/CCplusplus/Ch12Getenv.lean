import CCplusplus.Lib.Str
/-!
# Ch12Getenv — `getenv` of `apue/ch12/ch12_getenv.c`

The value of a name is copied into a block of its own, from `malloc`: no thread's `key` is ever set.  A call holds
`env_mutex` from its start to its end, so the calls come one after the other; one that finds it locked does not end.

`strncpy` leaves the last byte of the block alone and ends the string only if the value is shorter than it, so the string
returned is the value exactly if it is, or if the block's last byte happens to be a NUL (`getenv_answers_iff`).
-/
namespace Cc
namespace Ch12Getenv

open CLib

def MAXSTRINGSZ : Nat := 4096

abbrev CStr := { s : List UInt8 // Mem.Clean s }

/-- `s[i]` -/
def charAt (s : List UInt8) (i : Int) : Exec UInt8 :=
  if 0 ≤ i ∧ i ≤ s.length then .ok ((s[i.toNat]?).getD 0) else .error .outOfBounds

/-- The string `&s[i]`. -/
def stringAt (s : List UInt8) (i : Int) : Exec (List UInt8) :=
  if 0 ≤ i ∧ i ≤ s.length then .ok (s.drop i.toNat) else .error .outOfBounds

/-- `strncmp(name, environ[i], len) == 0 && environ[i][len] == '='` -/
def isEntryOf (name : List UInt8) (len : Int) (entry : List UInt8) : Exec Bool :=
  if Mem.strncmp name entry (asSizeT len) = 0 then do
    let c ← charAt entry len
    pure (c == 61)
  else pure false

structure World where
  mem : Mem
  /-- `env_mutex` -/
  locked : Bool
  /-- what `key` is of a thread -/
  specific : Nat → Option Ptr

def lock (w : World) : Exec World := if w.locked then .error .outOfFuel else .ok { w with locked := true }

def unlock (w : World) : World := { w with locked := false }

/-- The loop over the entries from `i` on. -/
def getenvFrom (w : World) (envbuf : Ptr) (name : List UInt8) (len : Int) :
    List CStr → Int → Exec (World × Option Ptr)
  | [], _ => pure (unlock w, none)
  | entry :: environ, i => do
    if (← isEntryOf name len entry.val) then
      let value ← stringAt entry.val (intAdd len 1)
      let m ← w.mem.strncpy envbuf value (MAXSTRINGSZ - 1)
      pure (unlock { w with mem := m }, some envbuf)
    else if i < INT_MAX then getenvFrom w envbuf name len environ (i + 1)
    else .error .overflow

/-- A call by a thread. -/
def getenv (environ : List CStr) (thread : Nat) (name : CStr) (w : World) : Exec (World × Option Ptr) := do
  let w ← lock w
  let (envbuf, m) :=
    match w.specific thread with
    | some envbuf => (some envbuf, w.mem)
    | none => w.mem.malloc MAXSTRINGSZ
  let w := { w with mem := m }
  match envbuf with
  | none => pure (unlock w, none)
  | some envbuf => getenvFrom w envbuf name.val (asInt name.val.length) environ 0

/-- The worlds of a program that calls it, from any thread and whatever the environment then is, and does with memory
what it likes. -/
inductive Reached : World → Prop where
  | start (m : Mem) : Reached ⟨m, false, fun _ => none⟩
  | called {w w' : World} {r : Option Ptr} (environ : List CStr) (thread : Nat) (name : CStr) (h : Reached w)
      (hcall : getenv environ thread name w = .ok (w', r)) : Reached w'
  | used {w : World} (m : Mem) (h : Reached w) : Reached { w with mem := m }

/-! ## The value of a name -/

/-- The value in an entry `name=value`. -/
def valueOf (name entry : List UInt8) : Option (List UInt8) :=
  if (name ++ [61]).isPrefixOf entry then some (entry.drop (name.length + 1)) else none

/-- That in the first such entry. -/
def lookup (name : List UInt8) (environ : List CStr) : Option (List UInt8) :=
  environ.findSome? (fun entry => valueOf name entry.val)

def refused (w : World) : Bool :=
  match w.mem.os w.mem.next with
  | .refuse => true
  | .grant _ _ => false

/-- The call returns the value, truncated, or `NULL` exactly if there is none or no block, and the mutex is free. -/
def Answers (environ : List CStr) (thread : Nat) (name : CStr) (w : World) : Prop :=
  ∃ w' r, getenv environ thread name w = .ok (w', r) ∧ w'.locked = false ∧
    (r = none ↔ refused w = true ∨ lookup name.val environ = none) ∧
    ∀ p, r = some p → ∃ value, lookup name.val environ = some value ∧
      w'.mem.cString p = .ok (value.take (MAXSTRINGSZ - 1))

/-- The value is shorter than what is copied, or the byte behind that is a NUL already. -/
def Terminated (environ : List CStr) (name : CStr) (w : World) : Prop :=
  ∀ junk inPlace value, w.mem.os w.mem.next = .grant junk inPlace → lookup name.val environ = some value →
    value.length < MAXSTRINGSZ - 1 ∨ junk ((MAXSTRINGSZ - 1 : Nat) : Int) = 0

theorem valueOf_eq_some {name entry value : List UInt8} :
    valueOf name entry = some value ↔ entry = name ++ 61 :: value := by
  unfold valueOf
  constructor
  · intro h
    split at h
    · rename_i hprefix
      obtain ⟨rest, rfl⟩ := List.isPrefixOf_iff_prefix.1 hprefix
      have hdrop := Option.some.inj h
      rw [List.drop_left' (by simp)] at hdrop
      rw [hdrop, List.append_assoc]
      rfl
    · cases h
  · rintro rfl
    have hprefix : (name ++ [61]).isPrefixOf (name ++ 61 :: value) = true :=
      List.isPrefixOf_iff_prefix.2 ⟨value, by rw [List.append_assoc]; rfl⟩
    rw [if_pos hprefix, List.append_cons, List.drop_left' (by simp)]

/-! ## The loop -/

/-- **The test finds the entries of the name**, whose lengths are `int`s. -/
theorem isEntryOf_eq {name entry : List UInt8} (hname : Mem.Clean name) (hentry : Mem.Clean entry)
    (hlen : (name.length : Int) < INT_MAX) :
    isEntryOf name (asInt name.length) entry = .ok (valueOf name entry).isSome := by
  have hsize : asSizeT (asInt name.length) = name.length := by
    rw [asInt_eq (by omega) (by omega), asSizeT_of_nonneg (by omega) (by omega), Int.toNat_natCast]
  have hint : asInt name.length = name.length := asInt_eq (by omega) (by omega)
  unfold isEntryOf
  rw [hsize, hint]
  by_cases hprefix : name <+: entry
  · obtain ⟨rest, rfl⟩ := hprefix
    have hcmp : Mem.strncmp name (name ++ rest) name.length = 0 := (Mem.strncmp_eq_zero hname hentry).2 (by simp)
    have hchar : charAt (name ++ rest) name.length = .ok (rest.head?.getD 0) := by
      unfold charAt
      rw [if_pos ⟨by omega, by rw [List.length_append]; omega⟩, Int.toNat_natCast,
        List.getElem?_append_right (Nat.le_refl _), Nat.sub_self, List.head?_eq_getElem?]
    rw [if_pos hcmp, hchar]
    refine congrArg Except.ok (Bool.eq_iff_iff.2 ?_)
    rw [Option.isSome_iff_exists]
    simp only [valueOf_eq_some, List.append_cancel_left_eq, beq_iff_eq]
    cases rest with
    | nil => simp
    | cons c rest => simp
  · have hcmp : ¬ Mem.strncmp name entry name.length = 0 := fun hcmp => by
      have htake := (Mem.strncmp_eq_zero hname hentry).1 hcmp
      rw [List.take_length] at htake
      exact hprefix (List.prefix_iff_eq_take.2 htake)
    have hnone : valueOf name entry = none := by
      refine Option.eq_none_iff_forall_ne_some.2 (fun value hvalue => hprefix ?_)
      rw [valueOf_eq_some.1 hvalue]
      exact List.prefix_append name _
    rw [if_neg hcmp, hnone]
    rfl

section Loop

variable {environ : List CStr} {w : World} {envbuf : Ptr} {name : CStr}

/-- **The loop copies the value of the first entry of the name.** -/
theorem getenvFrom_eq (hlen : (name.val.length : Int) < INT_MAX) : ∀ (environ : List CStr) (i : Int),
    i + environ.length ≤ INT_MAX →
      getenvFrom w envbuf name.val (asInt name.val.length) environ i =
        match lookup name.val environ with
        | some value => do
          let m ← w.mem.strncpy envbuf value (MAXSTRINGSZ - 1)
          pure (unlock { w with mem := m }, some envbuf)
        | none => .ok (unlock w, none)
  | [], _, _ => rfl
  | entry :: environ, i, hcount => by
    rw [List.length_cons] at hcount
    have ih := getenvFrom_eq hlen environ (i + 1) (by omega)
    unfold getenvFrom lookup
    rw [isEntryOf_eq name.2 entry.2 hlen, ok_bind, List.findSome?_cons]
    cases hvalue : valueOf name.val entry.val with
    | none =>
      rw [if_neg (by decide), if_pos (by omega), ih]
      rfl
    | some value =>
      have hentry := valueOf_eq_some.1 hvalue
      have hat : stringAt entry.val (intAdd (asInt name.val.length) 1) = .ok value := by
        unfold stringAt
        rw [asInt_eq (by omega) (by omega), intAdd_eq (by omega) (by omega), hentry,
          if_pos ⟨by omega, by rw [List.length_append, List.length_cons]; omega⟩]
        refine congrArg Except.ok ?_
        rw [List.append_cons, List.drop_left']
        rw [List.length_append, List.length_singleton]
        omega
      rw [if_pos (by rfl), hat]
      rfl

/-- A call that comes back has freed the mutex, and set no thread's key. -/
theorem getenvFrom_kept (len : Int) : ∀ (environ : List CStr) (i : Int) {w' : World} {r : Option Ptr},
    getenvFrom w envbuf name.val len environ i = .ok (w', r) → w'.locked = false ∧ w'.specific = w.specific
  | [], _, _, _, h => by
    cases h
    exact ⟨rfl, rfl⟩
  | entry :: environ, i, w', r, h => by
    unfold getenvFrom at h
    cases hentry : isEntryOf name.val len entry.val with
    | error e =>
      rw [hentry] at h
      cases h
    | ok found =>
      rw [hentry, ok_bind] at h
      split at h
      · cases hvalue : stringAt entry.val (intAdd len 1) with
        | error e =>
          rw [hvalue] at h
          cases h
        | ok value =>
          rw [hvalue, ok_bind] at h
          cases hcpy : w.mem.strncpy envbuf value (MAXSTRINGSZ - 1) with
          | error e =>
            rw [hcpy] at h
            cases h
          | ok m =>
            rw [hcpy] at h
            cases h
            exact ⟨rfl, rfl⟩
      · split at h
        · exact getenvFrom_kept len environ (i + 1) h
        · cases h

end Loop

/-! ## A call -/

section Call

variable {environ : List CStr} {thread : Nat} {name : CStr} {w : World}

theorem getenv_eq (hfree : w.locked = false) (hkey : w.specific thread = none) :
    getenv environ thread name w =
      match w.mem.malloc MAXSTRINGSZ with
      | (none, m) => .ok (⟨m, false, w.specific⟩, none)
      | (some envbuf, m) =>
        getenvFrom ⟨m, true, w.specific⟩ envbuf name.val (asInt name.val.length) environ 0 := by
  unfold getenv lock
  rw [hfree, if_neg (by decide), ok_bind]
  simp only [hkey]
  cases w.mem.malloc MAXSTRINGSZ with
  | mk envbuf m =>
    cases envbuf with
    | none => rfl
    | some envbuf => rfl

/-- **The mutex is free and every thread's key is unset** between the calls. -/
theorem Reached.ready (h : Reached w) : w.locked = false ∧ ∀ thread, w.specific thread = none := by
  induction h with
  | start m => exact ⟨rfl, fun _ => rfl⟩
  | used m _ ih => exact ih
  | called environ thread name h hcall ih =>
    rw [getenv_eq ih.1 (ih.2 thread)] at hcall
    split at hcall
    · cases hcall
      exact ⟨rfl, ih.2⟩
    · obtain ⟨hfree, hkey⟩ := getenvFrom_kept _ environ 0 hcall
      exact ⟨hfree, fun t => (congrFun hkey t).trans (ih.2 t)⟩

/-- **The string in the block** is the value, truncated, exactly if something ends it. -/
theorem copied_iff {m : Mem} {envbuf : Ptr} {value : List UInt8} (hsize : m.size envbuf.block = some MAXSTRINGSZ)
    (hoff : envbuf.off = 0) (hclean : Mem.Clean value) :
    ∃ m', m.strncpy envbuf value (MAXSTRINGSZ - 1) = .ok m' ∧
      (m'.cString envbuf = .ok (value.take (MAXSTRINGSZ - 1)) ↔
        value.length < MAXSTRINGSZ - 1 ∨ m.byte envbuf.block ((MAXSTRINGSZ - 1 : Nat) : Int) = 0) := by
  have hvalid : ∀ {m : Mem} {n : Nat}, m.size envbuf.block = some MAXSTRINGSZ → n ≤ MAXSTRINGSZ →
      m.valid envbuf n = true := fun hsize hn => (Mem.valid_iff _ _ _).2 ⟨_, hsize, by omega, by omega⟩
  obtain ⟨m', hcpy, hat, hsame⟩ := Mem.strncpy_ok (s := value) (hvalid (n := MAXSTRINGSZ - 1) hsize (by decide))
  have hsize' : m'.size envbuf.block = some MAXSTRINGSZ := (congrFun hsame.size _).trans hsize
  have hbyte : m'.byte envbuf.block ((MAXSTRINGSZ - 1 : Nat) : Int) =
      m.byte envbuf.block ((MAXSTRINGSZ - 1 : Nat) : Int) := by
    refine hsame.byte _ _ (Mem.lt_next_of_size hsize) (Bool.eq_false_iff.2 (fun hin => ?_))
    rw [Mem.inside_iff, hoff] at hin
    omega
  refine ⟨m', hcpy, ?_⟩
  rcases Nat.lt_or_ge value.length (MAXSTRINGSZ - 1) with hshort | hlong
  · -- padded with NULs
    obtain ⟨t, ht⟩ := Mem.padded_of_lt hshort
    rw [ht, List.append_cons, Mem.at_append] at hat
    have hstring := Mem.cString_at (hvalid hsize' (by unfold MAXSTRINGSZ at *; omega)) hclean hat.1
    rw [List.take_of_length_le (Nat.le_of_lt hshort)]
    exact ⟨fun _ => .inl hshort, fun _ => hstring⟩
  · rw [Mem.padded_of_le hlong] at hat
    have hlen : (value.take (MAXSTRINGSZ - 1)).length = MAXSTRINGSZ - 1 := List.length_take_of_le hlong
    have hcleanTake : Mem.Clean (value.take (MAXSTRINGSZ - 1)) := fun c hc => hclean c (List.mem_of_mem_take hc)
    have hlast : Mem.At m' (envbuf.add (value.take (MAXSTRINGSZ - 1)).length)
        [m.byte envbuf.block ((MAXSTRINGSZ - 1 : Nat) : Int)] := by
      refine ⟨?_, trivial⟩
      rw [hlen, Ptr.add_block, Ptr.add_off, hoff, Int.zero_add]
      exact hbyte
    have hall := Mem.at_append.2 ⟨hat, hlast⟩
    constructor
    · intro hstring
      right
      by_contra hnul
      -- no NUL up to the end of the block
      have hcleanAll : Mem.Clean (value.take (MAXSTRINGSZ - 1) ++
          [m.byte envbuf.block ((MAXSTRINGSZ - 1 : Nat) : Int)]) := hcleanTake.append (fun c hc => by
        rw [List.mem_singleton.1 hc]
        exact hnul)
      have hend : envbuf.off + ((value.take (MAXSTRINGSZ - 1) ++
          [m.byte envbuf.block ((MAXSTRINGSZ - 1 : Nat) : Int)]).length : Nat) = (MAXSTRINGSZ : Nat) := by
        rw [List.length_append, hlen, hoff]
        rfl
      unfold Mem.cString at hstring
      rw [hsize'] at hstring
      cases (Mem.cStringFrom_unterminated hsize' hend (Int.le_of_eq hoff.symm) hcleanAll hall _).symm.trans hstring
    · intro hnul
      have hzero := hnul.resolve_left (Nat.not_lt.2 hlong)
      rw [hzero] at hall
      exact Mem.cString_at (hvalid hsize' (by rw [hlen]; decide)) hcleanTake hall

theorem clean_of_lookup {value : List UInt8} (h : lookup name.val environ = some value) : Mem.Clean value := by
  obtain ⟨entry, -, hvalue⟩ := List.exists_of_findSome?_eq_some h
  intro c hc
  refine entry.2 c ?_
  rw [valueOf_eq_some.1 hvalue]
  exact List.mem_append_right _ (List.mem_cons_of_mem _ hc)

theorem answers_iff (hfree : w.locked = false) (hkey : w.specific thread = none)
    (hlen : (name.val.length : Int) < INT_MAX) (hcount : (environ.length : Int) ≤ INT_MAX) :
    Answers environ thread name w ↔ Terminated environ name w := by
  unfold Answers Terminated refused
  rw [getenv_eq hfree hkey]
  cases hos : w.mem.os w.mem.next with
  | refuse =>
    obtain ⟨m, hnull⟩ := Mem.malloc_refuse hos MAXSTRINGSZ
    simp only [hnull]
    exact ⟨fun _ _ _ _ hgrant => (by cases hgrant), fun _ =>
      ⟨_, _, rfl, rfl, ⟨fun _ => .inl trivial, fun _ => rfl⟩, fun p hp => by cases hp⟩⟩
  | grant junk inPlace =>
    obtain ⟨m, hgrant, halloc, hjunk⟩ := Mem.malloc_grant hos MAXSTRINGSZ
    simp only [hgrant]
    rw [getenvFrom_eq hlen environ 0 (by omega)]
    cases hvalue : lookup name.val environ with
    | none =>
      refine ⟨fun _ _ _ _ _ hsome => (by cases hsome), fun _ =>
        ⟨_, _, rfl, rfl, ⟨fun _ => .inr rfl, fun _ => rfl⟩, fun p hp => by cases hp⟩⟩
    | some value =>
      have hsize : m.size (Ptr.mk w.mem.next 0).block = some MAXSTRINGSZ := halloc.new
      obtain ⟨m', hcpy, hiff⟩ := copied_iff hsize rfl (clean_of_lookup hvalue)
      rw [hjunk] at hiff
      simp only [hcpy, ok_bind]
      constructor
      · rintro ⟨w', r, hrun, -, -, hstring⟩ junk' inPlace' value' hgrant' hvalue'
        cases hgrant'
        cases hvalue'
        cases hrun
        obtain ⟨value', hvalue', hstring⟩ := hstring _ rfl
        cases hvalue'
        exact hiff.1 hstring
      · intro hend
        refine ⟨_, _, rfl, rfl, ⟨fun hnull => (by cases hnull), fun hnull => ?_⟩, fun p hp => ?_⟩
        · rcases hnull with hnull | hnull
          · cases hnull
          · cases hnull
        · cases hp
          exact ⟨value, rfl, hiff.2 (hend junk inPlace value rfl rfl)⟩

end Call

/-- **A call returns what it should exactly if something ends the string**: the value is shorter than what `strncpy`
copies, or the block that is granted happens to end with a NUL. -/
theorem getenv_answers_iff {w : World} (h : Reached w) (environ : List CStr) (thread : Nat) (name : CStr)
    (hlen : (name.val.length : Int) < INT_MAX) (hcount : (environ.length : Int) ≤ INT_MAX) :
    Answers environ thread name w ↔ Terminated environ name w :=
  answers_iff h.ready.1 (h.ready.2 thread) hlen hcount

/-- A system that grants blocks without a NUL. -/
def filled : Mem := Mem.single 1 (fun _ => 0) (fun _ => .grant (fun _ => 1) true)

/-- `AB=x` and `A=y`. -/
def twoNames : List CStr := [⟨[65, 66, 61, 120], by decide⟩, ⟨[65, 61, 121], by decide⟩]

theorem getenv_answers_twoNames :
    Answers twoNames 0 ⟨[65], by decide⟩ ⟨filled, false, fun _ => none⟩ ↔
      Terminated twoNames ⟨[65], by decide⟩ ⟨filled, false, fun _ => none⟩ :=
  getenv_answers_iff (.start filled) twoNames 0 ⟨[65], by decide⟩ (by decide) (by decide)

/-- `A=` and 4095 characters. -/
def longValue : CStr := ⟨[65, 61] ++ List.replicate 4095 120, by
  refine Mem.Clean.append (by decide) (fun c hc => ?_)
  rw [List.eq_of_mem_replicate hc]
  decide⟩

/-- **A value of 4095 characters is not ended.** -/
theorem getenv_unterminated :
    lookup [65] [longValue] = some (List.replicate 4095 120) ∧
    ¬ Answers [longValue] 0 ⟨[65], by decide⟩ ⟨filled, false, fun _ => none⟩ := by
  have hvalue : lookup [65] [longValue] = some (List.replicate 4095 120) := by
    unfold lookup
    rw [List.findSome?_cons, valueOf_eq_some.2 (show longValue.val = [65] ++ 61 :: List.replicate 4095 120 from rfl)]
  refine ⟨hvalue, fun h => ?_⟩
  rcases (answers_iff rfl rfl (by decide) (by decide)).1 h _ _ _ rfl hvalue with hshort | hnul
  · rw [List.length_replicate] at hshort
    exact absurd hshort (by decide)
  · exact absurd hnul (by decide)

end Ch12Getenv
end Cc
