import CCplusplus.Ch04DirentTree
/-!
# Ch04DirentWalk — the walk with one buffer makes the calls of the tree

Each level of the recursion finds the buffer beginning with its own pathname (`Named`) and leaves it so (`Held`), whatever
the levels below wrote after it and however often they resized the buffer.  A buffer that has 256 bytes is large enough
after one doubling.
-/
namespace Cc
namespace Ch04Dirent

open CLib

variable {σ : Type}

/-! ## Computations that make calls -/

theorem ok_then {ε α β : Type} (a : α) (f : α → Except ε β) : ((Except.ok a : Except ε α) >>= f) = f a := rfl

/-- What the program runs in: `os` answers its requests for memory. -/
structure World where
  limits : Limits
  sys : Sys
  os : Nat → Grant

/-- The ends of the process that are not the callback's: no memory, or a directory that does not close. -/
inductive Refused (w : World) : Stop → Prop where
  | malloc (n : Nat) (h : w.os n = .refuse) : Refused w (.errSys "malloc error for pathname" [])
  | pathconf (h : w.limits.pathconf = .error ()) : Refused w (.errSys "pathconf error for _PC_PATH_MAX" [])
  | realloc (n : Nat) (h : w.os n = .refuse) : Refused w (.errSys "realloc failed" [])
  | closedir (path : List UInt8) (h : w.sys.closedirFails path = true) :
    Refused w (.errSys "can't close directory %s" [path])

/-- The computation makes these calls, up to the first result that is not 0, and returns that result; unless the callback
or a refusal ends the process before. -/
inductive Walks (w : World) (func : Myfunc σ) (calls : List Call) (u : σ) (Post : State σ → Prop) :
    Except (Stop × σ) (State σ × Int) → Prop where
  | returns {s : State σ} {ret : Int} (runs : runCalls func calls u = .ok (s.user, ret)) (post : Post s) :
      Walks w func calls u Post (.ok (s, ret))
  | stops {e : Stop × σ} (runs : runCalls func calls u = .error e) : Walks w func calls u Post (.error e)
  | refused {stop : Stop} {u' : σ} {done rest : List Call} {ret : Int} (refused : Refused w stop)
      (calls_eq : calls = done ++ rest) (runs : runCalls func done u = .ok (u', ret)) :
      Walks w func calls u Post (.error (stop, u'))

namespace Walks

variable {w : World} {func : Myfunc σ} {xs ys : List Call} {u : σ} {P Q : State σ → Prop}
  {r : Except (Stop × σ) (State σ × Int)}

theorem imp (h : Walks w func xs u P r) (hpq : ∀ s, P s → Q s) : Walks w func xs u Q r := by
  cases h with
  | returns runs post => exact .returns runs (hpq _ post)
  | stops runs => exact .stops runs
  | refused href hcalls runs => exact .refused href hcalls runs

/-- **Calls after calls**: what comes after a result of 0 makes the others. -/
theorem andThen (h : Walks w func xs u P r) {g : Int → State σ → Except (Stop × σ) (State σ × Int)}
    (hpq : ∀ s, P s → Q s) (hg : ∀ s, P s → Walks w func ys s.user Q (g 0 s)) :
    Walks w func (xs ++ ys) u Q (do
      let (s, ret) ← r
      if ret ≠ 0 then pure (s, ret) else g ret s) := by
  cases h with
  | @returns s ret runs post =>
    show Walks w func (xs ++ ys) u Q (if ret ≠ 0 then .ok (s, ret) else g ret s)
    have happend := runCalls_append func xs ys u
    rw [runs] at happend
    by_cases hret : ret = 0
    · subst hret
      rw [if_neg (by simp)]
      have hnext := hg s post
      generalize g 0 s = next at hnext ⊢
      cases hnext with
      | @returns s' ret' runs' post' => exact .returns (happend.trans runs') post'
      | stops runs' => exact .stops (happend.trans runs')
      | @refused stop u' done rest ret' href hcalls runs' =>
        have hruns : runCalls func (xs ++ done) u = .ok (u', ret') := by
          rw [runCalls_append, runs]
          exact runs'
        exact .refused href (show xs ++ ys = (xs ++ done) ++ rest by rw [hcalls, List.append_assoc]) hruns
    · rw [if_pos hret]
      refine .returns (happend.trans ?_) (hpq s post)
      show (if ret ≠ 0 then _ else _) = _
      rw [if_pos hret]
      rfl
  | @stops e runs =>
    refine .stops ?_
    rw [runCalls_append, runs]
    rfl
  | @refused stop u' done rest ret href hcalls runs =>
    exact .refused href (by rw [hcalls, List.append_assoc]) runs

/-- What follows makes no call and keeps the result. -/
theorem finish (h : Walks w func xs u P r) {g : State σ → Int → Except (Stop × σ) (State σ × Int)}
    (hg : ∀ s ret, P s → (∃ s', g s ret = .ok (s', ret) ∧ s'.user = s.user ∧ Q s') ∨
      ∃ stop, g s ret = .error (stop, s.user) ∧ Refused w stop) :
    Walks w func xs u Q (do
      let (s, ret) ← r
      g s ret) := by
  cases h with
  | @returns s ret runs post =>
    show Walks w func xs u Q (g s ret)
    rcases hg s ret post with ⟨s', hs', huser, hq⟩ | ⟨stop, hstop, href⟩
    · rw [hs']
      exact .returns (by rw [runs, huser]) hq
    · rw [hstop]
      exact .refused href (List.append_nil xs).symm runs
  | stops runs => exact .stops runs
  | refused href hcalls runs => exact .refused href hcalls runs

theorem refusedNow {stop : Stop} (href : Refused w stop) : Walks w func xs u P (.error (stop, u)) :=
  .refused href (List.nil_append xs).symm rfl

end Walks

/-! ## The buffer -/

/-- The buffer begins with these bytes. -/
structure Held (w : World) (s : State σ) (bytes : List UInt8) : Prop where
  os : s.mem.os = w.os
  off : s.fullpath.off = 0
  size : s.mem.size s.fullpath.block = some s.pathlen
  large : 256 ≤ s.pathlen
  bytes : s.mem.At s.fullpath bytes

/-- The buffer holds this pathname. -/
structure Named (w : World) (s : State σ) (path : List UInt8) : Prop where
  held : Held w s (path ++ [0])
  fits : path.length < s.pathlen
  clean : Mem.Clean path

namespace Held

variable {w : World} {s : State σ} {bytes : List UInt8}

theorem front {more : List UInt8} (h : Held w s (bytes ++ more)) : Held w s bytes :=
  ⟨h.os, h.off, h.size, h.large, (Mem.at_append.1 h.bytes).1⟩

theorem user (h : Held w s bytes) (u : σ) : Held w { s with user := u } bytes := ⟨h.os, h.off, h.size, h.large, h.bytes⟩

/-- What is written after the bytes leaves them. -/
theorem write (h : Held w s bytes) {m : Mem} {n : Nat} {more : List UInt8}
    (hsame : Mem.SameOutside (s.fullpath.add bytes.length) n s.mem m)
    (hat : m.At (s.fullpath.add bytes.length) more) : Held w { s with mem := m } (bytes ++ more) := by
  refine ⟨hsame.os.trans h.os, h.off, (congrFun hsame.size _).trans h.size, h.large, Mem.at_append.2 ⟨?_, hat⟩⟩
  refine h.bytes.outside hsame (Mem.lt_next_of_size h.size) ((Mem.apart_iff _ _ _ _).2 (.inr (.inr ?_)))
  simp only [Ptr.add_off]
  omega

theorem put (h : Held w s bytes) (hlt : bytes.length < s.pathlen) (c : UInt8) : ∃ s', s.put bytes.length c = .ok s' ∧
    s'.user = s.user ∧ s'.pathlen = s.pathlen ∧ Held w s' (bytes ++ [c]) := by
  have hv : s.mem.valid (s.fullpath.add bytes.length) 1 = true :=
    (Mem.valid_iff _ _ _).2 ⟨s.pathlen, h.size, by simp only [Ptr.add_off, h.off]; omega,
      by simp only [Ptr.add_off, h.off]; omega⟩
  obtain ⟨m, hstore, hat, hsame⟩ := Mem.store_at hv c
  refine ⟨{ s with mem := m }, ?_, rfl, rfl, h.write hsame hat⟩
  unfold State.put
  rw [hstore]
  rfl

theorem copy (h : Held w s bytes) (name : List UInt8) (hlt : bytes.length + name.length < s.pathlen) :
    ∃ s', s.copy bytes.length name = .ok s' ∧ s'.user = s.user ∧ s'.pathlen = s.pathlen ∧
      Held w s' (bytes ++ (name ++ [0])) := by
  have hv : s.mem.valid (s.fullpath.add bytes.length) (name.length + 1) = true :=
    (Mem.valid_iff _ _ _).2 ⟨s.pathlen, h.size, by simp only [Ptr.add_off, h.off]; omega,
      by simp only [Ptr.add_off, h.off]; omega⟩
  obtain ⟨m, hcpy, hat, hsame⟩ := Mem.strcpy_ok hv
  refine ⟨{ s with mem := m }, ?_, rfl, rfl, h.write hsame hat⟩
  unfold State.copy
  rw [hcpy]
  rfl

theorem resize (h : Held w s bytes) (hlen : bytes.length ≤ s.pathlen) {n : Nat} (hn : 256 ≤ n) :
    (∃ s', s.resize n = .ok s' ∧ s'.user = s.user ∧ Held w s' bytes ∧ s'.pathlen = n) ∨
      ∃ stop, s.resize n = .error (stop, s.user) ∧ Refused w stop := by
  unfold State.resize
  rcases Mem.realloc_cases h.size h.off n with ⟨hos, m, hm⟩ | ⟨q, m, hm, hres⟩
  · rw [hm]
    exact .inr ⟨_, rfl, .realloc s.mem.next (h.os ▸ hos)⟩
  · rw [hm]
    exact .inl ⟨⟨m, q, n, s.user⟩, rfl, rfl,
      ⟨hres.os.trans h.os, hres.off, hres.new, hn, h.bytes.resized h.off hlen hres⟩, rfl⟩

end Held

namespace Named

variable {w : World} {s : State σ} {path : List UInt8}

theorem path_eq (h : Named w s path) : s.path = .ok path := by
  unfold State.path
  rw [Mem.cString_ok h.held.size h.held.off h.fits h.clean h.held.bytes]
  rfl

theorem call (h : Named w s path) (func : Myfunc σ) (statbuf : Option Stat) (type : Int) :
    Walks w func [⟨path, statbuf, type⟩] s.user (fun s' => ∃ u, s' = { s with user := u })
      (s.call func statbuf type) := by
  have hruns := runCalls_cons func ⟨path, statbuf, type⟩ [] s.user
  unfold State.call
  rw [h.path_eq]
  dsimp only [bind, Except.bind] at hruns ⊢
  cases hf : func s.user path statbuf type with
  | error e =>
    rw [hf] at hruns
    exact .stops hruns
  | ok p =>
    obtain ⟨u, ret⟩ := p
    rw [hf] at hruns
    refine .returns (hruns.trans ?_) ⟨u, rfl⟩
    by_cases hret : ret = 0
    · subst hret
      rfl
    · exact if_pos hret

/-- A buffer of 256 bytes has room for a name after one doubling. -/
theorem grow (h : Named w s path) (hint : (path.length : Int) + NAME_MAX + 2 ≤ INT_MAX) :
    (∃ s', s.grow path.length = .ok s' ∧ s'.user = s.user ∧ Held w s' path ∧
      path.length + NAME_MAX + 2 ≤ s'.pathlen ∧ s.pathlen ≤ s'.pathlen) ∨
      ∃ stop, s.grow path.length = .error (stop, s.user) ∧ Refused w stop := by
  have hlarge := h.held.large
  have hfits := h.fits
  have hsize : asSizeT ((path.length : Int) + NAME_MAX + 2) = path.length + NAME_MAX + 2 := by
    rw [asSizeT_of_nonneg (by omega) hint]
    omega
  unfold State.grow
  rw [hsize]
  split
  · rcases h.held.front.resize (Nat.le_of_lt hfits) (n := s.pathlen * 2) (by omega) with
      ⟨s', hs', huser, hheld, hlen⟩ | hrefused
    · refine .inl ⟨s', hs', huser, hheld, ?_, by omega⟩
      unfold NAME_MAX
      omega
    · exact .inr hrefused
  · exact .inl ⟨s, rfl, rfl, h.held.front, by omega, Nat.le_refl _⟩

end Named

/-! ## One directory -/

/-- The buffer holds the pathname of a directory with its `'/'`, and has room for a name. -/
structure Roomy (w : World) (s : State σ) (dir : List UInt8) : Prop where
  held : Held w s dir
  room : dir.length + NAME_MAX < s.pathlen
  clean : Mem.Clean dir

/-- The pathname is kept, in a buffer that is not smaller. -/
def Kept (w : World) (s : State σ) (path : List UInt8) (s' : State σ) : Prop := Held w s' path ∧ s.pathlen ≤ s'.pathlen

theorem Kept.trans {w : World} {s₁ s₂ s₃ : State σ} {path path' : List UInt8} (h : s₁.pathlen ≤ s₂.pathlen)
    (h' : Kept w s₂ path' s₃) (hheld : Held w s₃ path) : Kept w s₁ path s₃ := ⟨hheld, Nat.le_trans h h'.2⟩

theorem Roomy.kept {w : World} {s s' : State σ} {dir : List UInt8} (h : Roomy w s dir) (hkept : Kept w s dir s') :
    Roomy w s' dir := ⟨hkept.1, Nat.lt_of_lt_of_le h.room hkept.2, h.clean⟩

/-- **A name is added** to the pathname of a directory, and what keeps the new pathname keeps the directory's. -/
theorem Roomy.name {w : World} {s : State σ} {dir : List UInt8} (h : Roomy w s dir) {name : List UInt8}
    (hshort : name.length ≤ NAME_MAX) (hclean : Mem.Clean name) :
    ∃ s', s.copy dir.length name = .ok s' ∧ s'.user = s.user ∧ Named w s' (dir ++ name) ∧
      ∀ s'', Kept w s' (dir ++ name) s'' → Kept w s dir s'' := by
  have hroom := h.room
  obtain ⟨s', hs', huser, hlen, hheld⟩ := h.held.copy name (by omega)
  rw [← List.append_assoc] at hheld
  refine ⟨s', hs', huser, ⟨hheld, by rw [List.length_append]; omega, h.clean.append hclean⟩, fun s'' hs'' => ?_⟩
  exact .trans (Nat.le_of_eq hlen.symm) hs'' hs''.1.front

section Dir

variable {w : World} {func : Myfunc σ} (rec : State σ → Except (Stop × σ) (State σ × Int)) {s : State σ}
  {path : List UInt8}

/-- The steps of a directory up to `opendir`: the buffer grows if need be, and a `'/'` and a NUL are added. -/
structure Entered (w : World) (path : List UInt8) (s s₁ s₂ s₃ : State σ) : Prop where
  grow : s.grow path.length = .ok s₁
  slash : s₁.put path.length 47 = .ok s₂
  nul : s₂.put (path.length + 1) 0 = .ok s₃
  user : s₃.user = s.user
  held : Held w s₁ path
  room : path.length + NAME_MAX + 2 ≤ s₁.pathlen
  slashed : Held w s₂ (path ++ [47])
  len₂ : s₂.pathlen = s₁.pathlen
  named : Named w s₃ (path ++ [47])
  roomy : Roomy w s₃ (path ++ [47])
  le : s.pathlen ≤ s₃.pathlen

theorem length_slash (path : List UInt8) : ((path ++ [47]).length : Int) = path.length + 1 := by
  rw [List.length_append, List.length_singleton, Int.natCast_add]
  rfl

theorem Named.enter (h : Named w s path) (hint : (path.length : Int) + NAME_MAX + 2 ≤ INT_MAX) :
    (∃ s₁ s₂ s₃, Entered w path s s₁ s₂ s₃) ∨
      ∃ stop, s.grow path.length = .error (stop, s.user) ∧ Refused w stop := by
  rcases h.grow hint with ⟨s₁, hs₁, huser₁, hheld₁, hroom, hle⟩ | hrefused
  · left
    have hlength := length_slash path
    obtain ⟨s₂, hs₂, huser₂, hlen₂, hheld₂⟩ := hheld₁.put (by omega) 47
    obtain ⟨s₃, hs₃, huser₃, hlen₃, hheld₃⟩ := hheld₂.put (by omega) 0
    have hclean : Mem.Clean (path ++ [47]) := h.clean.append (fun c hc => by rw [List.mem_singleton.1 hc]; decide)
    rw [hlength] at hs₃
    exact ⟨s₁, s₂, s₃, hs₁, hs₂, hs₃, huser₃.trans (huser₂.trans huser₁), hheld₁, hroom, hheld₂, hlen₂,
      ⟨hheld₃, by omega, hclean⟩, ⟨hheld₃.front, by omega, hclean⟩, by omega⟩
  · exact .inr hrefused

/-- **A directory up to `opendir`**: a `'/'` is added. -/
theorem dodir_eq (statbuf : Stat) (h : Named w s path) (hint : (path.length : Int) + NAME_MAX + 2 ≤ INT_MAX)
    (ret : Int) :
    (∃ s', s'.user = s.user ∧ Named w s' (path ++ [47]) ∧ Roomy w s' (path ++ [47]) ∧ s.pathlen ≤ s'.pathlen ∧
      dodir w.sys func rec statbuf path.length ret s = match w.sys.opendir (path ++ [47]) with
        | none => s'.call func (some statbuf) FTW_DNR
        | some names => do
          let (s, ret) ← readLoop rec (path ++ [47]).length names ret s'
          leave w.sys (path ++ [47]).length s ret) ∨
      ∃ stop, dodir w.sys func rec statbuf path.length ret s = .error (stop, s.user) ∧ Refused w stop := by
  unfold dodir
  rcases h.enter hint with ⟨s₁, s₂, s₃, he⟩ | ⟨stop, hstop, href⟩
  · refine .inl ⟨s₃, he.user, he.named, he.roomy, he.le, ?_⟩
    rw [length_slash, he.grow, ok_then, he.slash, ok_then]
    dsimp only
    rw [he.nul, ok_then, he.named.path_eq]
    rfl
  · rw [hstop]
    exact .inr ⟨stop, rfl, href⟩

/-- The end of a directory cuts its `'/'` off. -/
theorem leave_ok (h : Held w s (path ++ [47])) (hfits : path.length < s.pathlen) (hclean : Mem.Clean path) (ret : Int) :
    (∃ s', leave w.sys (path ++ [47]).length s ret = .ok (s', ret) ∧ s'.user = s.user ∧ Kept w s path s') ∨
      ∃ stop, leave w.sys (path ++ [47]).length s ret = .error (stop, s.user) ∧ Refused w stop := by
  obtain ⟨s', hs', huser, hlen, hheld⟩ := h.front.put hfits 0
  have hnamed : Named w s' path := ⟨hheld, by omega, hclean⟩
  have hindex : ((path ++ [47]).length : Int) - 1 = path.length := by
    rw [List.length_append, List.length_singleton]
    omega
  unfold leave
  rw [hindex, hs']
  dsimp only [bind, Except.bind]
  rw [hnamed.path_eq, huser]
  dsimp only
  split
  · rename_i hfails
    exact .inr ⟨_, rfl, .closedir path hfails⟩
  · exact .inl ⟨s', rfl, huser, hheld.front, by omega⟩

theorem readLoop_filter (n : Int) : ∀ (names : List (List UInt8)) (ret : Int) (s : State σ),
    readLoop rec n names ret s = readLoop rec n (names.filter (fun name => !isDots name)) ret s
  | [], _, _ => rfl
  | name :: names, ret, s => by
    have ih := readLoop_filter n names
    rw [List.filter_cons]
    generalize names.filter (fun name => !isDots name) = kept at ih ⊢
    cases hdots : isDots name with
    | true =>
      simp only [readLoop, hdots, if_true]
      exact ih ret s
    | false => simp [readLoop, hdots, ih]

end Dir

/-! ## The whole tree -/

section Walk

variable {w : World} {func : Myfunc σ}

theorem Kept.of_user {s : State σ} {path : List UInt8} (h : Named w s path) {s' : State σ}
    (hs : ∃ u, s' = { s with user := u }) : Named w s' path ∧ Kept w s path s' := by
  obtain ⟨u, rfl⟩ := hs
  exact ⟨⟨h.held.user u, h.fits, h.clean⟩, h.held.front.user u, Nat.le_refl _⟩

theorem short_of_lstat {path : List UInt8} {st : Stat} (h : w.sys.lstat path = some st) :
    (path.length : Int) + NAME_MAX + 2 ≤ INT_MAX := w.sys.short path (by rw [h]; rfl)

/-- `dopath` up to what it does with a directory. -/
theorem dopath_eq {s : State σ} {path : List UInt8} (h : Named w s path) (fuel : Nat) :
    dopath w.sys func (fuel + 1) s =
      (match w.sys.lstat path with
      | none => s.call func none FTW_NS
      | some statbuf =>
        if statbuf.isDir = false then s.call func (some statbuf) FTW_F
        else do
          let (s, ret) ← s.call func (some statbuf) FTW_D
          if ret ≠ 0 then pure (s, ret)
          else do
            let n := asInt (← s.path).length
            dodir w.sys func (dopath w.sys func fuel) statbuf n ret s) := by
  rw [dopath, h.path_eq]
  rfl

/-- A directory: the call for it, and what follows. -/
theorem dopath_dir {s : State σ} {path : List UInt8} {st : Stat} {fuel : Nat} {calls : List Call} (h : Named w s path)
    (hst : w.sys.lstat path = some st) (hdir : st.isDir = true)
    (hbelow : ∀ s', Named w s' path → s'.pathlen = s.pathlen →
      Walks w func calls s'.user (Kept w s path) (dodir w.sys func (dopath w.sys func fuel) st path.length 0 s')) :
    Walks w func (⟨path, some st, FTW_D⟩ :: calls) s.user (Kept w s path) (dopath w.sys func (fuel + 1) s) := by
  rw [dopath_eq h, hst]
  dsimp only
  rw [if_neg (by rw [hdir]; simp)]
  refine (h.call func (some st) FTW_D).andThen
    (g := fun ret s => s.path >>= fun p => dodir w.sys func (dopath w.sys func fuel) st (asInt p.length) ret s)
    (fun s' hs' => (Kept.of_user h hs').2) (fun s' hs' => ?_)
  have hnamed := (Kept.of_user h hs').1
  have hint := short_of_lstat hst
  have hlen : s'.pathlen = s.pathlen := by
    obtain ⟨u, rfl⟩ := hs'
    rfl
  rw [hnamed.path_eq, ok_then, asInt_eq (by omega) (by omega)]
  exact hbelow s' hnamed hlen

mutual

/-- **`dopath` makes the calls of the tree** and keeps the pathname that it found. -/
theorem Tree.walk : ∀ (t : Tree) (fuel : Nat) (s : State σ) (path : List UInt8), t.height < fuel → Named w s path →
    t.Shown w.sys path → Walks w func (t.visits path) s.user (Kept w s path) (dopath w.sys func fuel s)
  | t, 0, _, _, hf, _, _ => absurd hf (Nat.not_lt_zero _)
  | .noStat, fuel + 1, s, path, _, h, hshown => by
    rw [dopath_eq h, show w.sys.lstat path = none from hshown]
    exact (h.call func none FTW_NS).imp (fun s' hs' => (Kept.of_user h hs').2)
  | .file st hst, fuel + 1, s, path, _, h, hshown => by
    rw [dopath_eq h, show w.sys.lstat path = some st from hshown]
    dsimp only
    rw [if_pos hst]
    exact (h.call func (some st) FTW_F).imp (fun s' hs' => (Kept.of_user h hs').2)
  | .unreadable st hst, fuel + 1, s, path, _, h, hshown => by
    refine dopath_dir h hshown.1 hst (fun s' h' hlen => ?_)
    rcases dodir_eq (dopath w.sys func fuel) st h' (short_of_lstat hshown.1) 0 with
      ⟨s₁, huser, hnamed, -, hle, heq⟩ | ⟨stop, hstop, href⟩
    · rw [heq, hshown.2, ← huser]
      refine (hnamed.call func (some st) FTW_DNR).imp (fun s₂ hs₂ => ?_)
      have hkept := (Kept.of_user hnamed hs₂).2
      exact Kept.trans (hlen ▸ hle) hkept hkept.1.front
    · rw [hstop]
      exact .refusedNow href
  | .dir st hst entries, fuel + 1, s, path, hf, h, hshown => by
    obtain ⟨hlstat, ⟨names, hopen, hnames⟩, hentries⟩ := hshown
    refine dopath_dir h hlstat hst (fun s' h' hlen => ?_)
    rcases dodir_eq (dopath w.sys func fuel) st h' (short_of_lstat hlstat) 0 with
      ⟨s₁, huser, -, hroomy, hle, heq⟩ | ⟨stop, hstop, href⟩
    · rw [heq, hopen, ← huser]
      dsimp only
      rw [readLoop_filter, hnames]
      have hloop := Forest.walk entries fuel s₁ (path ++ [47]) (Nat.lt_of_succ_lt_succ hf) hroomy hentries
      refine hloop.finish (fun s₂ ret hs₂ => ?_)
      have hfits : path.length < s₂.pathlen := by
        have := h'.fits
        have := hs₂.2
        omega
      rcases leave_ok hs₂.1 hfits h'.clean ret with ⟨s₃, hs₃, huser₃, hkept⟩ | hrefused
      · exact .inl ⟨s₃, hs₃, huser₃, Kept.trans (by have := hs₂.2; omega) hkept hkept.1⟩
      · exact .inr hrefused
    · rw [hstop]
      exact .refusedNow href

theorem Forest.walk : ∀ (f : Forest) (fuel : Nat) (s : State σ) (dir : List UInt8), f.height < fuel → Roomy w s dir →
    f.Shown w.sys dir →
      Walks w func (f.visits dir) s.user (Kept w s dir) (readLoop (dopath w.sys func fuel) dir.length f.names 0 s)
  | .nil, _, s, dir, _, h, _ => .returns rfl ⟨h.held, Nat.le_refl _⟩
  | .cons name entry rest, fuel, s, dir, hf, h, hshown => by
    obtain ⟨s₁, hs₁, huser₁, hnamed, hkept⟩ := h.name name.short name.clean
    have hentry := Tree.walk entry fuel s₁ (dir ++ name.bytes) (Nat.lt_of_le_of_lt (Nat.le_max_left _ _) hf) hnamed
      hshown.1
    unfold Forest.names Forest.visits readLoop
    rw [if_neg (by rw [name.not_dots]; simp), hs₁, ← huser₁]
    refine hentry.andThen (g := readLoop (dopath w.sys func fuel) dir.length rest.names) hkept (fun s₂ hs₂ => ?_)
    refine (Forest.walk rest fuel s₂ dir (Nat.lt_of_le_of_lt (Nat.le_max_right _ _) hf) (h.kept (hkept s₂ hs₂))
      hshown.2).imp (fun s₃ hs₃ => Kept.trans (hkept s₂ hs₂).2 hs₃ hs₃.1)

end

end Walk

/-! ## From the starting pathname -/

section Start

variable {w : World}

theorem size_large (u : σ) : (∃ n, w.limits.size u = .ok n ∧ 256 ≤ n) ∨
    ∃ stop, w.limits.size u = .error (stop, u) ∧ Refused w stop := by
  have hversion : ∀ n, 256 ≤ n → ∃ k, (if w.limits.posixVersion < 200112 ∧ w.limits.xsiVersion < 4 then
      (pure (n + 1) : Except (Stop × σ) Nat) else pure n) = .ok k ∧ 256 ≤ k := fun n hn => by
    split
    · exact ⟨n + 1, rfl, by omega⟩
    · exact ⟨n, rfl, hn⟩
  unfold Limits.size
  cases hmax : w.limits.pathMax with
  | some n => exact .inl (hversion n (w.limits.pathMax_le n hmax))
  | none =>
    cases hconf : w.limits.pathconf with
    | error e => exact .inr ⟨_, rfl, .pathconf hconf⟩
    | ok o =>
      cases o with
      | none => exact .inl (hversion PATH_MAX_GUESS (by decide))
      | some n => exact .inl (hversion (n + 1) (by have := w.limits.pathconf_le n hconf; omega))

theorem pathAlloc_held {mem : Mem} (hos : mem.os = w.os) (u : σ) :
    (∃ s, pathAlloc w.limits mem u = .ok s ∧ s.user = u ∧ Held w s []) ∨
      ∃ stop, pathAlloc w.limits mem u = .error (stop, u) ∧ Refused w stop := by
  unfold pathAlloc
  rcases size_large (w := w) u with ⟨n, hn, hlarge⟩ | ⟨stop, hstop, href⟩
  · rw [hn, ok_then]
    rcases Mem.malloc_cases mem n with ⟨hrefuse, hnull⟩ | ⟨m, hm, halloc⟩
    · rw [show mem.malloc n = (none, (mem.malloc n).2) from Prod.ext hnull rfl]
      exact .inr ⟨_, rfl, .malloc mem.next (hos ▸ hrefuse)⟩
    · rw [hm]
      exact .inl ⟨_, rfl, rfl, halloc.os.trans hos, rfl, halloc.new, hlarge, trivial⟩
  · rw [hstop]
    exact .inr ⟨stop, rfl, href⟩

/-- The starting pathname fits, in a buffer of twice its length if need be. -/
theorem Held.fit {s : State σ} (h : Held w s []) (pathname : List UInt8) :
    (∃ s', s.fit pathname = .ok s' ∧ s'.user = s.user ∧ Held w s' [] ∧ pathname.length < s'.pathlen) ∨
      ∃ stop, s.fit pathname = .error (stop, s.user) ∧ Refused w stop := by
  have hlarge := h.large
  unfold State.fit
  split
  · rcases h.resize (Nat.zero_le _) (n := pathname.length * 2) (by omega) with ⟨s', hs', huser, hheld, hlen⟩ | hrefused
    · exact .inl ⟨s', hs', huser, hheld, by omega⟩
    · exact .inr hrefused
  · exact .inl ⟨s, rfl, rfl, h, by omega⟩

/-- The steps of `myftw` before `dopath`: a buffer is asked for, grows if need be, and takes the pathname. -/
structure Started (w : World) (pathname : List UInt8) (mem : Mem) (u : σ) (s s₁ s₂ : State σ) : Prop where
  alloc : pathAlloc w.limits mem u = .ok s
  fit : s.fit pathname = .ok s₁
  copy : s₁.copy 0 pathname = .ok s₂
  user : s₂.user = u
  held : Held w s₁ []
  fits : pathname.length < s₁.pathlen
  named : Named w s₂ pathname

theorem myftw_starts {mem : Mem} (hos : mem.os = w.os) {pathname : List UInt8} (hclean : Mem.Clean pathname) (u : σ) :
    (∃ s s₁ s₂, Started w pathname mem u s s₁ s₂) ∨
      ∃ stop, Refused w stop ∧ ∀ {β : Type} (next : State σ → Except (Stop × σ) β),
        (pathAlloc w.limits mem u >>= fun s => s.fit pathname >>= next) = .error (stop, u) := by
  rcases pathAlloc_held hos u with ⟨s, hs, huser, hheld⟩ | ⟨stop, hstop, href⟩
  · rcases hheld.fit pathname with ⟨s₁, hs₁, huser₁, hheld₁, hfits⟩ | ⟨stop, hstop, href⟩
    · obtain ⟨s₂, hs₂, huser₂, hlen, hheld₂⟩ := hheld₁.copy pathname (by simpa using hfits)
      have huser₃ := huser₂.trans (huser₁.trans huser)
      exact .inl ⟨s, s₁, s₂, hs, hs₁, hs₂, huser₃, hheld₁, hfits, hheld₂, hlen ▸ hfits, hclean⟩
    · refine .inr ⟨stop, href, fun next => ?_⟩
      rw [hs, ok_then, hstop, huser]
      rfl
  · refine .inr ⟨stop, href, fun next => ?_⟩
    rw [hstop]
    rfl

/-- **`myftw` makes the calls of the tree**, whatever the callback. -/
theorem myftw_calls (func : Myfunc σ) {t : Tree} {fuel : Nat} {pathname : List UInt8} {mem : Mem}
    (hos : mem.os = w.os) (hclean : Mem.Clean pathname) (hshown : t.Shown w.sys pathname) (hf : t.height < fuel)
    (u : σ) : Walks w func (t.visits pathname) u (fun s => Held w s pathname)
      (myftw w.limits w.sys func fuel pathname mem u) := by
  unfold myftw
  rcases myftw_starts hos hclean u with ⟨s, s₁, s₂, hs⟩ | ⟨stop, href, hstop⟩
  · rw [hs.alloc, ok_then, hs.fit, ok_then, hs.copy, ok_then, ← hs.user]
    exact (Tree.walk t fuel s₂ pathname hf hs.named hshown).imp (fun s₃ hs₃ => hs₃.1)
  · rw [hstop]
    exact .refusedNow href

end Start

/-- What `myftw` does with a tree at `pathname`: for every callback its calls, and with `myfunc` the counters, unless a
refusal ends the process. -/
structure Visited (limits : Limits) (sys : Sys) (mem : Mem) (pathname : List UInt8) (t : Tree) (fuel : Nat) : Prop where
  calls : ∀ (σ : Type) (func : Myfunc σ) (u : σ), Walks ⟨limits, sys, mem.os⟩ func (t.visits pathname) u
    (fun s => Held ⟨limits, sys, mem.os⟩ s pathname) (myftw limits sys func fuel pathname mem u)
  counted : (∃ s, myftw limits sys myfunc fuel pathname mem noCounters = .ok (s, 0) ∧
      s.user.nreg = t.number S_IFREG ∧ s.user.ndir = t.number S_IFDIR ∧ s.user.nblk = t.number S_IFBLK ∧
      s.user.nchar = t.number S_IFCHR ∧ s.user.nfifo = t.number S_IFIFO ∧ s.user.nslink = t.number S_IFLNK ∧
      s.user.nsock = t.number S_IFSOCK) ∨
    ∃ stop u, myftw limits sys myfunc fuel pathname mem noCounters = .error (stop, u) ∧
      Refused ⟨limits, sys, mem.os⟩ stop

/-- **Every tree is visited**: each entry in its turn, at its own pathname. -/
theorem myftw_visits {limits : Limits} {sys : Sys} {mem : Mem} {pathname : List UInt8} {t : Tree} {fuel : Nat}
    (hclean : Mem.Clean pathname) (hshown : t.Shown sys pathname) (hf : t.height < fuel) :
    Visited limits sys mem pathname t fuel := by
  have hcalls : ∀ (σ : Type) (func : Myfunc σ) (u : σ), Walks ⟨limits, sys, mem.os⟩ func (t.visits pathname) u
      (fun s => Held ⟨limits, sys, mem.os⟩ s pathname) (myftw limits sys func fuel pathname mem u) :=
    fun σ func u => myftw_calls (w := ⟨limits, sys, mem.os⟩) func rfl hclean hshown hf u
  refine ⟨hcalls, ?_⟩
  have hwalks := hcalls Counters myfunc noCounters
  have hcounted := t.counted pathname noCounters
  generalize myftw limits sys myfunc fuel pathname mem noCounters = r at hwalks ⊢
  cases hwalks with
  | @returns s ret runs post =>
    rw [hcounted] at runs
    obtain ⟨huser, rfl⟩ := Prod.mk.inj (Except.ok.inj runs)
    refine .inl ⟨s, rfl, ?_⟩
    rw [← huser]
    simp only [Counters.plus, noCounters, Nat.zero_add, and_self]
  | stops runs =>
    rw [hcounted] at runs
    cases runs
  | refused href => exact .inr ⟨_, _, rfl, href⟩

/-! ## A small tree -/

/-- A directory `d` with a file `f`, an unreadable directory `u` and an entry `x` that `lstat` fails for. -/
def smallTree : Tree :=
  .dir ⟨S_IFDIR⟩ rfl
    (.cons ⟨[102], by decide, by decide, by decide, by decide, rfl⟩ (.file ⟨S_IFREG⟩ rfl)
      (.cons ⟨[117], by decide, by decide, by decide, by decide, rfl⟩ (.unreadable ⟨S_IFDIR⟩ rfl)
        (.cons ⟨[120], by decide, by decide, by decide, by decide, rfl⟩ .noStat .nil)))

def smallSys : Sys where
  lstat := fun p =>
    if p = [100] then some ⟨S_IFDIR⟩
    else if p = [100, 47, 102] then some ⟨S_IFREG⟩
    else if p = [100, 47, 117] then some ⟨S_IFDIR⟩
    else none
  opendir := fun p => if p = [100, 47] then some [[46], [102], [46, 46], [117], [120]] else none
  closedirFails := fun _ => false
  short := fun p h => by
    split_ifs at h with h₁ h₂ h₃
    · rw [h₁]; decide
    · rw [h₂]; decide
    · rw [h₃]; decide
    · cases h

def smallLimits : Limits := ⟨some 4096, .ok none, 200809, 700, fun n h => by cases h; decide, fun n h => by cases h⟩

def noBlocks : Mem := ⟨fun _ _ => 0, fun _ => none, 0, fun _ => .grant (fun _ => 7) false, fun _ _ => rfl⟩

theorem myftw_visits_small : Visited smallLimits smallSys noBlocks [100] smallTree 2 :=
  myftw_visits (by decide) ⟨rfl, ⟨_, rfl, rfl⟩, rfl, ⟨rfl, rfl⟩, rfl, trivial⟩ (by decide)

end Ch04Dirent
end Cc
