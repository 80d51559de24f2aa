import CCplusplus.Ch04DirentWalk
/-!
# Ch04DirentBounds — where the walk writes in `fullpath`

The writes of the walk are listed with the state before each of them, for any file system whose names have at most
`NAME_MAX` bytes and to any depth.  Every one is below `pathlen`, which is the size of the buffer at that point
(`myftw_writes_inside`).
-/
namespace Cc
namespace Ch04Dirent

open CLib

variable {σ : Type}

/-- `count` bytes are written from `fullpath[index]` on. -/
structure Write (σ : Type) where
  before : State σ
  index : Int
  count : Nat

/-- The write is below `pathlen`, and `fullpath` has that size. -/
structure Write.Inside (wr : Write σ) : Prop where
  size : wr.before.mem.size wr.before.fullpath.block = some wr.before.pathlen
  off : wr.before.fullpath.off = 0
  low : 0 ≤ wr.index
  high : wr.index + wr.count ≤ wr.before.pathlen

/-- What is written after a step, if it returns. -/
def after {ε α β : Type} (r : Except ε α) (writes : α → List β) : List β :=
  match r with
  | .ok a => writes a
  | .error _ => []

theorem after_ok {ε α β : Type} (a : α) (writes : α → List β) : after (.ok a : Except ε α) writes = writes a := rfl

theorem mem_after {ε α β : Type} {r : Except ε α} {writes : α → List β} {x : β} (h : x ∈ after r writes) :
    ∃ a, r = .ok a ∧ x ∈ writes a := by
  cases r with
  | ok a => exact ⟨a, rfl, h⟩
  | error e => cases h

/-- The writes of `readLoop`: each name with its NUL, and those of the calls of `dopath`. -/
def readWrites (dopath : State σ → Except (Stop × σ) (State σ × Int)) (writes : State σ → List (Write σ)) (n : Int) :
    List (List UInt8) → State σ → List (Write σ)
  | [], _ => []
  | name :: names, s =>
    if isDots name then readWrites dopath writes n names s
    else ⟨s, n, name.length + 1⟩ :: after (s.copy n name) fun s =>
      writes s ++ after (dopath s) fun (s, ret) =>
        if ret ≠ 0 then [] else readWrites dopath writes n names s

/-- The writes of `dodir`: the `'/'`, the NUL after it, the names, and the NUL in place of the `'/'`. -/
def dirWrites (sys : Sys) (dopath : State σ → Except (Stop × σ) (State σ × Int)) (writes : State σ → List (Write σ))
    (n ret : Int) (s : State σ) : List (Write σ) :=
  after (s.grow n) fun s => ⟨s, n, 1⟩ :: after (s.put n 47) fun s => ⟨s, n + 1, 1⟩ :: after (s.put (n + 1) 0) fun s =>
    after s.path fun path =>
      match sys.opendir path with
      | none => []
      | some names => readWrites dopath writes (n + 1) names s ++
          after (readLoop dopath (n + 1) names ret s) fun (s, _) => [⟨s, n + 1 - 1, 1⟩]

def dopathWrites (sys : Sys) (func : Myfunc σ) : Nat → State σ → List (Write σ)
  | 0, _ => []
  | fuel + 1, s => after s.path fun path =>
    match sys.lstat path with
    | none => []
    | some statbuf =>
      if statbuf.isDir = false then []
      else after (s.call func (some statbuf) FTW_D) fun (s, ret) =>
        if ret ≠ 0 then []
        else after s.path fun path =>
          dirWrites sys (dopath sys func fuel) (dopathWrites sys func fuel) (asInt path.length) ret s

def myftwWrites (limits : Limits) (sys : Sys) (func : Myfunc σ) (fuel : Nat) (pathname : List UInt8) (mem : Mem)
    (u : σ) : List (Write σ) :=
  after (pathAlloc limits mem u) fun s => after (s.fit pathname) fun s =>
    ⟨s, 0, pathname.length + 1⟩ :: after (s.copy 0 pathname) fun s => dopathWrites sys func fuel s

/-- The names of every directory are C strings of at most `NAME_MAX` bytes. -/
def ShortNames (sys : Sys) : Prop :=
  ∀ path names, sys.opendir path = some names → ∀ name ∈ names, name.length ≤ NAME_MAX ∧ Mem.Clean name

/-! ## How a walk of any file system ends -/

/-- A computation returns as it should, or the callback or a refusal ends the process, or the tree is deeper than the
fuel. -/
inductive Outcome (w : World) (func : Myfunc σ) (Post : State σ → Prop) :
    Except (Stop × σ) (State σ × Int) → Prop where
  | returns {s : State σ} {ret : Int} (post : Post s) : Outcome w func Post (.ok (s, ret))
  | stops {u : σ} {pathname : List UInt8} {statbuf : Option Stat} {type : Int} {e : Stop × σ}
      (h : func u pathname statbuf type = .error e) : Outcome w func Post (.error e)
  | refused {stop : Stop} {u : σ} (h : Refused w stop) : Outcome w func Post (.error (stop, u))
  | outOfFuel {u : σ} : Outcome w func Post (.error (.fault .outOfFuel, u))

theorem runCalls_error {func : Myfunc σ} : ∀ {calls : List Call} {u : σ} {e : Stop × σ},
    runCalls func calls u = .error e → ∃ u' pathname statbuf type, func u' pathname statbuf type = .error e
  | [], _, _, h => by cases h
  | c :: cs, u, e, h => by
    rw [runCalls_cons] at h
    cases hf : func u c.pathname c.statbuf c.type with
    | error e' =>
      rw [hf] at h
      cases h
      exact ⟨_, _, _, _, hf⟩
    | ok p =>
      obtain ⟨u', ret⟩ := p
      rw [hf, ok_then] at h
      dsimp only at h
      by_cases hret : ret = 0
      · rw [if_neg (not_not.2 hret)] at h
        exact runCalls_error h
      · rw [if_pos hret] at h
        cases h

section
variable {w : World} {func : Myfunc σ} {P Q : State σ → Prop} {r : Except (Stop × σ) (State σ × Int)}

theorem Walks.outcome {calls : List Call} {u : σ} (h : Walks w func calls u P r) : Outcome w func P r := by
  cases h with
  | returns _ post => exact .returns post
  | stops runs =>
    obtain ⟨_, _, _, _, hf⟩ := runCalls_error runs
    exact .stops hf
  | refused href _ _ => exact .refused href

theorem Outcome.bind (h : Outcome w func P r) {g : State σ × Int → Except (Stop × σ) (State σ × Int)}
    (hg : ∀ s ret, P s → Outcome w func Q (g (s, ret))) : Outcome w func Q (r >>= g) := by
  cases h with
  | returns post => exact hg _ _ post
  | stops h => exact .stops h
  | refused h => exact .refused h
  | outOfFuel => exact .outOfFuel

theorem Outcome.imp (h : Outcome w func P r) (hpq : ∀ s, P s → Q s) : Outcome w func Q r := by
  cases h with
  | returns post => exact .returns (hpq _ post)
  | stops h => exact .stops h
  | refused h => exact .refused h
  | outOfFuel => exact .outOfFuel

theorem Outcome.post {s : State σ} {ret : Int} (h : Outcome w func P (.ok (s, ret))) : P s := by
  cases h with
  | returns post => exact post

end

section
variable {w : World} {func : Myfunc σ}

/-- The names of a directory, when `dopath` keeps a pathname that it finds. -/
theorem readLoop_outcome {rec : State σ → Except (Stop × σ) (State σ × Int)}
    (hrec : ∀ s path, Named w s path → Outcome w func (Kept w s path) (rec s)) {dir : List UInt8} :
    ∀ (names : List (List UInt8)) (ret : Int) (s : State σ),
      (∀ name ∈ names, name.length ≤ NAME_MAX ∧ Mem.Clean name) → Roomy w s dir →
        Outcome w func (Kept w s dir) (readLoop rec dir.length names ret s)
  | [], _, s, _, h => .returns ⟨h.held, Nat.le_refl _⟩
  | name :: names, ret, s, hnames, h => by
    have hrest : ∀ n ∈ names, n.length ≤ NAME_MAX ∧ Mem.Clean n := fun n hn => hnames n (List.mem_cons_of_mem _ hn)
    unfold readLoop
    by_cases hdots : isDots name = true
    · rw [if_pos hdots]
      exact readLoop_outcome hrec names ret s hrest h
    · obtain ⟨hshort, hclean⟩ := hnames name List.mem_cons_self
      obtain ⟨s₁, hs₁, -, hnamed, hkept⟩ := h.name hshort hclean
      rw [if_neg hdots, hs₁, ok_then]
      refine (hrec s₁ _ hnamed).bind (fun s₂ ret₂ hs₂ => ?_)
      dsimp only
      by_cases hret : ret₂ = 0
      · rw [if_neg (not_not.2 hret)]
        exact (readLoop_outcome hrec names ret₂ s₂ hrest (h.kept (hkept s₂ hs₂))).imp
          (fun s₃ hs₃ => Kept.trans (hkept s₂ hs₂).2 hs₃ hs₃.1)
      · rw [if_pos hret]
        exact .returns (hkept s₂ hs₂)

/-- **`dopath` keeps the pathname that it finds**, in any file system with short names. -/
theorem dopath_outcome (hnames : ShortNames w.sys) : ∀ (fuel : Nat) (s : State σ) (path : List UInt8), Named w s path →
    Outcome w func (Kept w s path) (dopath w.sys func fuel s)
  | 0, _, _, _ => .outOfFuel
  | fuel + 1, s, path, h => by
    rw [dopath_eq h]
    cases hst : w.sys.lstat path with
    | none => exact (h.call func none FTW_NS).outcome.imp (fun s' hs' => (Kept.of_user h hs').2)
    | some statbuf =>
      dsimp only
      by_cases hdir : statbuf.isDir = false
      · rw [if_pos hdir]
        exact (h.call func (some statbuf) FTW_F).outcome.imp (fun s' hs' => (Kept.of_user h hs').2)
      rw [if_neg hdir]
      refine (h.call func (some statbuf) FTW_D).outcome.bind (fun s' ret hs' => ?_)
      obtain ⟨hnamed, hkept⟩ := Kept.of_user h hs'
      have hint := short_of_lstat hst
      dsimp only
      by_cases hret : ret = 0
      · rw [if_neg (not_not.2 hret), hnamed.path_eq, ok_then, asInt_eq (by omega) (by omega)]
        rcases @dodir_eq σ w func (dopath w.sys func fuel) s' path statbuf hnamed hint ret with
          ⟨s₁, -, hnamed₁, hroomy, hle, heq⟩ | ⟨stop, hstop, href⟩
        · rw [heq]
          cases hopen : w.sys.opendir (path ++ [47]) with
          | none =>
            refine (hnamed₁.call func (some statbuf) FTW_DNR).outcome.imp (fun s₂ hs₂ => ?_)
            have hkept₂ := (Kept.of_user hnamed₁ hs₂).2
            exact Kept.trans (Nat.le_trans hkept.2 hle) hkept₂ hkept₂.1.front
          | some names =>
            have hloop := readLoop_outcome (dopath_outcome hnames fuel) names ret s₁ (hnames _ _ hopen) hroomy
            refine hloop.bind (fun s₂ ret₂ hs₂ => ?_)
            have hfits : path.length < s₂.pathlen := by
              have := hnamed.fits
              have := hs₂.2
              omega
            dsimp only
            rcases leave_ok hs₂.1 hfits h.clean ret₂ with ⟨s₃, hs₃, -, hkept₃⟩ | ⟨stop, hstop, href⟩
            · rw [hs₃]
              exact .returns (Kept.trans (Nat.le_trans hkept.2 (Nat.le_trans hle hs₂.2)) hkept₃ hkept₃.1)
            · rw [hstop]
              exact .refused href
        · rw [hstop]
          exact .refused href
      · rw [if_pos hret]
        exact .returns hkept

/-! ## The writes -/

theorem Held.inside {s : State σ} {bytes : List UInt8} (h : Held w s bytes) {index : Int} {count : Nat}
    (h0 : 0 ≤ index) (h1 : index + count ≤ s.pathlen) : Write.Inside ⟨s, index, count⟩ := ⟨h.size, h.off, h0, h1⟩

theorem readWrites_inside {rec : State σ → Except (Stop × σ) (State σ × Int)} {writes : State σ → List (Write σ)}
    (hrec : ∀ s path, Named w s path → Outcome w func (Kept w s path) (rec s))
    (hwrites : ∀ s path, Named w s path → ∀ wr ∈ writes s, wr.Inside) {dir : List UInt8} :
    ∀ (names : List (List UInt8)) (s : State σ), (∀ name ∈ names, name.length ≤ NAME_MAX ∧ Mem.Clean name) →
      Roomy w s dir → ∀ wr ∈ readWrites rec writes dir.length names s, wr.Inside
  | [], _, _, _, wr, hwr => by cases hwr
  | name :: names, s, hnames, h, wr, hwr => by
    have hrest : ∀ n ∈ names, n.length ≤ NAME_MAX ∧ Mem.Clean n := fun n hn => hnames n (List.mem_cons_of_mem _ hn)
    have hroom := h.room
    unfold readWrites at hwr
    by_cases hdots : isDots name = true
    · rw [if_pos hdots] at hwr
      exact readWrites_inside hrec hwrites names s hrest h wr hwr
    rw [if_neg hdots] at hwr
    obtain ⟨hshort, hclean⟩ := hnames name List.mem_cons_self
    obtain ⟨s₁, hs₁, -, hnamed, hkept⟩ := h.name hshort hclean
    rcases List.mem_cons.1 hwr with rfl | hwr
    · exact h.held.inside (by omega) (by omega)
    · rw [hs₁] at hwr
      rcases List.mem_append.1 hwr with hwr | hwr
      · exact hwrites s₁ _ hnamed wr hwr
      · obtain ⟨⟨s₂, ret⟩, hs₂, hwr⟩ := mem_after hwr
        have hout := hrec s₁ _ hnamed
        rw [hs₂] at hout
        dsimp only at hwr
        by_cases hret : ret = 0
        · rw [if_neg (not_not.2 hret)] at hwr
          exact readWrites_inside hrec hwrites names s₂ hrest (h.kept (hkept s₂ hout.post)) wr hwr
        · rw [if_pos hret] at hwr
          cases hwr

theorem dirWrites_inside (hnames : ShortNames w.sys) {rec : State σ → Except (Stop × σ) (State σ × Int)}
    {writes : State σ → List (Write σ)} (hrec : ∀ s path, Named w s path → Outcome w func (Kept w s path) (rec s))
    (hwrites : ∀ s path, Named w s path → ∀ wr ∈ writes s, wr.Inside) {s : State σ} {path : List UInt8}
    (h : Named w s path) (hint : (path.length : Int) + NAME_MAX + 2 ≤ INT_MAX) (ret : Int) :
    ∀ wr ∈ dirWrites w.sys rec writes path.length ret s, wr.Inside := by
  intro wr hwr
  have hlength := length_slash path
  unfold dirWrites at hwr
  rcases h.enter hint with ⟨s₁, s₂, s₃, he⟩ | ⟨stop, hstop, -⟩
  · have hroom := he.room
    have hlen₂ := he.len₂
    rw [he.grow, after_ok] at hwr
    rcases List.mem_cons.1 hwr with rfl | hwr
    · exact he.held.inside (by omega) (by omega)
    rw [he.slash, after_ok] at hwr
    rcases List.mem_cons.1 hwr with rfl | hwr
    · exact he.slashed.inside (by omega) (by omega)
    rw [he.nul, after_ok, he.named.path_eq, after_ok] at hwr
    cases hopen : w.sys.opendir (path ++ [47]) with
    | none =>
      rw [hopen] at hwr
      cases hwr
    | some names =>
      rw [hopen, ← hlength] at hwr
      rcases List.mem_append.1 hwr with hwr | hwr
      · exact readWrites_inside hrec hwrites names s₃ (hnames _ _ hopen) he.roomy wr hwr
      · obtain ⟨⟨s₄, ret₄⟩, hs₄, hwr⟩ := mem_after hwr
        have hloop := readLoop_outcome hrec names ret s₃ (hnames _ _ hopen) he.roomy
        rw [hs₄] at hloop
        obtain ⟨hheld, hle⟩ := hloop.post
        have hroomy := he.roomy.room
        rw [List.mem_singleton.1 hwr]
        exact hheld.inside (by omega) (by omega)
  · rw [hstop] at hwr
    cases hwr

/-- **Every write of `dopath` is inside the buffer.** -/
theorem dopathWrites_inside (hnames : ShortNames w.sys) : ∀ (fuel : Nat) (s : State σ) (path : List UInt8),
    Named w s path → ∀ wr ∈ dopathWrites w.sys func fuel s, wr.Inside
  | 0, _, _, _, wr, hwr => by cases hwr
  | fuel + 1, s, path, h, wr, hwr => by
    unfold dopathWrites at hwr
    rw [h.path_eq, after_ok] at hwr
    cases hst : w.sys.lstat path with
    | none =>
      rw [hst] at hwr
      cases hwr
    | some statbuf =>
      rw [hst] at hwr
      dsimp only at hwr
      by_cases hdir : statbuf.isDir = false
      · rw [if_pos hdir] at hwr
        cases hwr
      rw [if_neg hdir] at hwr
      obtain ⟨⟨s₁, ret⟩, hs₁, hwr⟩ := mem_after hwr
      have hcall := h.call func (some statbuf) FTW_D
      rw [hs₁] at hcall
      obtain ⟨hnamed, -⟩ := Kept.of_user h hcall.outcome.post
      have hint := short_of_lstat hst
      dsimp only at hwr
      by_cases hret : ret = 0
      · rw [if_neg (not_not.2 hret), hnamed.path_eq, after_ok, asInt_eq (by omega) (by omega)] at hwr
        exact dirWrites_inside hnames (dopath_outcome hnames fuel) (dopathWrites_inside hnames fuel) hnamed hint ret wr
          hwr
      · rw [if_pos hret] at hwr
        cases hwr

theorem myftwWrites_inside (hnames : ShortNames w.sys) {mem : Mem} (hos : mem.os = w.os) {pathname : List UInt8}
    (hclean : Mem.Clean pathname) (fuel : Nat) (u : σ) :
    ∀ wr ∈ myftwWrites w.limits w.sys func fuel pathname mem u, wr.Inside := by
  intro wr hwr
  unfold myftwWrites at hwr
  rcases myftw_starts hos hclean u with ⟨s, s₁, s₂, hs⟩ | ⟨stop, -, hstop⟩
  · have hfits := hs.fits
    rw [hs.alloc, after_ok, hs.fit, after_ok, hs.copy, after_ok] at hwr
    rcases List.mem_cons.1 hwr with rfl | hwr
    · exact hs.held.inside (Int.le_refl _) (by omega)
    · exact dopathWrites_inside hnames fuel s₂ pathname hs.named wr hwr
  · obtain ⟨s, hs, hwr⟩ := mem_after hwr
    obtain ⟨s₁, hs₁, -⟩ := mem_after hwr
    have hrun := hstop pure
    rw [hs, ok_then, hs₁] at hrun
    cases hrun

theorem myftw_outcome (hnames : ShortNames w.sys) {mem : Mem} (hos : mem.os = w.os) {pathname : List UInt8}
    (hclean : Mem.Clean pathname) (fuel : Nat) (u : σ) :
    Outcome w func (fun s => Held w s pathname) (myftw w.limits w.sys func fuel pathname mem u) := by
  unfold myftw
  rcases myftw_starts hos hclean u with ⟨s, s₁, s₂, hs⟩ | ⟨stop, href, hstop⟩
  · rw [hs.alloc, ok_then, hs.fit, ok_then, hs.copy, ok_then]
    exact (dopath_outcome hnames fuel s₂ pathname hs.named).imp (fun _ hs₃ => hs₃.1)
  · rw [hstop]
    exact .refused href

end

/-- **Every write to `fullpath` is below `pathlen`, the size of the buffer then**: for any file system with names of at
most `NAME_MAX` bytes, any starting pathname and any callback, to any depth.  Nor does the walk end with a fault, unless
the callback does. -/
theorem myftw_writes_inside (limits : Limits) (sys : Sys) (func : Myfunc σ) (fuel : Nat) (pathname : List UInt8)
    (mem : Mem) (u : σ) (hclean : Mem.Clean pathname) (hnames : ShortNames sys) :
    (∀ wr ∈ myftwWrites limits sys func fuel pathname mem u, wr.Inside) ∧
      ∀ f u', myftw limits sys func fuel pathname mem u = .error (.fault f, u') → f = .outOfFuel ∨
        ∃ v path statbuf type, func v path statbuf type = .error (.fault f, u') := by
  let w : World := ⟨limits, sys, mem.os⟩
  refine ⟨myftwWrites_inside (w := w) hnames rfl hclean fuel u, fun f u' hfault => ?_⟩
  have hout : Outcome w func (fun s => Held w s pathname) (myftw limits sys func fuel pathname mem u) :=
    myftw_outcome (w := w) hnames rfl hclean fuel u
  rw [hfault] at hout
  cases hout with
  | stops h => exact .inr ⟨_, _, _, _, h⟩
  | refused h => cases h
  | outOfFuel => exact .inl rfl

theorem shortNames_small : ShortNames smallSys := by
  intro path names h
  change (if path = [100, 47] then some [[46], [102], [46, 46], [117], [120]] else none) = some names at h
  split at h
  · obtain rfl := Option.some.inj h
    decide
  · cases h

theorem myftw_writes_inside_small :
    (∀ wr ∈ myftwWrites smallLimits smallSys myfunc 2 [100] noBlocks noCounters, wr.Inside) ∧
      ∀ f u', myftw smallLimits smallSys myfunc 2 [100] noBlocks noCounters = .error (.fault f, u') → f = .outOfFuel ∨
        ∃ v path statbuf type, myfunc v path statbuf type = .error (.fault f, u') :=
  myftw_writes_inside smallLimits smallSys myfunc 2 [100] noBlocks noCounters (by decide) shortNames_small

/-- The pathname, the `'/'` and the NUL of `d`, the name `f`, the name `u` with its own `'/'` and NUL, the name `x`, and
the end of `d`. -/
example : (myftwWrites smallLimits smallSys myfunc 2 [100] noBlocks noCounters).map (fun wr => (wr.index, wr.count)) =
    [(0, 2), (1, 1), (2, 1), (2, 2), (2, 2), (3, 1), (4, 1), (2, 2), (1, 1)] := by decide

end Ch04Dirent
end Cc
