import CCplusplus.Ch04Dirent
/-!
# Ch04DirentTree — a directory tree and the calls that a walk of it makes

What the walk is for, without its buffer: an entry comes before the entries below it, and those of one directory in the
order in which it gives them (`Tree.visits`).  A list of calls is made up to the first result that is not 0 (`runCalls`).
A file system shows a tree when it answers for each entry at the entry's pathname, and for a directory at its pathname
with a `'/'` (`Tree.Shown`).
-/
namespace Cc
namespace Ch04Dirent

open CLib

/-- A name in a directory. -/
structure Name where
  bytes : List UInt8
  ne_nil : bytes ≠ []
  short : bytes.length ≤ NAME_MAX
  clean : Mem.Clean bytes
  no_slash : 47 ∉ bytes
  not_dots : isDots bytes = false

mutual

/-- An entry with what is below it. -/
inductive Tree where
  /-- `lstat` fails -/
  | noStat
  | file (st : Stat) (h : st.isDir = false)
  | unreadable (st : Stat) (h : st.isDir = true)
  | dir (st : Stat) (h : st.isDir = true) (entries : Forest)

/-- The entries of a directory. -/
inductive Forest where
  | nil
  | cons (name : Name) (entry : Tree) (rest : Forest)

end

/-- One call of the callback. -/
structure Call where
  pathname : List UInt8
  statbuf : Option Stat
  type : Int
deriving DecidableEq, Repr

mutual

/-- The calls for the entry at `path` and all below it. -/
def Tree.visits (path : List UInt8) : Tree → List Call
  | .noStat => [⟨path, none, FTW_NS⟩]
  | .file st _ => [⟨path, some st, FTW_F⟩]
  | .unreadable st _ => [⟨path, some st, FTW_D⟩, ⟨path ++ [47], some st, FTW_DNR⟩]
  | .dir st _ entries => ⟨path, some st, FTW_D⟩ :: entries.visits (path ++ [47])

def Forest.visits (dir : List UInt8) : Forest → List Call
  | .nil => []
  | .cons name entry rest => entry.visits (dir ++ name.bytes) ++ rest.visits dir

end

mutual

/-- How deep the entries below go. -/
def Tree.height : Tree → Nat
  | .noStat => 0
  | .file _ _ => 0
  | .unreadable _ _ => 0
  | .dir _ _ entries => entries.height + 1

def Forest.height : Forest → Nat
  | .nil => 0
  | .cons _ entry rest => max entry.height rest.height

end

def Forest.names : Forest → List (List UInt8)
  | .nil => []
  | .cons name _ rest => name.bytes :: rest.names

mutual

/-- The file system shows the tree at `path`. -/
def Tree.Shown (sys : Sys) (path : List UInt8) : Tree → Prop
  | .noStat => sys.lstat path = none
  | .file st _ => sys.lstat path = some st
  | .unreadable st _ => sys.lstat path = some st ∧ sys.opendir (path ++ [47]) = none
  | .dir st _ entries => sys.lstat path = some st ∧
      (∃ names, sys.opendir (path ++ [47]) = some names ∧ names.filter (fun name => !isDots name) = entries.names) ∧
      entries.Shown sys (path ++ [47])

def Forest.Shown (sys : Sys) (dir : List UInt8) : Forest → Prop
  | .nil => True
  | .cons name entry rest => entry.Shown sys (dir ++ name.bytes) ∧ rest.Shown sys dir

end

mutual

/-- How many entries have that `S_IFMT` in their mode. -/
def Tree.number (fmt : Nat) : Tree → Nat
  | .noStat => 0
  | .file st _ => if st.fmt = fmt then 1 else 0
  | .unreadable st _ => if st.fmt = fmt then 1 else 0
  | .dir st _ entries => (if st.fmt = fmt then 1 else 0) + entries.number fmt

def Forest.number (fmt : Nat) : Forest → Nat
  | .nil => 0
  | .cons _ entry rest => entry.number fmt + rest.number fmt

end

variable {σ : Type} (func : Myfunc σ)

/-- The calls are made up to the first result that is not 0. -/
def runCalls : List Call → σ → Except (Stop × σ) (σ × Int)
  | [], u => .ok (u, 0)
  | c :: cs, u => do
    let (u, ret) ← func u c.pathname c.statbuf c.type
    if ret ≠ 0 then pure (u, ret) else runCalls cs u

theorem runCalls_cons (c : Call) (cs : List Call) (u : σ) : runCalls func (c :: cs) u =
    (do
      let (u, ret) ← func u c.pathname c.statbuf c.type
      if ret ≠ 0 then pure (u, ret) else runCalls func cs u) := rfl

theorem runCalls_append : ∀ (xs ys : List Call) (u : σ), runCalls func (xs ++ ys) u =
    (do
      let (u, ret) ← runCalls func xs u
      if ret ≠ 0 then pure (u, ret) else runCalls func ys u)
  | [], ys, u => rfl
  | c :: xs, ys, u => by
    rw [List.cons_append, runCalls_cons, runCalls_cons]
    cases func u c.pathname c.statbuf c.type with
    | error e => rfl
    | ok p =>
      obtain ⟨u', ret⟩ := p
      have ih := runCalls_append xs ys u'
      simp only [bind, Except.bind] at ih ⊢
      by_cases hret : ret = 0
      · simp only [hret, ne_eq, not_true_eq_false, if_false]
        exact ih
      · simp [hret, pure, Except.pure]

/-! ## What `myfunc` makes of the calls -/

mutual

/-- What `err_ret` prints for the entry at `path` and all below it. -/
def Tree.messages (path : List UInt8) : Tree → List (String × List UInt8)
  | .noStat => [("stat error for %s", path)]
  | .file _ _ => []
  | .unreadable _ _ => [("can't read directory %s", path ++ [47])]
  | .dir _ _ entries => entries.messages (path ++ [47])

def Forest.messages (dir : List UInt8) : Forest → List (String × List UInt8)
  | .nil => []
  | .cons name entry rest => entry.messages (dir ++ name.bytes) ++ rest.messages dir

end

/-- The counters after entries of which there are `number fmt` of each format. -/
def Counters.plus (u : Counters) (number : Nat → Nat) (messages : List (String × List UInt8)) : Counters where
  nreg := u.nreg + number S_IFREG
  ndir := u.ndir + number S_IFDIR
  nblk := u.nblk + number S_IFBLK
  nchar := u.nchar + number S_IFCHR
  nfifo := u.nfifo + number S_IFIFO
  nslink := u.nslink + number S_IFLNK
  nsock := u.nsock + number S_IFSOCK
  messages := u.messages ++ messages

theorem Counters.plus_plus (u : Counters) (f g : Nat → Nat) (l k : List (String × List UInt8)) :
    (u.plus f l).plus g k = u.plus (fun fmt => f fmt + g fmt) (l ++ k) := by
  simp only [Counters.plus, Nat.add_assoc, List.append_assoc]

theorem Counters.plus_zero (u : Counters) : u.plus (fun _ => 0) [] = u := by
  simp only [Counters.plus, Nat.add_zero, List.append_nil]

/-- One entry of a format. -/
def one (st : Stat) (fmt : Nat) : Nat := if st.fmt = fmt then 1 else 0

theorem myfunc_file (u : Counters) (path : List UInt8) {st : Stat} (h : st.isDir = false) :
    myfunc u path (some st) FTW_F = .ok (u.plus (one st) [], 0) := by
  have hdir : st.fmt ≠ S_IFDIR := fun he => by
    unfold Stat.isDir at h
    rw [he] at h
    cases h
  unfold myfunc
  simp only [if_true, Option.map_some, Option.some.injEq, Counters.plus, one, List.append_nil, if_neg hdir]
  -- a mode has one format
  split_ifs with h₁ h₂ h₃ h₄ h₅ h₆ <;> simp_all [S_IFREG, S_IFBLK, S_IFCHR, S_IFIFO, S_IFLNK, S_IFSOCK]

theorem myfunc_dir (u : Counters) (path : List UInt8) {st : Stat} (h : st.isDir = true) :
    myfunc u path (some st) FTW_D = .ok (u.plus (one st) [], 0) := by
  have hdir : st.fmt = S_IFDIR := eq_of_beq h
  simp [myfunc, FTW_F, FTW_D, Counters.plus, one, hdir, S_IFDIR, S_IFREG, S_IFBLK, S_IFCHR, S_IFIFO, S_IFLNK, S_IFSOCK]

/-- A call that returns 0 is followed by the others. -/
theorem runCalls_zero {func : Myfunc σ} {c : Call} {u u' : σ}
    (h : func u c.pathname c.statbuf c.type = .ok (u', 0)) (cs : List Call) :
    runCalls func (c :: cs) u = runCalls func cs u' := by
  rw [runCalls_cons, h]
  rfl

mutual

/-- **`myfunc` counts the entries of each format**, and never stops the walk. -/
theorem Tree.counted : ∀ (t : Tree) (path : List UInt8) (u : Counters),
    runCalls myfunc (t.visits path) u = .ok (u.plus (fun fmt => t.number fmt) (t.messages path), 0)
  | .noStat, path, u => rfl
  | .file st h, path, u => runCalls_zero (myfunc_file u path h) []
  | .unreadable st h, path, u => by
    refine (runCalls_zero (myfunc_dir u path h) _).trans ?_
    exact congrArg (fun v => Except.ok (v, (0 : Int))) (Counters.plus_plus u (one st) (fun _ => 0) [] _)
  | .dir st h entries, path, u => by
    refine (runCalls_zero (myfunc_dir u path h) _).trans ?_
    rw [Forest.counted entries (path ++ [47]), Counters.plus_plus]
    rfl

theorem Forest.counted : ∀ (f : Forest) (dir : List UInt8) (u : Counters),
    runCalls myfunc (f.visits dir) u = .ok (u.plus (fun fmt => f.number fmt) (f.messages dir), 0)
  | .nil, dir, u => congrArg (fun v => Except.ok (v, (0 : Int))) u.plus_zero.symm
  | .cons name entry rest, dir, u => by
    unfold Forest.visits
    rw [runCalls_append, Tree.counted entry (dir ++ name.bytes)]
    refine (Forest.counted rest dir _).trans ?_
    rw [Counters.plus_plus]
    rfl

end

end Ch04Dirent
end Cc
