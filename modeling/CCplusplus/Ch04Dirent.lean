import CCplusplus.Lib.Str
/-!
# Ch04Dirent — the directory walk of `apue/ch04/ch04_dirent.c`, with `lib/pathalloc.c`

The one buffer `fullpath` lies in memory and is read, written and resized there.  The file system answers a pathname, the
same each time; `readdir` gives the names of a directory in the order it likes, with `"."` and `".."` among them or not.
The callback has a state of its own, and may end the process.  A computation that ends the process gives the callback's
state at that point.
-/
namespace Cc
namespace Ch04Dirent

open CLib

def NAME_MAX : Nat := 255

structure Stat where
  stMode : Nat
deriving DecidableEq, Repr

def S_IFMT : Nat := 0xF000
def S_IFIFO : Nat := 0x1000
def S_IFCHR : Nat := 0x2000
def S_IFDIR : Nat := 0x4000
def S_IFBLK : Nat := 0x6000
def S_IFREG : Nat := 0x8000
def S_IFLNK : Nat := 0xA000
def S_IFSOCK : Nat := 0xC000

def Stat.fmt (st : Stat) : Nat := st.stMode &&& S_IFMT

/-- `S_ISDIR` -/
def Stat.isDir (st : Stat) : Bool := st.fmt == S_IFDIR

/-- The file system. -/
structure Sys where
  /-- `none` for `-1` -/
  lstat : List UInt8 → Option Stat
  /-- the names that `readdir` will give; `none` for `NULL` -/
  opendir : List UInt8 → Option (List (List UInt8))
  closedirFails : List UInt8 → Bool
  /-- a longer pathname is `ENAMETOOLONG` -/
  short : ∀ p, (lstat p).isSome = true → (p.length : Int) + NAME_MAX + 2 ≤ INT_MAX

/-- How the process ends. -/
inductive Stop where
  | errSys (msg : String) (args : List (List UInt8))
  | errDump (msg : String) (args : List (List UInt8))
  | fault (f : Fault)
deriving DecidableEq, Repr

def FTW_F : Int := 1
def FTW_D : Int := 2
def FTW_DNR : Int := 3
def FTW_NS : Int := 4

/-- The pathname, the `struct stat` (`none` where it is not filled in), and the type. -/
abbrev Myfunc (σ : Type) := σ → List UInt8 → Option Stat → Int → Except (Stop × σ) (σ × Int)

structure State (σ : Type) where
  mem : Mem
  fullpath : Ptr
  pathlen : Nat
  /-- the callback's own state -/
  user : σ

variable {σ : Type}

def lift {α : Type} (u : σ) : Exec α → Except (Stop × σ) α
  | .ok a => .ok a
  | .error f => .error (.fault f, u)

namespace State

/-- The string in `fullpath`. -/
def path (s : State σ) : Except (Stop × σ) (List UInt8) := lift s.user (s.mem.cString s.fullpath)

/-- `fullpath[i] = c` -/
def put (s : State σ) (i : Int) (c : UInt8) : Except (Stop × σ) (State σ) := do
  let mem ← lift s.user (s.mem.store (s.fullpath.add i) c)
  pure { s with mem }

/-- `strcpy(&fullpath[i], name)` -/
def copy (s : State σ) (i : Int) (name : List UInt8) : Except (Stop × σ) (State σ) := do
  let mem ← lift s.user (s.mem.strcpy (s.fullpath.add i) name)
  pure { s with mem }

/-- `pathlen = n`, and `fullpath` is given that size. -/
def resize (s : State σ) (n : Nat) : Except (Stop × σ) (State σ) := do
  let (q, mem) ← lift s.user (s.mem.realloc s.fullpath n)
  match q with
  | none => .error (.errSys "realloc failed" [], s.user)
  | some fullpath => pure { s with mem, fullpath, pathlen := n }

/-- The test before a `'/'` and a name are added at `n`. -/
def grow (s : State σ) (n : Int) : Except (Stop × σ) (State σ) :=
  if asSizeT (n + NAME_MAX + 2) > s.pathlen then s.resize (s.pathlen * 2) else pure s

/-- The test before `pathname` is copied. -/
def fit (s : State σ) (pathname : List UInt8) : Except (Stop × σ) (State σ) :=
  if s.pathlen ≤ pathname.length then s.resize (pathname.length * 2) else pure s

/-- `func(fullpath, &statbuf, type)` -/
def call (func : Myfunc σ) (s : State σ) (statbuf : Option Stat) (type : Int) :
    Except (Stop × σ) (State σ × Int) := do
  let pathname ← s.path
  let (user, ret) ← func s.user pathname statbuf type
  pure ({ s with user }, ret)

end State

/-- `"."` or `".."` -/
def isDots (name : List UInt8) : Bool := name == [46] || name == [46, 46]

/-- `while ((dirp = readdir(dp)) != NULL)`, for the names still to come; `ret` is the value so far. -/
def readLoop (dopath : State σ → Except (Stop × σ) (State σ × Int)) (n : Int) :
    List (List UInt8) → Int → State σ → Except (Stop × σ) (State σ × Int)
  | [], ret, s => .ok (s, ret)
  | name :: names, ret, s =>
    if isDots name then readLoop dopath n names ret s
    else do
      let s ← s.copy n name
      let (s, ret) ← dopath s
      if ret ≠ 0 then pure (s, ret) else readLoop dopath n names ret s

/-- The end of a directory that was read. -/
def leave (sys : Sys) (n : Int) (s : State σ) (ret : Int) : Except (Stop × σ) (State σ × Int) := do
  let s ← s.put (n - 1) 0
  let path ← s.path
  if sys.closedirFails path then .error (.errSys "can't close directory %s" [path], s.user) else pure (s, ret)

/-- A directory, once `n = strlen(fullpath)`. -/
def dodir (sys : Sys) (func : Myfunc σ) (dopath : State σ → Except (Stop × σ) (State σ × Int)) (statbuf : Stat)
    (n ret : Int) (s : State σ) : Except (Stop × σ) (State σ × Int) := do
  let s ← s.grow n
  let s ← s.put n 47
  let n := n + 1
  let s ← s.put n 0
  match sys.opendir (← s.path) with
  | none => s.call func (some statbuf) FTW_DNR
  | some names => do
    let (s, ret) ← readLoop dopath n names ret s
    leave sys n s ret

/-- `dopath`; the fuel bounds the depth of the recursion. -/
def dopath (sys : Sys) (func : Myfunc σ) : Nat → State σ → Except (Stop × σ) (State σ × Int)
  | 0, s => .error (.fault .outOfFuel, s.user)
  | fuel + 1, s => do
    match sys.lstat (← s.path) with
    | none => s.call func none FTW_NS
    | some statbuf =>
      if statbuf.isDir = false then s.call func (some statbuf) FTW_F
      else do
        let (s, ret) ← s.call func (some statbuf) FTW_D
        if ret ≠ 0 then pure (s, ret)
        else do
          let n := asInt (← s.path).length
          dodir sys func (dopath sys func fuel) statbuf n ret s

/-! ## `path_alloc` and `myftw` -/

/-- What the system says of itself; POSIX promises pathnames of 256 bytes. -/
structure Limits where
  /-- `PATH_MAX`, if `limits.h` defines it -/
  pathMax : Option Nat
  /-- `pathconf`: a value, or `none` if there is no limit, or an error -/
  pathconf : Except Unit (Option Nat)
  posixVersion : Int
  xsiVersion : Int
  pathMax_le : ∀ n, pathMax = some n → 256 ≤ n
  pathconf_le : ∀ n, pathconf = .ok (some n) → 256 ≤ n

def PATH_MAX_GUESS : Nat := 1024

/-- The size that `path_alloc` asks for. -/
def Limits.size (limits : Limits) (u : σ) : Except (Stop × σ) Nat := do
  let pathmax ←
    match limits.pathMax with
    | some n => pure n
    | none =>
      match limits.pathconf with
      | .ok (some n) => pure (n + 1)
      | .ok none => pure PATH_MAX_GUESS
      | .error _ => .error (.errSys "pathconf error for _PC_PATH_MAX" [], u)
  if limits.posixVersion < 200112 ∧ limits.xsiVersion < 4 then pure (pathmax + 1) else pure pathmax

/-- `path_alloc(&pathlen)`, called for the first time. -/
def pathAlloc (limits : Limits) (mem : Mem) (u : σ) : Except (Stop × σ) (State σ) := do
  let size ← limits.size u
  match mem.malloc size with
  | (none, _) => .error (.errSys "malloc error for pathname" [], u)
  | (some fullpath, mem) => pure ⟨mem, fullpath, size, u⟩

def myftw (limits : Limits) (sys : Sys) (func : Myfunc σ) (fuel : Nat) (pathname : List UInt8) (mem : Mem) (u : σ) :
    Except (Stop × σ) (State σ × Int) := do
  let s ← pathAlloc limits mem u
  let s ← s.fit pathname
  let s ← s.copy 0 pathname
  dopath sys func fuel s

/-! ## `myfunc` -/

/-- The counters, and what `err_ret` prints; no tree has more entries than a `long` counts. -/
structure Counters where
  nreg : Nat
  ndir : Nat
  nblk : Nat
  nchar : Nat
  nfifo : Nat
  nslink : Nat
  nsock : Nat
  messages : List (String × List UInt8)
deriving DecidableEq, Repr

def noCounters : Counters := ⟨0, 0, 0, 0, 0, 0, 0, []⟩

def myfunc : Myfunc Counters := fun u pathname statptr type =>
  if type = FTW_F then
    let fmt := statptr.map Stat.fmt
    if fmt = some S_IFREG then .ok ({ u with nreg := u.nreg + 1 }, 0)
    else if fmt = some S_IFBLK then .ok ({ u with nblk := u.nblk + 1 }, 0)
    else if fmt = some S_IFCHR then .ok ({ u with nchar := u.nchar + 1 }, 0)
    else if fmt = some S_IFIFO then .ok ({ u with nfifo := u.nfifo + 1 }, 0)
    else if fmt = some S_IFLNK then .ok ({ u with nslink := u.nslink + 1 }, 0)
    else if fmt = some S_IFSOCK then .ok ({ u with nsock := u.nsock + 1 }, 0)
    else if fmt = some S_IFDIR then .error (.errDump "for S_IFDIR for %s" [pathname], u)
    else .ok (u, 0)
  else if type = FTW_D then .ok ({ u with ndir := u.ndir + 1 }, 0)
  else if type = FTW_DNR then .ok ({ u with messages := u.messages ++ [("can't read directory %s", pathname)] }, 0)
  else if type = FTW_NS then .ok ({ u with messages := u.messages ++ [("stat error for %s", pathname)] }, 0)
  else .error (.errDump "unknown type %d for pathname %s" [pathname], u)

end Ch04Dirent
end Cc
