import CCplusplus.Lib.Exec
import CCplusplus.Lib.Seg
import Mathlib.Logic.Relation
/-!
# Equations — `leetcode/equations.c`

`equationsPossible` keeps one link for each letter, `-1` for a letter not seen, in `eq_set[26]`; an index outside it is a
fault.  An equation is a C string, the list of its characters.  A letter is its number, `0` to `25`.
-/
namespace Cc
namespace Equations

open CLib

/-- The value of a `short`. -/
def toShort (x : Int) : Int := x.bmod 65536

/-- `*(tmp + k)`; a string ends with a NUL. -/
def charAt (tmp : List Char) (k : Nat) : Char := (tmp[k]?).getD '\x00'

/-- `c - 'a'`. -/
def letter (c : Char) : Int := (c.toNat : Int) - 97

/-- `*(equations + i)` -/
def equationAt (equations : List (List Char)) (i : Int) : Exec (List Char) :=
  if 0 ≤ i then
    match equations[i.toNat]? with
    | some tmp => .ok tmp
    | none => .error .outOfBounds
  else .error .outOfBounds

/-- `*(eq_set + x)` -/
def linkOf (eqSet : Int → Int) (x : Int) : Exec Int := if 0 ≤ x ∧ x < 26 then .ok (eqSet x) else .error .outOfBounds

def setLink (eqSet : Int → Int) (x v : Int) : Exec (Int → Int) :=
  if 0 ≤ x ∧ x < 26 then .ok (setAt eqSet x v) else .error .outOfBounds

/-- `while (*(eq_set + x) != root) { x = *(tmp + x); root = *(tmp + x); }`, from `root = -1`. -/
def findRoot (fuel : Nat) (x : Int) (eqSet : Int → Int) : Exec Int := do
  let s ← whileLoop
    (fun (x, root) => do pure (decide ((← linkOf eqSet x) ≠ root)))
    (fun (x, _) => do
      let x ← linkOf eqSet x
      let root ← linkOf eqSet x
      pure (x, root))
    fuel (x, -1)
  pure s.2

/-- The body of the first loop for one equation. -/
def unionEq (fuel : Nat) (tmp : List Char) (eqSet : Int → Int) : Exec (Int → Int) :=
  if charAt tmp 1 = '=' then do
    let j := letter (charAt tmp 0)
    let k := letter (charAt tmp 3)
    let jroot ← findRoot fuel j eqSet
    let kroot ← findRoot fuel k eqSet
    if jroot ≠ -1 then
      if kroot ≠ -1 then
        let kr ← linkOf eqSet k
        let eqSet ← setLink eqSet k jroot
        setLink eqSet kr jroot
      else setLink eqSet k jroot
    else
      if kroot ≠ -1 then setLink eqSet j kroot
      else
        let eqSet ← setLink eqSet j j
        setLink eqSet k j
  else pure eqSet

/-- The first loop, whose counter is a `short`. -/
def unionLoop (fuel : Nat) (equations : List (List Char)) (equationsSize : Int) : Exec (Int → Int) := do
  let s ← whileLoop
    (fun (i, _) => pure (decide (i < equationsSize)))
    (fun (i, eqSet) => do
      let tmp ← equationAt equations i
      let eqSet ← unionEq fuel tmp eqSet
      pure (toShort (i + 1), eqSet))
    fuel (0, fun _ => -1)
  pure s.2

/-- Whether the body of the second loop returns `false` at an equation. -/
def refutes (fuel : Nat) (tmp : List Char) (eqSet : Int → Int) : Exec Bool :=
  if charAt tmp 1 = '!' then
    let j := letter (charAt tmp 0)
    let k := letter (charAt tmp 3)
    if j = k then pure true
    else do
      let jroot ← findRoot fuel j eqSet
      let kroot ← findRoot fuel k eqSet
      pure (decide (jroot ≠ -1 ∧ jroot = kroot))
  else pure false

/-- The second loop, on its `int` counter and on whether it is still to return. -/
def checkLoop (fuel : Nat) (equations : List (List Char)) (equationsSize : Int) (eqSet : Int → Int) : Exec Bool := do
  let s ← whileLoop
    (fun (i, possible) => pure (decide (i < equationsSize) && possible))
    (fun (i, _) => do
      let tmp ← equationAt equations i
      pure (i + 1, !(← refutes fuel tmp eqSet)))
    fuel ((0 : Int), true)
  pure s.2

def equationsPossible (fuel : Nat) (equations : List (List Char)) (equationsSize : Int) : Exec Bool := do
  let eqSet ← unionLoop fuel equations equationsSize
  checkLoop fuel equations equationsSize eqSet

/-! ## What an equation says -/

def isLetter (c : Char) : Bool := decide ('a'.toNat ≤ c.toNat) && decide (c.toNat ≤ 'z'.toNat)

/-- `x==y` or `x!=y` between two letters. -/
def wellFormed (tmp : List Char) : Bool :=
  match tmp with
  | [x, c, '=', y] => isLetter x && isLetter y && (c == '=' || c == '!')
  | _ => false

/-- An assignment of values to the letters satisfies an equation. -/
def holds (v : Int → Int) (tmp : List Char) : Prop :=
  if charAt tmp 1 = '=' then v (letter (charAt tmp 0)) = v (letter (charAt tmp 3))
  else v (letter (charAt tmp 0)) ≠ v (letter (charAt tmp 3))

def Satisfiable (equations : List (List Char)) : Prop := ∃ v : Int → Int, ∀ tmp ∈ equations, holds v tmp

/-- The two letters of every equation whose second character is `c`. -/
def pairs (c : Char) (equations : List (List Char)) : List (Int × Int) :=
  (equations.filter (fun tmp => charAt tmp 1 == c)).map (fun tmp => (letter (charAt tmp 0), letter (charAt tmp 3)))

/-- Equal in the reflexive-symmetric-transitive closure of the equations between letters. -/
def Connected (eqs : List (Int × Int)) : Int → Int → Prop := Relation.EqvGen (fun x y => (x, y) ∈ eqs)

end Equations
end Cc
