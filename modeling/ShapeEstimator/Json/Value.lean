/-
  ShapeEstimator.Json.Value
  ────────────────────────────────
  **JSON VALUES.**

  A value as it is written: numbers keep their decimal digits, and objects keep
  the order of their members and members of the same name.  A double becomes the
  number with its shortest digits; one that is not finite becomes null.

  Here a number is read to the nearest double.  That is assumed: a reader that is not
  built to round exactly rounds digits and power of ten separately,

      double (double digits · double 10^k)

  and a number of many digits may then come back as a neighbour of the nearest.  What
  is said of reading back what was written is said of a reader to the nearest double.
-/
import ShapeEstimator.Binary64.Shortest

namespace ShapeEstimator

/-! ## §1. Numbers. -/

/-- The number `± coefficient · 10 ^ exponent`. -/
structure JsonNumber where
  /-- Whether there is a minus sign. -/
  negative : Bool
  /-- The digits, those behind the point included. -/
  coefficient : Nat
  /-- The power of ten. -/
  exponent : Int
  /-- Whether the number is written without a point and without a power of ten. -/
  whole : Bool
  deriving DecidableEq, Repr

namespace JsonNumber

/-- A natural number. -/
def ofNat (n : Nat) : JsonNumber := ⟨false, n, 0, true⟩

/-- The shortest digits of a finite double.  An integer below `10 ^ 16` is given one place. -/
def ofMagnitude (negative : Bool) (x : Binary64.Magnitude) : JsonNumber :=
  let d := x.shortestDigits
  if d.exponent < 0 then ⟨negative, d.digits, d.exponent, false⟩
  else if d.digits * 10 ^ d.exponent.toNat < 10 ^ 16 then
    ⟨negative, d.digits * 10 ^ (d.exponent.toNat + 1), -1, false⟩
  else ⟨negative, d.digits, d.exponent, false⟩

/-- The nearest double, if the number is in range: the assumption about readers. -/
def toFloat? (n : JsonNumber) : Option Float :=
  let x := Binary64.ofDecimal n.negative n.coefficient n.exponent
  if x.isFinite then some x else none

/-- The natural number of at most 64 bits that is written without sign, point and power. -/
def toNat64? (n : JsonNumber) : Option Nat :=
  if n.whole && !n.negative && decide (n.coefficient < 2 ^ 64) then some n.coefficient else none

end JsonNumber

/-! ## §2. Values. -/

/-- A JSON value. -/
inductive Json where
  /-- The value null. -/
  | null
  /-- A truth value. -/
  | bool (b : Bool)
  /-- A number. -/
  | number (n : JsonNumber)
  /-- A text. -/
  | string (s : String)
  /-- What is well formed and cannot be taken: a text, or an object with a name, in which an escape
  stands for half a character, and a list or object that lies too deep. -/
  | broken
  /-- A list of values. -/
  | array (items : List Json)
  /-- Members with names. -/
  | object (members : List (String × Json))
  deriving Repr

namespace Json

instance : Inhabited Json := ⟨.null⟩

/-- A double, or null for one that is not finite. -/
def ofFloat (x : Float) : Json :=
  match Binary64.magnitude? x with
  | some m => .number (.ofMagnitude (Binary64.signBit x) m)
  | none => .null

/-- A natural number. -/
def ofNat (n : Nat) : Json := .number (.ofNat n)

/-- A list of texts. -/
def ofStrings (texts : List String) : Json := .array (texts.map .string)

/-- A value that may be absent, as null where it is. -/
def ofOption {α : Type} (encode : α → Json) : Option α → Json
  | some x => encode x
  | none => .null

/-- The member of an object with the given name, the last one of several. -/
def member? (j : Json) (name : String) : Option Json :=
  match j with
  | .object members => (members.reverse.find? fun m => m.1 == name).map (·.2)
  | _ => none

mutual

/-- Whether every text and number in a value can be read. -/
def isReadable : Json → Bool
  | .null | .bool _ | .string _ => true
  | .number n => n.toFloat?.isSome
  | .broken => false
  | .array items => allReadable items
  | .object members => allMembersReadable members

/-- Whether every value of a list can be read. -/
def allReadable : List Json → Bool
  | [] => true
  | j :: rest => j.isReadable && allReadable rest

/-- Whether every member's value can be read. -/
def allMembersReadable : List (String × Json) → Bool
  | [] => true
  | (_, j) :: rest => j.isReadable && allMembersReadable rest

end

/-! ## §3. Depth. -/

mutual

/-- The value without the lists and objects that lie deeper than the given number of levels; they
are broken. -/
def cutBelow : Nat → Json → Json
  | 0, .array _ => .broken
  | 0, .object _ => .broken
  | levels + 1, .array items => .array (itemsCutBelow levels items)
  | levels + 1, .object members => .object (membersCutBelow levels members)
  | _, j => j

/-- The values of a list, each without what lies too deep. -/
def itemsCutBelow : Nat → List Json → List Json
  | _, [] => []
  | levels, j :: rest => cutBelow levels j :: itemsCutBelow levels rest

/-- The members of an object, each value without what lies too deep. -/
def membersCutBelow : Nat → List (String × Json) → List (String × Json)
  | _, [] => []
  | levels, (name, j) :: rest => (name, cutBelow levels j) :: membersCutBelow levels rest

end

/-- How many levels of lists and objects can be taken. -/
def maxLevels : Nat := 127

end Json

end ShapeEstimator
