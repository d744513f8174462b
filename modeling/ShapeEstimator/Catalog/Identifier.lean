/-
  ShapeEstimator.Catalog.Identifier
  ────────────────────────────────
  **IDENTIFIERS OF 128 BITS.**

  A shape's identifier is a version 5 UUID: the digest of its key in a fixed
  namespace, so a key always has the same identifier.  Identifiers are written
  in lower case with hyphens, and read in any case, without hyphens, in braces
  or behind `urn:uuid:` in any case too.
-/
import ShapeEstimator.Digest.Sha1
import ShapeEstimator.Json.Reader

namespace ShapeEstimator

/-! ## §1. Identifiers. -/

/-- A number of 128 bits. -/
structure Identifier where
  /-- The number. -/
  value : Nat
  /-- It has 128 bits. -/
  value_lt : value < 2 ^ 128 := by decide
  deriving DecidableEq, Repr

namespace Identifier

/-- The identifier with the low 128 bits of a number. -/
def ofNat (n : Nat) : Identifier where
  value := n % 2 ^ 128
  value_lt := Nat.mod_lt _ (by decide)

/-! ## §2. Bytes. -/

/-- The identifier of sixteen bytes, the most significant one first. -/
def ofBytes (bytes : List UInt8) : Identifier :=
  ofNat (bytes.foldl (fun n b => 256 * n + b.toNat) 0)

/-- The sixteen bytes of an identifier. -/
def bytes (x : Identifier) : List UInt8 :=
  (List.range 16).map fun i => UInt8.ofNat (x.value / 256 ^ (15 - i))

/-! ## §3. Version 5. -/

/-- The first sixteen bytes of a digest with the version and variant bits put in. -/
def stampVersion (digest : List UInt8) : List UInt8 :=
  let byte (i : Nat) : UInt8 := digest.getD i 0
  (List.range 16).map fun i =>
    if i = 6 then (byte 6 &&& 0x0F) ||| 0x50
    else if i = 8 then (byte 8 &&& 0x3F) ||| 0x80
    else byte i

/-- The identifier of a name in a namespace. -/
def ofName (space : Identifier) (name : String) : Identifier :=
  ofBytes (stampVersion (Digest.sha1 (space.bytes ++ name.toUTF8.toList)))

/-! ## §4. Text. -/

/-- The hexadecimal digits of a number, `width` of them. -/
def hexDigits (width n : Nat) : List Char :=
  (List.range width).map fun i => Nat.digitChar (n / 16 ^ (width - 1 - i) % 16)

/-- Digits with hyphens behind the eighth, twelfth, sixteenth and twentieth. -/
def hyphenated (ds : List Char) : List Char :=
  ds.take 8 ++ '-' :: (ds.drop 8).take 4 ++ '-' :: (ds.drop 12).take 4
    ++ '-' :: (ds.drop 16).take 4 ++ '-' :: ds.drop 20

/-- The identifier in lower case with hyphens. -/
def text (x : Identifier) : String := String.ofList (hyphenated (hexDigits 32 x.value))

/-- The number of a list of hexadecimal digits. -/
def ofHex? (ds : List Char) : Option Identifier :=
  (ds.mapM Json.hexValue?).map fun values => ofNat (values.foldl (fun n v => 16 * n + v) 0)

/-- The digits of a hyphenated form. -/
def withoutHyphens? (cs : List Char) : Option (List Char) :=
  let ds := cs.take 8 ++ (cs.drop 9).take 4 ++ (cs.drop 14).take 4 ++ (cs.drop 19).take 4
    ++ cs.drop 24
  if hyphenated ds = cs then some ds else none

/-- Reads an identifier in one of its four forms. -/
def ofText? (text : String) : Option Identifier :=
  let cs := text.toList
  let hyphenated? (cs : List Char) : Option Identifier :=
    if cs.length = 36 then (withoutHyphens? cs).bind ofHex? else none
  if cs.length = 32 then ofHex? cs
  else if cs.length = 36 then hyphenated? cs
  else if cs.length = 38 ∧ cs.head? = some '\x7b' ∧ cs.getLast? = some '\x7d' then
    hyphenated? ((cs.drop 1).take 36)
  else if cs.length = 45 ∧ (cs.take 9).map Char.toLower = "urn:uuid:".toList then
    hyphenated? (cs.drop 9)
  else none

end Identifier

end ShapeEstimator
