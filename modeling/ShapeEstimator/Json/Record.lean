/-
  ShapeEstimator.Json.Record
  ────────────────────────────────
  **RECORDS AS JSON.**

  A record is an object whose members are its fields, or a list of the fields in
  order.  A field given twice is refused, a member that is no field is ignored.
  An optional field may be absent or null; a field with a default may be absent.

  A tagged record is one of several kinds: the member with the tag says which.
-/
import ShapeEstimator.Json.Value
import ShapeEstimator.NameMap

namespace ShapeEstimator.Json

/-! ## §1. Plain values. -/

/-- A text. -/
def string? : Json → Option String
  | .string s => some s
  | _ => none

/-- A truth value. -/
def bool? : Json → Option Bool
  | .bool b => some b
  | _ => none

/-- A number that is in range of a double. -/
def float? : Json → Option Float
  | .number n => n.toFloat?
  | _ => none

/-- A natural number of 64 bits. -/
def nat64? : Json → Option Nat
  | .number n => n.toNat64?
  | _ => none

/-- A list whose items all decode. -/
def list? {α : Type} (decode : Json → Option α) : Json → Option (List α)
  | .array items => items.mapM decode
  | _ => none

/-- A list of texts. -/
def strings? : Json → Option (List String) := list? string?

/-- An object whose members all decode; of several members of one name the last counts. -/
def map? {α : Type} (decode : Json → Option α) : Json → Option (NameMap α)
  | .object members =>
    (members.mapM fun m => (decode m.2).map fun x => (m.1, x)).map NameMap.ofList
  | _ => none

/-- The object of a map. -/
def ofMap {α : Type} (encode : α → Json) (m : NameMap α) : Json :=
  .object (m.entries.map fun e => (e.1, encode e.2))

/-- One of a list of names: the name as a text, or as the only member of an object, with null. -/
def choice? {α : Type} (names : List (String × α)) : Json → Option α
  | .string s => names.lookup s
  | .object [(s, .null)] => names.lookup s
  | _ => none

/-- One of a list of names inside a tagged record: behind the name there may also be an object
without members. -/
def taggedChoice? {α : Type} (names : List (String × α)) : Json → Option α
  | .object [(s, .object [])] => names.lookup s
  | j => choice? names j

/-- A table over a list of names: an object whose members all have one of the names and decode. -/
def table? {κ α : Type} [BEq κ] (names : List (String × κ)) (decode : Json → Option α) :
    Json → Option (κ → Option α)
  | .object members =>
    (members.mapM fun m =>
      (names.lookup m.1).bind fun k => (decode m.2).map fun x => (k, x)).map
      fun entries k => entries.reverse.lookup k
  | _ => none

/-- The object of a table over a list of keys. -/
def ofTable {κ α : Type} (keys : List κ) (name : κ → String) (encode : α → Json)
    (table : κ → Option α) : Json :=
  .object (keys.filterMap fun k => (table k).map fun x => (name k, encode x))

/-! ## §2. Records. -/

/-- The given fields of a record. -/
structure Record where
  /-- The fields with their values, each at most once. -/
  fields : List (String × Json)

namespace Record

/-- The fields of an object: its members with a name of a field, none given twice. -/
def ofMembers? (names : List String) (members : List (String × Json)) : Option Record :=
  let known := members.filter fun m => decide (m.1 ∈ names)
  if (known.map (·.1)).Nodup then some ⟨known⟩ else none

/-- The fields of a list, in the order of their names, none beyond them. -/
def ofItems? (names : List String) (items : List Json) : Option Record :=
  if items.length ≤ names.length then some ⟨names.zip items⟩ else none

/-- The fields of a value that is an object or a list. -/
def ofJson? (names : List String) : Json → Option Record
  | .object members => ofMembers? names members
  | .array items => ofItems? names items
  | _ => none

/-- A field that must be given. -/
def required {α : Type} (r : Record) (name : String) (decode : Json → Option α) : Option α :=
  (r.fields.lookup name).bind decode

/-- A field that may be absent or null. -/
def optional {α : Type} (r : Record) (name : String) (decode : Json → Option α) :
    Option (Option α) :=
  match r.fields.lookup name with
  | none => some none
  | some .null => some none
  | some j => (decode j).map some

/-- A field that has a value of its own when it is absent. -/
def withDefault {α : Type} (r : Record) (name : String) (default : α) (decode : Json → Option α) :
    Option α :=
  match r.fields.lookup name with
  | none => some default
  | some j => decode j

end Record

/-! ## §3. Tagged records. -/

/-- The value of the tag and the value without it: the tag is a member of an object, given once, or
the first item of a list.  Everything in the value must be readable. -/
def splitTag? (tag : String) (j : Json) : Option (Json × Json) :=
  if !j.isReadable then none
  else
    match j with
    | .object members =>
      match members.filter (fun m => m.1 == tag) with
      | [(_, value)] => some (value, .object (members.filter fun m => m.1 != tag))
      | _ => none
    | .array (value :: items) => some (value, .array items)
    | _ => none

/-- How a tag may be given. -/
inductive TagForm where
  /-- By a name. -/
  | name
  /-- By a name, or by its place among the names, counted from zero. -/
  | nameOrPlace
  deriving DecidableEq, Repr

/-- The name that a tag stands for. -/
def TagForm.name? (form : TagForm) (names : List String) : Json → Option String
  | .string s => some s
  | .number n =>
    match form with
    | .name => none
    | .nameOrPlace => n.toNat64?.bind fun place => names[place]?
  | _ => none

/-- Members of an object, without those whose value is absent. -/
def members (given : List (String × Option Json)) : List (String × Json) :=
  given.filterMap fun m => m.2.map fun j => (m.1, j)

/-- The object with the given fields, without those whose value is absent. -/
def ofFields (given : List (String × Option Json)) : Json := .object (members given)

end ShapeEstimator.Json
