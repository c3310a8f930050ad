/-
# Reading records

Records are read from trees in the order of the text, so the first mistake is the one reported.  A
record is an object with named fields, or an array of its fields in their order.  Unknown fields
only have to be sound; a field may come once; a field that is absent keeps its default.

What differs between the sources of a tree is small: what stands beside the name of a variant, and
what becomes of items behind the last field of a record.
-/
import ApiTypings.Record.Error

namespace ApiTypings

/-- Where a tree comes from. -/
inductive Origin where
  /-- A JSON text, read as far as it is in order. -/
  | text
  /-- A complete JSON value. -/
  | value
  /-- A settings file. -/
  | settings
  deriving DecidableEq

/-- The result of reading. -/
abbrev Reading (α : Type) := Except RecordError α

namespace Reading

/-! ## Single values -/

/-- The mistake that a value of another kind is. -/
def mistaken (j : Json) (expected : Expected) : RecordError :=
  match j with
  | .broken | .valueless => .malformed
  | j => .wrongType j.describe expected

/-- A string. -/
def string : Json → Reading String
  | .text s => .ok s
  | j => .error (mistaken j .string)

/-- A boolean. -/
def boolean : Json → Reading Bool
  | .bool b => .ok b
  | j => .error (mistaken j .boolean)

/-- A value that `null` stands in for. -/
def optional {α : Type} (read : Json → Reading α) : Json → Reading (Option α)
  | .null => .ok none
  | j => (read j).map some

/-- A list. -/
def list {α : Type} (read : Json → Reading α) : Json → Reading (List α)
  | .array items closed => do
    let values ← items.mapM read
    if closed then return values else .error .malformed
  | j => .error (mistaken j .sequence)

/-- Whatever stands there, if it is sound. -/
def anything (j : Json) : Reading Unit := if j.isSound then .ok () else .error .malformed

/-! ## Variants -/

/-- The variant of a name. -/
def variantNamed {α : Type} (variants : List (String × α)) (name : String) : Reading α :=
  match variants.lookup name with
  | some a => .ok a
  | none => .error (.unknownVariant name (variants.map (·.1)))

/-- Nothing, as a source writes it beside the name of a variant. -/
def nothing (origin : Origin) (j : Json) : Reading Unit :=
  match origin, j with
  | .settings, .array [] true => .ok ()
  | .settings, .object [] true => .ok ()
  | .settings, j => .error (mistaken j .unit)
  | _, .null => .ok ()
  | _, j => .error (mistaken j .unit)

/-- The variant of an object in a text: the one field is read before it is known that no other
field follows. -/
def variantInText {α : Type} (variants : List (String × α))
    (fields : List (Option String × Json)) (closed : Bool) : Reading α :=
  match fields with
  | (some name, j) :: others => do
    let a ← variantNamed variants name
    nothing .text j
    if others.isEmpty && closed then return a else .error .malformed
  | _ => .error .malformed

/-- One of some variants, given by a string or by an object with its name. -/
def variant {α : Type} (origin : Origin) (variants : List (String × α)) (j : Json) : Reading α :=
  match origin, j with
  | _, .text name => variantNamed variants name
  | .text, .object fields closed => variantInText variants fields closed
  | .text, _ => .error .malformed
  | origin, .object [(some name, j)] true => do
    let a ← variantNamed variants name
    nothing origin j
    return a
  | _, .object .. => .error .notOneKey
  | _, j => .error (mistaken j .stringOrMap)

end Reading

/-! ## Records -/

/-- A field of a record. -/
structure Field (α : Type) where
  name : String
  /-- Another name of the field. -/
  otherName : Option String := none
  /-- Whether the field has no default. -/
  required : Bool := false
  /-- The record with the field read from a tree. -/
  put : α → Json → Reading α

/-- A kind of record: its title, its fields in their order, and the record of all defaults. -/
structure RecordKind (α : Type) where
  title : String
  fields : List (Field α)
  blank : α

namespace Field

/-- A field with a reader and a place in the record. -/
def of {α β : Type} (name : String) (read : Json → Reading β) (set : α → β → α) : Field α where
  name := name
  put a j := (read j).map (set a)

/-- A field without a default. -/
def needed {α β : Type} (name : String) (read : Json → Reading β) (set : α → β → α) : Field α :=
  { of name read set with required := true }

/-- Whether a name belongs to the field. -/
def isNamed {α : Type} (f : Field α) (name : String) : Bool :=
  f.name == name || f.otherName == some name

end Field

namespace RecordKind

variable {α : Type}

/-- The record after its fields were read in the order of the text, and the names of the fields
that came. -/
def readFields (k : RecordKind α) (seen : List String) (a : α) :
    List (Option String × Json) → Reading (α × List String)
  | [] => .ok (a, seen)
  | (none, _) :: _ => .error .malformed
  | (some name, j) :: rest =>
    match k.fields.find? (·.isNamed name) with
    | none => do
      Reading.anything j
      k.readFields seen a rest
    | some f =>
      if f.name ∈ seen then .error (.duplicateField f.name)
      else do
        let a ← f.put a j
        k.readFields (f.name :: seen) a rest

/-- The record of an object: after the last field every needed field has to be there. -/
def ofObject (k : RecordKind α) (fields : List (Option String × Json)) (closed : Bool) :
    Reading α := do
  let (a, seen) ← k.readFields [] k.blank fields
  if !closed then throw .malformed
  match k.fields.find? (fun f => f.required && !seen.contains f.name) with
  | some f => throw (.missingField f.name)
  | none => return a

/-- The record with fields read from items in order, the items that are left, and the fields that
are left. -/
def readItems (a : α) : List (Field α) → List Json → Reading (α × List (Field α) × List Json)
  | [], items => .ok (a, [], items)
  | fields, [] => .ok (a, fields, [])
  | f :: fields, j :: items => do
    let a ← f.put a j
    readItems a fields items

/-- The record of an array: its items are the fields in their order, and fields at the end may be
absent if they have defaults. -/
def ofArray (k : RecordKind α) (origin : Origin) (items : List Json) (closed : Bool) :
    Reading α := do
  let (a, fields, left) ← readItems k.blank k.fields items
  if !closed && left.isEmpty then throw .malformed
  match fields.findIdx? (·.required) with
  | some i => throw (.tooShort (items.length + i) k.title k.fields.length)
  | none =>
    match origin with
    | .text => if left.isEmpty then return a else throw .malformed
    | .value => if left.isEmpty then return a else throw (.tooLong items.length)
    | .settings => return a

/-- The record that a tree holds. -/
def read (k : RecordKind α) (origin : Origin) : Json → Reading α
  | .object fields closed => k.ofObject fields closed
  | .array items closed => k.ofArray origin items closed
  | j => .error (Reading.mistaken j (.record k.title))

end RecordKind

end ApiTypings
