/-
# JSON trees

A JSON text as a tree that also holds what is wrong with the text.  A text is read up to its first
mistake; the tree then says where it stands, so that whoever goes through the tree in the order of
the text meets a mistake of content and a mistake of form in the order in which they come.

A value that nobody looks at only has to be sound: its strings and numbers need not have a value.
-/
import ApiTypings.Decimal.Shortest
import ApiTypings.Text.Quoted

namespace ApiTypings

/-- A JSON text as a tree. -/
inductive Json where
  | null
  | bool (b : Bool)
  /-- A whole number of 64 bits. -/
  | integer (n : Int)
  /-- Any other number. -/
  | float (x : Float)
  | text (s : String)
  /-- A number or string of correct form that has no value. -/
  | valueless
  /-- Items, and whether the closing bracket follows them. -/
  | array (items : List Json) (closed : Bool)
  /-- Fields, and whether the closing brace follows them.  A name of correct form without a value is
  `none`. -/
  | object (fields : List (Option String × Json)) (closed : Bool)
  /-- The first mistake of form. -/
  | broken
  deriving Inhabited

namespace Json

/-! ## Soundness -/

mutual

/-- Whether a text has no mistake of form. -/
def isSound : Json → Bool
  | null | bool _ | integer _ | float _ | text _ | valueless => true
  | array items closed => closed && areSound items
  | object fields closed => closed && haveSoundValues fields
  | broken => false

/-- Whether no item has a mistake of form. -/
def areSound : List Json → Bool
  | [] => true
  | j :: js => isSound j && areSound js

/-- Whether no field has a mistake of form. -/
def haveSoundValues : List (Option String × Json) → Bool
  | [] => true
  | (_, j) :: fields => isSound j && haveSoundValues fields

end

/-! ## Descriptions -/

/-- What a value is, as messages say it. -/
def describe : Json → String
  | null => "null"
  | bool b => "boolean `" ++ (if b then "true" else "false") ++ "`"
  | integer n => "integer `" ++ toString n ++ "`"
  | float x => "floating point `" ++ Decimal.floatText x ++ "`"
  | text s => "string " ++ Text.quoted s
  | array .. => "sequence"
  | object .. => "map"
  | valueless | broken => "nothing"

/-! ## Sorted fields -/

/-- Fields with one more field: an earlier field of that name is dropped, and the fields stay
sorted by name. -/
def insertField (name : String) (value : Json) :
    List (Option String × Json) → List (Option String × Json)
  | [] => [(some name, value)]
  | (key, old) :: fields =>
    match key with
    | none => (key, old) :: insertField name value fields
    | some other =>
      if name < other then (some name, value) :: (key, old) :: fields
      else if name = other then (some name, value) :: fields
      else (key, old) :: insertField name value fields

mutual

/-- The tree with the fields of every object sorted by name; of several fields of one name the
last one stays. -/
def sorted : Json → Json
  | array items closed => array (sortedAll items) closed
  | object fields closed => object (sortedFields fields []) closed
  | j => j

/-- The trees with the fields of every object sorted. -/
def sortedAll : List Json → List Json
  | [] => []
  | j :: js => sorted j :: sortedAll js

/-- The fields that are already sorted, with more fields put in their places. -/
def sortedFields : List (Option String × Json) → List (Option String × Json) →
    List (Option String × Json)
  | [], done => done
  | (some name, j) :: fields, done => sortedFields fields (insertField name (sorted j) done)
  | (none, _) :: fields, done => sortedFields fields done

end

/-! ## Access -/

/-- The value of a field. -/
def field? (name : String) : Json → Option Json
  | object fields _ => fields.lookup (some name)
  | _ => none

/-- The text of a string. -/
def text? : Json → Option String
  | text s => some s
  | _ => none

/-- The items of an array. -/
def items? : Json → Option (List Json)
  | array items _ => some items
  | _ => none

end Json

end ApiTypings
