/-!
# Structured data

What cells and settings are read from: a tree of tables, lists and scalars, whatever format it was
written in. Decoding takes a tree apart and fails where the expected shape is missing.
-/

namespace Spreadsheet

/-- A tree of data. The keys of a table are distinct. -/
inductive Data where
  | null
  | boolean (value : Bool)
  | number (value : Float)
  | text (value : String)
  /-- A number or a date that is kept as it is written. -/
  | bare (word : String)
  | list (items : List Data)
  | table (entries : List (String × Data))
deriving Inhabited

namespace Data

def boolean? : Data → Option Bool
  | boolean b => some b
  | _ => none

def number? : Data → Option Float
  | number x => some x
  | _ => none

def text? : Data → Option String
  | text s => some s
  | _ => none

def list? : Data → Option (List Data)
  | list items => some items
  | _ => none

def table? : Data → Option (List (String × Data))
  | table entries => some entries
  | _ => none

/-- How a format writes what others leave open. -/
structure Dialect where
  /-- Whether a value stands for the content of a name that has none. -/
  isEmptyContent : Data → Bool
  /-- Whether a list may have more items than the record that it stands for has fields. -/
  allowsSurplus : Bool

namespace Dialect

/-- The dialect of a format with a null value. -/
def json : Dialect where
  isEmptyContent
    | null => true
    | _ => false
  allowsSurplus := false

/-- The dialect of a format without a null value: an empty list or table takes its place. -/
def toml : Dialect where
  isEmptyContent
    | list [] => true
    | table [] => true
    | _ => false
  allowsSurplus := true

end Dialect

/-- A name, written as a text or as the only key of a table without content. -/
def name? (dialect : Dialect) : Data → Option String
  | text s => some s
  | table [(s, content)] => if dialect.isEmptyContent content then some s else none
  | _ => none

/-- The fields of a record by name, some of which may be absent. A list gives them in order. Unless
they are open, there are no fields but the named ones. -/
def record? (dialect : Dialect) (isOpen : Bool) (names : List String) (data : Data) :
    Option (List (String × Data)) :=
  match data with
  | table entries => if isOpen || entries.all (names.contains ·.1) then some entries else none
  | list items =>
    if dialect.allowsSurplus || items.length ≤ names.length then some (names.zip items) else none
  | _ => none

/-- Decodes a field, which must be there. -/
def field? {α : Type} (fields : List (String × Data)) (name : String) (decode : Data → Option α) :
    Option α :=
  (fields.lookup name).bind decode

/-- Decodes a field that has a default. -/
def fieldOr? {α : Type} (fields : List (String × Data)) (name : String) (decode : Data → Option α)
    (default : α) : Option α :=
  match fields.lookup name with
  | some data => decode data
  | none => some default

end Data

end Spreadsheet
