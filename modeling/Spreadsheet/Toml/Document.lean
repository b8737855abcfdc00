import Spreadsheet.Toml.Date
import Spreadsheet.Toml.Tables

/-!
# TOML documents

A document is a sequence of lines with headers and with keys and their values. Values are strings,
booleans, numbers, dates, arrays and inline tables. `read?` yields the data of a document, in which
numbers and dates are kept as they are written, since no setting is one.
-/

namespace Spreadsheet.Toml

mutual

/-- Reads a value at the front. No more than `steps` readings follow one another, and no more than
`depth` arrays and inline tables are nested. -/
def value? : (steps depth : Nat) → List Char → Option (Data × List Char)
  | 0, _, _ => none
  | _ + 1, _, 't' :: 'r' :: 'u' :: 'e' :: rest => some (.boolean true, rest)
  | _ + 1, _, 'f' :: 'a' :: 'l' :: 's' :: 'e' :: rest => some (.boolean false, rest)
  | steps + 1, depth + 1, '[' :: rest => items? steps depth [] rest
  | steps + 1, depth + 1, '\x7b' :: rest =>
    match skipSpaces rest with
    | '\x7d' :: rest => some (.table [], rest)
    | rest => entries? steps depth {} rest
  | _ + 1, _, cs =>
    match string? cs with
    | some (s, rest) => some (.text s, rest)
    | none => (bare? cs).map fun (word, rest) => (.bare word, rest)

/-- Reads the items of an array after the first ones, the last one first, up to its end. A comma may
follow the last item. -/
def items? : (steps depth : Nat) → (items : List Data) → List Char → Option (Data × List Char)
  | 0, _, _, _ => none
  | steps + 1, depth, items, cs =>
    match skipBlank cs with
    | ']' :: rest => some (.list items.reverse, rest)
    | cs =>
      match value? steps depth cs with
      | none => none
      | some (item, rest) =>
        match skipBlank rest with
        | ',' :: rest => items? steps depth (item :: items) rest
        | ']' :: rest => some (.list (item :: items).reverse, rest)
        | _ => none

/-- Reads the entries of an inline table after the first ones, up to its end, all on one line. -/
def entries? : (steps depth : Nat) → (tables : Tables) → List Char → Option (Data × List Char)
  | 0, _, _, _ => none
  | steps + 1, depth, tables, cs =>
    match path? cs with
    | some (keys, '=' :: rest) =>
      match value? steps depth (skipSpaces rest) with
      | none => none
      | some (value, rest) =>
        match tables.add? [] keys value, skipSpaces rest with
        | some tables, ',' :: rest => entries? steps depth tables rest
        | some tables, '\x7d' :: rest => some (tables.root, rest)
        | _, _ => none
    | _ => none

end

/-- Reads the header of a table, or of a list of tables, up to the end of its line. The keys in it
lead to the table. -/
def header? (tables : Tables) (cs : List Char) : Option (Tables × List String × List Char) :=
  match cs with
  | '[' :: '[' :: rest =>
    match path? rest with
    | some (keys, ']' :: ']' :: rest) => do
      return (← tables.listHeader? keys, keys, ← lineEnd? rest)
    | _ => none
  | '[' :: rest =>
    match path? rest with
    | some (keys, ']' :: rest) => do
      return (← tables.header? keys, keys, ← lineEnd? rest)
    | _ => none
  | _ => none

/-- Reads a key and its value, up to the end of the line, into the table at `path`. -/
def assignment? (steps : Nat) (tables : Tables) (path : List String) (cs : List Char) :
    Option (Tables × List Char) :=
  match path? cs with
  | some (keys, '=' :: rest) => do
    let (value, rest) ← value? steps maxDepth (skipSpaces rest)
    return (← tables.add? path keys value, ← lineEnd? rest)
  | _ => none

/-- Reads what is left of a document, of no more than `steps` characters; `path` leads to the table
that assignments go into. -/
def statements? : (steps : Nat) → Tables → (path : List String) → List Char → Option Data
  | 0, _, _, _ => none
  | steps + 1, tables, path, cs =>
    match skipBlank cs with
    | [] => some tables.root
    | '[' :: rest =>
      match header? tables ('[' :: rest) with
      | some (tables, path, rest) => statements? steps tables path rest
      | none => none
    | cs =>
      match assignment? steps tables path cs with
      | some (tables, rest) => statements? steps tables path rest
      | none => none

/-- The data of a document. A byte order mark before it does not count. -/
def read? (document : String) : Option Data :=
  let cs := match document.toList with
    | '\uFEFF' :: rest => rest
    | cs => cs
  statements? (cs.length + 1) {} [] cs

end Spreadsheet.Toml
