import Spreadsheet.Data.Basic

/-!
# Building TOML tables

The tables of a document are filled as it is read, and each may be defined once only. `Tables` keeps
what a document has defined so far: values, which are closed, and tables that are still open to
additions, with how each of them came about.
-/

namespace Spreadsheet.Toml

/-- How an open table came about. -/
inductive Opening where
  /-- A header names a table inside it. -/
  | implied
  /-- A dotted key leads through it. -/
  | dotted
  /-- A header names it. -/
  | named
deriving DecidableEq, Repr

/-- What stands under a key. -/
inductive Node where
  /-- A value, to which nothing can be added. -/
  | value (data : Data)
  /-- A table with its entries, the last one first. -/
  | table (opening : Opening) (entries : List (String × Node))
  /-- A list of tables: the data of those that are closed, the last one first, and the entries of
  the one after them, which is open. -/
  | tables (closed : List Data) (entries : List (String × Node))

mutual

def Node.data : Node → Data
  | .value data => data
  | .table _ entries => .table (Node.entriesData [] entries)
  | .tables closed entries => .list (.table (Node.entriesData [] entries) :: closed).reverse

/-- The data of entries, the last one first, before the data of what follows them. -/
def Node.entriesData (after : List (String × Data)) : List (String × Node) → List (String × Data)
  | [] => after
  | (key, node) :: entries => Node.entriesData ((key, node.data) :: after) entries

end

/-- What a document, or an inline table, has defined so far: the entries of its outermost table, the
last one first. -/
structure Tables where
  entries : List (String × Node) := []

namespace Tables

/-- The data defined so far. -/
def root (t : Tables) : Data := .table (Node.entriesData [] t.entries)

def find? (t : Tables) (key : String) : Option Node := t.entries.lookup key

/-- Adds an entry under a key that has none yet. -/
def insert (t : Tables) (key : String) (node : Node) : Tables := ⟨(key, node) :: t.entries⟩

/-- Replaces the entry under a key. -/
def replace (t : Tables) (key : String) (node : Node) : Tables :=
  ⟨go t.entries⟩
where
  go : List (String × Node) → List (String × Node)
    | [] => []
    | entry :: entries => if entry.1 == key then (key, node) :: entries else entry :: go entries

/-- Changes the table that keys lead to, by a function of how it came about. Tables are made on the
way if need be. Values cannot be entered, and dotted keys cannot enter a table that a header names.
A list of tables is entered by way of its open one. -/
def change? (viaDots : Bool) (change : Opening → Tables → Option Tables) :
    (keys : List String) → Opening → Tables → Option Tables
  | [], opening, t => change opening t
  | key :: keys, _, t =>
    match t.find? key with
    | none => do
      let opening := if viaDots then .dotted else .implied
      let inner ← change? viaDots change keys opening {}
      return t.insert key (.table opening inner.entries)
    | some (.table opening entries) =>
      if viaDots && opening == .named then none else do
      let inner ← change? viaDots change keys opening ⟨entries⟩
      return t.replace key (.table opening inner.entries)
    | some (.tables closed entries) => do
      let inner ← change? viaDots change keys .named ⟨entries⟩
      return t.replace key (.tables closed inner.entries)
    | some (.value _) => none

/-- Changes the table that a header leads to, which tables imply that it names. -/
def within? (t : Tables) (path : List String) (change : Tables → Option Tables) : Option Tables :=
  t.change? false (fun _ => change) path .named

/-- Adds a value under a key that may be dotted. The last table that a dotted key leads through must
have come about in this way. -/
def assign? (keys : List String) (value : Data) (t : Tables) : Option Tables :=
  match keys.getLast? with
  | none => none
  | some key =>
    let add (opening : Opening) (t : Tables) : Option Tables :=
      if keys.length > 1 && opening != .dotted then none
      else if (t.find? key).isSome then none
      else some (t.insert key (.value value))
    t.change? true add keys.dropLast .named

/-- Adds a value under a key that may be dotted to the table that a header leads to. -/
def add? (t : Tables) (path keys : List String) (value : Data) : Option Tables :=
  t.within? path (assign? keys value)

/-- Opens the table that a header names. It must be new, or implied by an earlier header. -/
def header? (t : Tables) (keys : List String) : Option Tables :=
  match keys.getLast? with
  | none => none
  | some key => t.within? keys.dropLast fun t =>
    match t.find? key with
    | none => some (t.insert key (.table .named []))
    | some (.table .implied entries) => some (t.replace key (.table .named entries))
    | _ => none

/-- Opens a new table in the list of tables that a header names, and closes the table before it. -/
def listHeader? (t : Tables) (keys : List String) : Option Tables :=
  match keys.getLast? with
  | none => none
  | some key => t.within? keys.dropLast fun t =>
    match t.find? key with
    | none => some (t.insert key (.tables [] []))
    | some (.tables closed entries) =>
      some (t.replace key (.tables (root ⟨entries⟩ :: closed) []))
    | _ => none

end Tables

end Spreadsheet.Toml
