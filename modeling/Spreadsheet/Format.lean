/-!
# Formats

A format says for each kind whether it was ever toggled, and if so whether it is on now. Toggling a
kind for the first time turns it on.
-/

namespace Spreadsheet

/-- The kinds of format, in the order in which they are listed. -/
inductive FormatKind where
  | bold
  | italic
  | strike
  | underline
deriving DecidableEq, Repr, Inhabited

namespace FormatKind

def all : List FormatKind := [bold, italic, strike, underline]

def name : FormatKind → String
  | bold => "bold"
  | italic => "italic"
  | strike => "strike"
  | underline => "underline"

/-- The kind with exactly this name. -/
def ofName? (s : String) : Option FormatKind := all.find? (·.name == s)

/-- What is said of a name that no kind has. -/
def unknownMessage (s : String) : String := "Unknown format kind: " ++ s

end FormatKind

/-- The flags that were toggled at least once. -/
structure Format where
  bold : Option Bool := none
  italic : Option Bool := none
  strike : Option Bool := none
  underline : Option Bool := none
deriving DecidableEq, Repr, Inhabited

namespace Format

def get? (f : Format) : FormatKind → Option Bool
  | .bold => f.bold
  | .italic => f.italic
  | .strike => f.strike
  | .underline => f.underline

def set (f : Format) (kind : FormatKind) (on : Bool) : Format :=
  match kind with
  | .bold => { f with bold := some on }
  | .italic => { f with italic := some on }
  | .strike => { f with strike := some on }
  | .underline => { f with underline := some on }

/-- No kind was ever toggled. -/
def isEmpty (f : Format) : Bool := FormatKind.all.all fun kind => (f.get? kind).isNone

/-- Flips a flag; one that was never toggled counts as off. -/
def toggle (f : Format) (kind : FormatKind) : Format := f.set kind (!(f.get? kind).getD false)

/-- The flags that were toggled at least once, in order. -/
def flags (f : Format) : List (FormatKind × Bool) :=
  FormatKind.all.filterMap fun kind => (f.get? kind).map (kind, ·)

/-- The kinds that are on, in order. -/
def active (f : Format) : List FormatKind := (f.flags.filter (·.2)).map (·.1)

theorem get?_set (f : Format) (kind other : FormatKind) (on : Bool) :
    (f.set kind on).get? other = if other = kind then some on else f.get? other := by
  cases kind <;> cases other <;> rfl

end Format

end Spreadsheet
