import Mathlib.Data.Fintype.Defs
import Mathlib.Logic.Function.Basic
import Spreadsheet.Format

/-!
# Formats as maps

A format is a map from kinds to flags: toggling a kind changes the flag of that kind and of no other,
and a format is empty when it has no flag. Kinds are known by their names.
-/

namespace Spreadsheet

namespace FormatKind

instance : Fintype FormatKind := ⟨⟨all, by decide⟩, fun kind => by cases kind <;> decide⟩

theorem ofName?_eq_some_iff {name : String} {kind : FormatKind} :
    ofName? name = some kind ↔ kind.name = name := by
  constructor
  · intro h
    rw [ofName?] at h
    have hfound := List.find?_some h
    exact eq_of_beq hfound
  · rintro rfl
    cases kind <;> decide

end FormatKind

namespace Format

theorem get?_empty : ({} : Format).get? = fun _ => none := by
  funext kind
  cases kind <;> rfl

theorem get?_toggle (f : Format) (kind : FormatKind) :
    (f.toggle kind).get? = Function.update f.get? kind (some (!(f.get? kind).getD false)) := by
  funext other
  rw [toggle, get?_set, Function.update_apply]

theorem isEmpty_iff {f : Format} : f.isEmpty ↔ ∀ kind, f.get? kind = none := by
  simp only [isEmpty, List.all_eq_true, Option.isNone_iff_eq_none]
  exact forall_congr' fun kind => forall_prop_of_true (Fintype.complete kind)

end Format

end Spreadsheet
