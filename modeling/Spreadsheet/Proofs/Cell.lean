import Spreadsheet.Cell
import Spreadsheet.Proofs.Formula.Names

/-!
# What a cell computes

Recomputing a cell keeps its text and its format. All the rest follows from the text alone, but for
the value of a formula, which also depends on the numbers that the formula reads.
-/

namespace Spreadsheet

open Formula

/-- The text is a formula with an operand that names a column and no row. -/
def HasBareLabel (raw : String) : Prop :=
  ∃ tokens, Cell.tokens? raw = some tokens ∧ ∃ name, .reference name ∈ tokens ∧ IsBareLabel name

/-- Whether a token is a bare label. -/
def Formula.Token.isBareLabel : Token → Bool
  | .reference name => !name.toList.any Char.isDigit
  | _ => false

theorem isBareLabel_eq_true_iff {token : Token} :
    token.isBareLabel = true ↔ ∃ name, token = .reference name ∧ IsBareLabel name := by
  cases token <;> simp [Token.isBareLabel, IsBareLabel]

theorem hasBareLabel_iff {raw : String} :
    HasBareLabel raw ↔ (Cell.tokens? raw).any (·.any Token.isBareLabel) = true := by
  simp only [HasBareLabel, Option.any_eq_true, List.any_eq_true, isBareLabel_eq_true_iff]
  constructor
  · intro hlabel
    obtain ⟨tokens, htokens, name, hmem, hbare⟩ := hlabel
    exact ⟨tokens, htokens, _, hmem, name, rfl, hbare⟩
  · intro hlabel
    obtain ⟨tokens, htokens, _, hmem, name, htoken, hbare⟩ := hlabel
    exact ⟨tokens, htokens, name, htoken ▸ hmem, hbare⟩

instance (raw : String) : Decidable (HasBareLabel raw) := decidable_of_iff _ hasBareLabel_iff.symm

namespace Cell

/-- What a cell with this text reads. -/
def precedentsOf (raw : String) : RefSet := if (tokens? raw).isSome then references raw else ∅

/-- The error of a cell with this text, the mark of a cycle apart. -/
def errorOf (raw : String) : Option CellError :=
  if isExpressionText raw && (tokens? raw).isNone then some .invalidFormula else none

/-- The value of a cell with this text. -/
def valueOf (raw : String) (lookup : Lookup) : Float :=
  match tokens? raw with
  | some tokens => evaluate (resolve lookup tokens)
  | none => if isExpressionText raw then 0.0 else Literal.value raw

theorem tokens?_eq_some_iff {raw : String} {tokens : List Token} :
    tokens? raw = some tokens ↔ check raw = .ok () ∧ tokenize raw = .ok tokens := by
  unfold tokens?
  split
  · rename_i hcheck htokenize
    rw [hcheck, htokenize]
    simp
  · rename_i hnot
    constructor
    · intro h
      cases h
    · intro hboth
      obtain ⟨hcheck, htokenize⟩ := hboth
      exact (hnot () tokens hcheck htokenize).elim

theorem isExpressionText_of_check {raw : String} (h : check raw = .ok ()) :
    isExpressionText raw := by
  unfold check checkChars at h
  split at h
  · rename_i body hraw
    simp [isExpressionText, hraw]
  · cases h

theorem isExpressionText_of_tokens? {raw : String} {tokens : List Token}
    (h : tokens? raw = some tokens) : isExpressionText raw :=
  isExpressionText_of_check (tokens?_eq_some_iff.mp h).1

theorem recompute_eq (c : Cell) (lookup : Lookup) : c.recompute lookup =
    ⟨c.raw, isExpressionText c.raw, valueOf c.raw lookup, precedentsOf c.raw, errorOf c.raw,
      c.format⟩ := by
  simp only [recompute, valueOf, precedentsOf, errorOf]
  cases hexpr : isExpressionText c.raw with
  | false =>
    have hnone : tokens? c.raw = none := by
      rw [Option.eq_none_iff_forall_ne_some]
      intro tokens htokens
      rw [isExpressionText_of_tokens? htokens] at hexpr
      cases hexpr
    simp [hnone]
  | true =>
    cases htokens : tokens? c.raw with
    | none => simp [mark]
    | some tokens => simp

theorem precedentsOf_of_tokens? {raw : String} {tokens : List Token} (h : tokens? raw = some tokens) :
    precedentsOf raw = references raw := by
  simp [precedentsOf, h]

@[simp] theorem precedentsOf_empty : precedentsOf "" = ∅ := rfl

/-- A cell that reads anything has no error of its own. -/
theorem errorOf_of_mem_precedentsOf {raw : String} {r : Ref} (h : r ∈ precedentsOf raw) :
    errorOf raw = none := by
  unfold precedentsOf at h
  split at h
  · rename_i hsome
    rw [errorOf, Option.isNone_eq_false_iff.mpr hsome]
    simp
  · simp at h

theorem errorOf_ne_cyclic (raw : String) : errorOf raw ≠ some .cyclic := by
  unfold errorOf
  split <;> simp

/-- Without bare labels, the value of a text depends on the numbers that it reads and on no other. -/
theorem valueOf_congr {raw : String} (hlabel : ¬ HasBareLabel raw) {l l' : Lookup}
    (h : ∀ r ∈ precedentsOf raw, l r = l' r) : valueOf raw l = valueOf raw l' := by
  unfold valueOf
  cases htokens : tokens? raw with
  | none => rfl
  | some tokens =>
    rw [precedentsOf_of_tokens? htokens] at h
    have hresolve := resolve_congr (tokens?_eq_some_iff.mp htokens).2
      (fun name hname hbare => hlabel ⟨tokens, htokens, name, hname, hbare⟩) h
    exact congrArg evaluate hresolve

/-- What is not stored counts as zero. -/
theorem valueOf_congr_getD {raw : String} {l l' : Lookup}
    (h : ∀ r, (l r).getD 0.0 = (l' r).getD 0.0) : valueOf raw l = valueOf raw l' := by
  have hresolve : Token.resolve l = Token.resolve l' := by
    funext token
    cases token with
    | reference name =>
      simp only [Token.resolve]
      cases Ref.parse? name with
      | none => rfl
      | some r => exact congrArg Token.number (h r)
    | _ => rfl
  unfold valueOf
  split
  · rw [resolve, resolve, hresolve]
  · rfl

/-- A text that is no formula has one value. -/
theorem valueOf_eq_of_errorOf {raw : String} (h : errorOf raw ≠ none) (l l' : Lookup) :
    valueOf raw l = valueOf raw l' := by
  unfold valueOf
  cases htokens : tokens? raw with
  | none => rfl
  | some tokens => simp [errorOf, htokens] at h

end Cell

end Spreadsheet
