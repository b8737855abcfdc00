import Spreadsheet.Formula.Evaluate

/-!
# Unbalanced token lists

A token list need not come from a formula, so its parentheses need not match. It is repaired by cutting
it before the first closing parenthesis that closes nothing, and by closing at its end what is still
open. The evaluation does both on its own: it stops at such a parenthesis, and it closes the suspended
levels when the tokens are at an end. So a list and its repair have the same value, whatever operators
are pending on the way and however many operands stand side by side.
-/

namespace Spreadsheet.Formula

def Token.isOpenParen : Token → Bool
  | openParen => true
  | _ => false

def Token.isCloseParen : Token → Bool
  | closeParen => true
  | _ => false

/-- The token as it counts in an evaluation: a reference that is not resolved is zero. -/
def Token.zeroed : Token → Token
  | reference _ => number 0.0
  | token => token

/-- The parentheses that a token list opens. -/
def openings (tokens : List Token) : Nat := tokens.countP Token.isOpenParen

/-- The parentheses that a token list closes. -/
def closings (tokens : List Token) : Nat := tokens.countP Token.isCloseParen

/-- With `depth` parentheses open before the list, each closing one in it closes one. -/
def ClosesWithin (depth : Nat) (tokens : List Token) : Prop :=
  ∀ front, front <+: tokens → closings front ≤ depth + openings front

/-- The first list, before which `depth` parentheses are open, is cut before the first closing
parenthesis that exceeds the open ones, if there is one. Then as many closing parentheses are added as
are missing. -/
inductive Repairs (depth : Nat) : List Token → List Token → Prop where
  | mk {kept dropped : List Token} {missing : Nat} (hkept : ClosesWithin depth kept)
      (hdropped : dropped = [] ∨
        ∃ rest, dropped = .closeParen :: rest ∧ closings kept = depth + openings kept)
      (hmissing : depth + openings kept = closings kept + missing) :
      Repairs depth (kept ++ dropped) (kept ++ List.replicate missing .closeParen)

/-- The repair of a token list before which `depth` parentheses are open. -/
def repair : (depth : Nat) → List Token → List Token
  | depth, [] => List.replicate depth .closeParen
  | depth, .openParen :: tokens => .openParen :: repair (depth + 1) tokens
  | 0, .closeParen :: _ => []
  | depth + 1, .closeParen :: tokens => .closeParen :: repair depth tokens
  | depth, token :: tokens => token :: repair depth tokens

variable {depth : Nat} {token : Token} {tokens kept dropped repaired : List Token}

/-! ### Counting parentheses -/

theorem openings_cons (token : Token) (tokens : List Token) :
    openings (token :: tokens) = openings [token] + openings tokens := by
  rw [← List.singleton_append]
  exact List.countP_append

theorem closings_cons (token : Token) (tokens : List Token) :
    closings (token :: tokens) = closings [token] + closings tokens := by
  rw [← List.singleton_append]
  exact List.countP_append

theorem closesWithin_nil (depth : Nat) : ClosesWithin depth [] := by
  intro front hfront
  rw [List.prefix_nil.mp hfront]
  exact Nat.zero_le _

theorem closesWithin_cons : ClosesWithin depth (token :: tokens) ↔
    closings [token] ≤ depth + openings [token] ∧
      ClosesWithin (depth + openings [token] - closings [token]) tokens := by
  constructor
  · intro h
    refine ⟨h [token] (by simp), fun front hfront => ?_⟩
    have hle := h (token :: front) (by simpa using hfront)
    rw [openings_cons, closings_cons] at hle
    omega
  · intro h front hfront
    cases front with
    | nil => exact Nat.zero_le _
    | cons first front =>
      obtain ⟨rfl, hrest⟩ := List.cons_prefix_cons.mp hfront
      have hle := h.2 front hrest
      rw [openings_cons, closings_cons]
      omega

/-! ### The repair -/

/-- A token that closes no more than is open is kept. -/
theorem repair_cons (h : closings [token] ≤ depth + openings [token]) (tokens : List Token) :
    repair depth (token :: tokens) =
      token :: repair (depth + openings [token] - closings [token]) tokens := by
  cases token with
  | closeParen =>
    cases depth with
    | zero => simp [openings, closings, Token.isOpenParen, Token.isCloseParen] at h
    | succ depth => simp [repair, openings, closings, Token.isOpenParen, Token.isCloseParen]
  | _ => simp [repair, openings, closings, Token.isOpenParen, Token.isCloseParen]

theorem repair_append (h : ClosesWithin depth kept) (dropped : List Token) :
    repair depth (kept ++ dropped) =
      kept ++ repair (depth + openings kept - closings kept) dropped := by
  induction kept generalizing depth with
  | nil => rfl
  | cons token kept ih =>
    obtain ⟨htoken, hkept⟩ := closesWithin_cons.mp h
    have hdepth : depth + openings [token] - closings [token] + openings kept - closings kept =
        depth + openings (token :: kept) - closings (token :: kept) := by
      rw [openings_cons token kept, closings_cons token kept]
      omega
    rw [List.cons_append, repair_cons htoken, ih hkept, hdepth, List.cons_append]

theorem Repairs.eq_repair (h : Repairs depth tokens repaired) : repaired = repair depth tokens := by
  obtain ⟨hkept, hdropped, hmissing⟩ := h
  rename_i kept dropped missing
  have hdepth : depth + openings kept - closings kept = missing := by omega
  rw [repair_append hkept, hdepth]
  obtain rfl | ⟨rest, rfl, hcut⟩ := hdropped
  · rfl
  · obtain rfl : missing = 0 := by omega
    rfl

theorem Repairs.cons (h : Repairs (depth + openings [token] - closings [token]) tokens repaired)
    (htoken : closings [token] ≤ depth + openings [token]) :
    Repairs depth (token :: tokens) (token :: repaired) := by
  obtain ⟨hkept, hdropped, hmissing⟩ := h
  rename_i kept dropped missing
  rw [← List.cons_append, ← List.cons_append]
  refine .mk (closesWithin_cons.mpr ⟨htoken, hkept⟩) ?_ ?_
  · refine hdropped.imp_right fun ⟨rest, hrest, hcut⟩ => ⟨rest, hrest, ?_⟩
    rw [openings_cons, closings_cons]
    omega
  · rw [openings_cons, closings_cons]
    omega

theorem repairs_repair (depth : Nat) (tokens : List Token) :
    Repairs depth tokens (repair depth tokens) := by
  induction tokens generalizing depth with
  | nil => exact .mk (closesWithin_nil depth) (Or.inl rfl) (Nat.zero_add depth).symm
  | cons token tokens ih =>
    by_cases htoken : closings [token] ≤ depth + openings [token]
    · rw [repair_cons htoken]
      exact (ih _).cons htoken
    · -- Only a closing parenthesis closes anything, and here nothing is open.
      have hclose : token = .closeParen ∧ depth = 0 := by
        cases token <;> simp_all [openings, closings, Token.isOpenParen, Token.isCloseParen]
      obtain ⟨rfl, rfl⟩ := hclose
      exact .mk (closesWithin_nil 0) (Or.inr ⟨tokens, rfl, rfl⟩) rfl

theorem repairs_iff : Repairs depth tokens repaired ↔ repaired = repair depth tokens := by
  constructor
  · exact Repairs.eq_repair
  · rintro rfl
    exact repairs_repair depth tokens

/-! ### The value of a repair -/

namespace Evaluation

variable {e next : Evaluation}

/-- The evaluation after one more token, unless the token ends it. -/
def next? (e : Evaluation) : Token → Option Evaluation
  | .number value => some (e.operand value)
  | .reference _ => some (e.operand 0.0)
  | .operator op => some { e with pending := op }
  | .openParen => some e.descend
  | .closeParen =>
    match e.outer with
    | [] => none
    | (terms, op) :: outer => some ⟨terms.apply op e.terms.total, e.pending, outer⟩

theorem run_cons (e : Evaluation) (token : Token) (tokens : List Token) :
    e.run (token :: tokens) = (e.next? token).elim e (·.run tokens) := by
  cases token with
  | closeParen =>
    rw [run, next?]
    cases e.outer <;> rfl
  | _ => rfl

theorem next?_zeroed (e : Evaluation) (token : Token) : e.next? token.zeroed = e.next? token := by
  cases token <;> rfl

theorem next?_eq_none (h : e.next? token = none) : token = .closeParen ∧ e.outer = [] := by
  cases token with
  | closeParen =>
    rw [next?] at h
    split at h
    · exact ⟨rfl, by assumption⟩
    · cases h
  | _ => cases h

/-- As many levels are suspended as parentheses are open. -/
theorem length_outer_of_next? (h : e.next? token = some next) :
    closings [token] ≤ e.outer.length + openings [token] ∧
      next.outer.length = e.outer.length + openings [token] - closings [token] := by
  cases token with
  | closeParen =>
    rw [next?] at h
    split at h
    · cases h
    · rename_i terms op outer houter
      obtain rfl := Option.some.inj h
      simp [houter, openings, closings, Token.isOpenParen, Token.isCloseParen]
  | _ =>
    obtain rfl := Option.some.inj h
    simp [operand, descend, openings, closings, Token.isOpenParen, Token.isCloseParen]

/-- Closing all the levels with tokens is closing them at the end. -/
theorem value_run_closeParens (e : Evaluation) :
    (e.run (List.replicate e.outer.length .closeParen)).value = e.value := by
  obtain ⟨terms, pending, outer⟩ := e
  induction outer generalizing terms with
  | nil => rfl
  | cons level outer ih => exact ih _

/-- Wherever an evaluation stands, the rest of the tokens can be repaired for the levels that are
suspended. -/
theorem value_run_repair (e : Evaluation) (tokens : List Token) :
    (e.run (repair e.outer.length tokens)).value = (e.run tokens).value := by
  induction tokens generalizing e with
  | nil => exact e.value_run_closeParens
  | cons token tokens ih =>
    cases hnext : e.next? token with
    | none =>
      obtain ⟨rfl, houter⟩ := next?_eq_none hnext
      rw [run_cons, hnext, houter]
      rfl
    | some next =>
      obtain ⟨hfits, hlength⟩ := length_outer_of_next? hnext
      rw [repair_cons hfits, ← hlength, run_cons, run_cons, hnext]
      exact ih next

theorem run_map_zeroed (e : Evaluation) (tokens : List Token) :
    e.run (tokens.map Token.zeroed) = e.run tokens := by
  induction tokens generalizing e with
  | nil => rfl
  | cons token tokens ih =>
    rw [List.map_cons, run_cons, run_cons, next?_zeroed]
    cases e.next? token with
    | none => rfl
    | some next => exact ih next

end Evaluation

/-- Any token list has the value of its repair, of which it has one only, and references that are not
resolved count as zero. -/
theorem evaluate_repair (tokens : List Token) :
    (∀ repaired, Repairs 0 tokens repaired ↔ repaired = repair 0 tokens) ∧
      evaluate (repair 0 tokens) = evaluate tokens ∧
      evaluate (tokens.map Token.zeroed) = evaluate tokens := by
  refine ⟨fun repaired => repairs_iff, Evaluation.value_run_repair .start tokens, ?_⟩
  rw [evaluate, Evaluation.run_map_zeroed, evaluate]

end Spreadsheet.Formula
