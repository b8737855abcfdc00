import Mathlib.Data.List.SplitBy
import Spreadsheet.Proofs.Formula.Lexer

/-!
# Evaluation computes the meaning

The operands of an expression are split into terms at once, and the evaluation collects terms one
operand at a time. Running through the tokens of an expression leaves exactly its terms, whatever
levels are suspended around it. The operator that is pending afterwards is another matter: a closing
parenthesis leaves behind the one from inside, but the next token sets it anew or does not read it.
-/

namespace Spreadsheet.Formula

variable {lookup : Lookup}

/-- The terms after some operands, each with the operator before it. -/
def Terms.applyAll (terms : Terms) (operands : List (Operator × Float)) : Terms :=
  operands.foldl (fun terms operand => terms.apply operand.1 operand.2) terms

/-! ### Terms -/

theorem termValue_append {term : List (Operator × Float)} (hne : term ≠ [])
    (factor : Operator × Float) :
    termValue (term ++ [factor]) = applyFactor (termValue term) factor := by
  obtain ⟨first, factors, rfl⟩ := List.exists_cons_of_ne_nil hne
  rw [List.cons_append, termValue, termValue, List.foldl_append]
  rfl

theorem Terms.apply_of_isFactor {op : Operator} (h : op.isFactor = true) (last : Float) (terms : Terms)
    (value : Float) : Terms.apply (last :: terms) op value = applyFactor last (op, value) :: terms := by
  cases op <;> first | rfl | cases h

theorem Terms.apply_of_not_isFactor {op : Operator} (h : op.isFactor = false) (terms : Terms)
    (value : Float) : terms.apply op value = termValue [(op, value)] :: terms := by
  cases op <;> first | rfl | cases h

/-- Splitting off terms from the front is collecting them: `current` is the term that is being read,
the last operand first, and `terms` are those before it. -/
theorem map_termValue_loop (operands : List (Operator × Float)) (last : Operator × Float)
    (current : List (Operator × Float)) (terms : List (List (Operator × Float))) :
    (List.splitBy.loop (fun _ next => next.1.isFactor) operands last current terms).map termValue =
      (Terms.applyAll (termValue (last :: current).reverse :: terms.map termValue)
        operands).reverse := by
  induction operands generalizing last current terms with
  | nil => simp only [List.splitBy.loop, Terms.applyAll, List.map_reverse, List.map_cons, List.foldl_nil]
  | cons next rest ih =>
    rw [List.splitBy.loop]
    cases hnext : next.1.isFactor with
    | true =>
      have hterm : termValue (next :: last :: current).reverse =
          applyFactor (termValue (last :: current).reverse) next := by
        rw [List.reverse_cons]
        exact termValue_append (by simp) next
      dsimp only
      rw [ih, Terms.applyAll, Terms.applyAll, List.foldl_cons, Terms.apply_of_isFactor hnext, hterm]
    | false =>
      dsimp only
      rw [ih, Terms.applyAll, Terms.applyAll, List.foldl_cons, Terms.apply_of_not_isFactor hnext]
      rfl

/-- The first operand begins a term, so that the terms that are split off are the terms collected. -/
theorem sumOfTerms_eq_total {first : Operator × Float} (hfirst : first.1.isFactor = false)
    (operands : List (Operator × Float)) :
    sumOfTerms (first :: operands) = (Terms.applyAll [] (first :: operands)).total := by
  rw [sumOfTerms, List.splitBy, map_termValue_loop, Terms.total, List.foldl_reverse, Terms.applyAll,
    Terms.applyAll, List.foldl_cons, Terms.apply_of_not_isFactor hfirst]
  rfl

theorem Expr.exists_operands_eq_cons (lookup : Lookup) (e : Expr) :
    ∃ value rest, e.operands lookup = (.add, value) :: rest := by
  match e with
  | .single operand => exact ⟨_, [], rfl⟩
  | .chain left op operand =>
    obtain ⟨value, rest, hleft⟩ := left.exists_operands_eq_cons lookup
    refine ⟨value, rest ++ [(op, operand.value lookup)], ?_⟩
    rw [Expr.operands, hleft, List.cons_append]

theorem Expr.sumOfTerms_operands (lookup : Lookup) (e : Expr) :
    sumOfTerms (e.operands lookup) = (Terms.applyAll [] (e.operands lookup)).total := by
  obtain ⟨value, rest, hoperands⟩ := e.exists_operands_eq_cons lookup
  rw [hoperands, sumOfTerms_eq_total rfl]

/-! ### Running through tokens -/

theorem resolve_append (lookup : Lookup) (tokens more : List Token) :
    resolve lookup (tokens ++ more) = resolve lookup tokens ++ resolve lookup more :=
  List.map_append

mutual

theorem Operand.run_append (operand : Operand) (lookup : Lookup) (e : Evaluation)
    (rest : List Token) : ∃ pending, e.run (resolve lookup operand.tokens ++ rest) =
      Evaluation.run ⟨e.terms.apply e.pending (operand.value lookup), pending, e.outer⟩ rest := by
  match operand with
  | .number value => exact ⟨e.pending, rfl⟩
  | .reference name => exact ⟨e.pending, rfl⟩
  | .group inner =>
    obtain ⟨pending, hinner⟩ := inner.run_append lookup ((e.terms, e.pending) :: e.outer)
      (.closeParen :: rest)
    have htokens : resolve lookup (Operand.group inner).tokens ++ rest =
        .openParen :: (resolve lookup inner.tokens ++ .closeParen :: rest) := by
      rw [Operand.tokens, ← List.singleton_append, resolve_append, resolve_append, List.append_assoc,
        List.append_assoc]
      rfl
    refine ⟨pending, ?_⟩
    rw [htokens, Evaluation.run, Evaluation.descend, hinner, Evaluation.run, Operand.value,
      inner.sumOfTerms_operands]

theorem Expr.run_append (expr : Expr) (lookup : Lookup) (outer : List (Terms × Operator))
    (rest : List Token) :
    ∃ pending, Evaluation.run ⟨[], .add, outer⟩ (resolve lookup expr.tokens ++ rest) =
      Evaluation.run ⟨Terms.applyAll [] (expr.operands lookup), pending, outer⟩ rest := by
  match expr with
  | .single operand => exact operand.run_append lookup ⟨[], .add, outer⟩ rest
  | .chain left op operand =>
    obtain ⟨_, hleft⟩ := left.run_append lookup outer
      (.operator op :: (resolve lookup operand.tokens ++ rest))
    obtain ⟨pending, hoperand⟩ := operand.run_append lookup
      ⟨Terms.applyAll [] (left.operands lookup), op, outer⟩ rest
    have htokens : resolve lookup (Expr.chain left op operand).tokens ++ rest =
        resolve lookup left.tokens ++ .operator op :: (resolve lookup operand.tokens ++ rest) := by
      rw [Expr.tokens, resolve_append, List.append_assoc]
      rfl
    refine ⟨pending, ?_⟩
    rw [htokens, hleft, Evaluation.run, hoperand, Expr.operands, Terms.applyAll, Terms.applyAll,
      List.foldl_append]
    rfl

end

theorem evaluate_tokens (lookup : Lookup) (e : Expr) :
    evaluate (resolve lookup e.tokens) = e.value lookup := by
  obtain ⟨pending, hrun⟩ := e.run_append lookup [] []
  rw [List.append_nil] at hrun
  rw [evaluate, Evaluation.start, hrun, Expr.value, e.sumOfTerms_operands]
  rfl

/-- A formula evaluates to what its derivation means. -/
theorem evaluate_eq_value {formula : String} (hcheck : check formula = .ok ()) (lookup : Lookup) :
    ∃ tokens, tokenize formula = .ok tokens ∧ (∃ e : Expr, e.Derives formula) ∧
      ∀ e : Expr, e.Derives formula → evaluate (resolve lookup tokens) = e.value lookup := by
  obtain ⟨e, he⟩ := check_eq_ok_iff_derives.mp hcheck
  refine ⟨e.tokens, he.tokenize_eq, ⟨e, he⟩, fun e' he' => ?_⟩
  have htokens : e.tokens = e'.tokens := Except.ok.inj (he.tokenize_eq.symm.trans he'.tokenize_eq)
  rw [htokens, evaluate_tokens]

theorem evaluate_eq_value_of_nested : check "=2-(A1+3)*4/B2" = .ok () ∧
    ∃ tokens, tokenize "=2-(A1+3)*4/B2" = .ok tokens ∧
      (∃ e : Expr, e.Derives "=2-(A1+3)*4/B2") ∧
      ∀ e : Expr, e.Derives "=2-(A1+3)*4/B2" →
        evaluate (resolve (fun _ => some 2.0) tokens) = e.value fun _ => some 2.0 := by
  have hcheck : check "=2-(A1+3)*4/B2" = .ok () := isValid_iff.mp (by decide +kernel)
  exact ⟨hcheck, evaluate_eq_value hcheck _⟩

end Spreadsheet.Formula
