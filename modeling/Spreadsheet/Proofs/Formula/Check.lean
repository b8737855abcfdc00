import Spreadsheet.Formula.Check
import Spreadsheet.Formula.Grammar
import Spreadsheet.Proofs.Text

/-!
# The formulas that are accepted

The check accepts exactly what the grammar derives. What it accepts part way through a text is
`Closes`: the rest of an expression, with as many closing parentheses in it as parentheses are open.
In the other direction an expression is passed over as a whole, whatever follows it, as long as the
last operand ends where it ends: what follows must be `Delimited`.
-/

namespace Spreadsheet.Formula

open Text

/-- What can follow an operand: nothing, an operator or a closing parenthesis. -/
inductive Delimited : List Char → Prop where
  | nil : Delimited []
  | operator (op : Operator) (rest : List Char) : Delimited (op.symbol :: rest)
  | closeParen (rest : List Char) : Delimited (')' :: rest)

namespace Delimited

variable {rest : List Char}

theorem head?_not (h : Delimited rest) {c : Char} (hc : c ∈ rest.head?) :
    ¬ c.isAlpha ∧ ¬ c.isDigit ∧ c ≠ '.' := by
  cases h with
  | nil => cases hc
  | operator op rest =>
    obtain rfl := Option.some.inj hc
    cases op <;> decide
  | closeParen rest =>
    obtain rfl := Option.some.inj hc
    decide

theorem not_isAlpha (h : Delimited rest) : ∀ c ∈ rest.head?, ¬ c.isAlpha := fun _ hc =>
  (h.head?_not hc).1

theorem not_isDigit (h : Delimited rest) : ∀ c ∈ rest.head?, ¬ c.isDigit := fun _ hc =>
  (h.head?_not hc).2.1

theorem ne_point (h : Delimited rest) (more : List Char) : rest ≠ '.' :: more := by
  intro heq
  subst heq
  exact (h.head?_not rfl).2.2 rfl

/-- The letters of a name end where its digits or what follows it begin. -/
theorem name_end (h : Delimited rest) {digits : List Char} (hdigits : ∀ c ∈ digits, c.isDigit) :
    ∀ c ∈ (digits ++ rest).head?, ¬ c.isAlpha := by
  intro c hc
  cases digits with
  | nil => exact h.not_isAlpha c hc
  | cons d ds =>
    obtain rfl := Option.some.inj hc
    exact not_isAlpha_of_isDigit (hdigits _ List.mem_cons_self)

end Delimited

theorem not_isDigit_of_point (rest : List Char) : ∀ c ∈ ('.' :: rest).head?, ¬ c.isDigit := by
  intro c hc
  obtain rfl := Option.some.inj hc
  decide

/-! ### Operands -/

theorem skipFraction_of_not_isDigit {cs : List Char}
    (h : ∀ d rest, cs = '.' :: d :: rest → ¬ d.isDigit) : skipFraction cs = (0, cs) := by
  unfold skipFraction
  split
  · exact if_neg (h _ _ rfl)
  · rfl

theorem skipFraction_append {fraction rest : List Char} (hne : fraction ≠ [])
    (hfraction : ∀ c ∈ fraction, c.isDigit) (hrest : Delimited rest) :
    skipFraction ('.' :: (fraction ++ rest)) = (fraction.length + 1, rest) := by
  obtain ⟨d, ds, rfl⟩ := List.exists_cons_of_ne_nil hne
  obtain ⟨hd, hds⟩ := List.forall_mem_cons.mp hfraction
  rw [List.cons_append, skipFraction, if_pos hd, takeWhile_append_run hds hrest.not_isDigit,
    dropWhile_append_run hds hrest.not_isDigit]
  rfl

theorem skipOperand?_number {lexeme rest : List Char} (h : IsNumber lexeme) (hrest : Delimited rest) :
    skipOperand? (lexeme ++ rest) = some (lexeme.length, rest) := by
  cases h with
  | whole hne hdigits =>
    obtain ⟨d, ds, rfl⟩ := List.exists_cons_of_ne_nil hne
    obtain ⟨hd, hds⟩ := List.forall_mem_cons.mp hdigits
    have hnone : skipFraction rest = (0, rest) :=
      skipFraction_of_not_isDigit fun _ _ heq => absurd heq (hrest.ne_point _)
    rw [List.cons_append, skipOperand?, if_pos hd, takeWhile_append_run hds hrest.not_isDigit,
      dropWhile_append_run hds hrest.not_isDigit, hnone]
    rfl
  | @decimal digits fraction hne hdigits hfne hfraction =>
    obtain ⟨d, ds, rfl⟩ := List.exists_cons_of_ne_nil hne
    obtain ⟨hd, hds⟩ := List.forall_mem_cons.mp hdigits
    have hpoint := not_isDigit_of_point (fraction ++ rest)
    have hlength : ds.length + 1 + (fraction.length + 1)
        = ((d :: ds) ++ '.' :: fraction).length := by
      rw [List.length_append, List.length_cons, List.length_cons]
    rw [List.append_assoc, List.cons_append, List.cons_append, skipOperand?, if_pos hd,
      takeWhile_append_run hds hpoint, dropWhile_append_run hds hpoint,
      skipFraction_append hfne hfraction hrest, ← hlength]

theorem skipOperand?_name {lexeme rest : List Char} (h : IsName lexeme) (hrest : Delimited rest) :
    skipOperand? (lexeme ++ rest) = some (lexeme.length, rest) := by
  obtain ⟨hne, hletters, hdigits⟩ := h
  rename_i letters digits
  obtain ⟨c, cs, rfl⟩ := List.exists_cons_of_ne_nil hne
  obtain ⟨hc, hcs⟩ := List.forall_mem_cons.mp hletters
  have hnot : ¬ c.isDigit := fun hdigit => not_isAlpha_of_isDigit hdigit hc
  have hend := hrest.name_end hdigits
  rw [List.append_assoc, List.cons_append, skipOperand?, if_neg hnot, if_pos hc,
    takeWhile_append_run hcs hend, dropWhile_append_run hcs hend]
  dsimp only
  rw [takeWhile_append_run hdigits hrest.not_isDigit, dropWhile_append_run hdigits hrest.not_isDigit,
    List.length_append, List.length_cons]

theorem skipFraction_cases (cs : List Char) :
    skipFraction cs = (0, cs) ∨ ∃ fraction rest, fraction ≠ [] ∧ (∀ c ∈ fraction, c.isDigit) ∧
      cs = '.' :: (fraction ++ rest) ∧ skipFraction cs = (fraction.length + 1, rest) := by
  unfold skipFraction
  split
  · rename_i d rest
    by_cases hd : d.isDigit = true
    · refine Or.inr ⟨d :: rest.takeWhile Char.isDigit, rest.dropWhile Char.isDigit,
        List.cons_ne_nil _ _, List.forall_mem_cons.mpr ⟨hd, of_mem_takeWhile⟩, ?_, if_pos hd⟩
      rw [List.cons_append, List.takeWhile_append_dropWhile]
    · exact Or.inl (if_neg hd)
  · exact Or.inl rfl

/-- What is passed over as an operand is a number or a name. -/
theorem exists_of_skipOperand? {cs rest : List Char} {length : Nat}
    (h : skipOperand? cs = some (length, rest)) :
    ∃ lexeme, cs = lexeme ++ rest ∧ length = lexeme.length ∧ (IsNumber lexeme ∨ IsName lexeme) := by
  cases cs with
  | nil => cases h
  | cons c more =>
    rw [skipOperand?] at h
    split at h
    · rename_i hc
      have hdigits : ∀ d ∈ c :: more.takeWhile Char.isDigit, d.isDigit :=
        List.forall_mem_cons.mpr ⟨hc, of_mem_takeWhile⟩
      have hsplit : c :: more = (c :: more.takeWhile Char.isDigit) ++ more.dropWhile Char.isDigit := by
        rw [List.cons_append, List.takeWhile_append_dropWhile]
      rcases skipFraction_cases (more.dropWhile Char.isDigit) with
        hnone | ⟨fraction, after, hne, hfraction, hcs, hsome⟩
      · rw [hnone] at h
        obtain ⟨rfl, rfl⟩ := Prod.mk.inj (Option.some.inj h)
        exact ⟨_, hsplit, rfl, Or.inl (.whole (List.cons_ne_nil _ _) hdigits)⟩
      · rw [hsome] at h
        obtain ⟨rfl, rfl⟩ := Prod.mk.inj (Option.some.inj h)
        refine ⟨(c :: more.takeWhile Char.isDigit) ++ '.' :: fraction, ?_, ?_,
          Or.inl (.decimal (List.cons_ne_nil _ _) hdigits hne hfraction)⟩
        · rw [hsplit, hcs, List.append_assoc]
          rfl
        · rw [List.length_append, List.length_cons, List.length_cons]
    · split at h
      · rename_i hc
        obtain ⟨rfl, rfl⟩ := Prod.mk.inj (Option.some.inj h)
        refine ⟨(c :: more.takeWhile Char.isAlpha) ++
          (more.dropWhile Char.isAlpha).takeWhile Char.isDigit, ?_, ?_, Or.inr (.mk
            (List.cons_ne_nil _ _) (List.forall_mem_cons.mpr ⟨hc, of_mem_takeWhile⟩)
            of_mem_takeWhile)⟩
        · rw [List.append_assoc, List.takeWhile_append_dropWhile, List.cons_append,
            List.takeWhile_append_dropWhile]
        · rw [List.length_append, List.length_cons]
      · cases h

/-! ### One step of the check -/

variable {opened : List Nat} {position : Nat} {cs rest : List Char}

theorem checkOperand_openParen (opened : List Nat) (position : Nat) (rest : List Char) :
    checkOperand opened position ('(' :: rest) =
      checkOperand (position :: opened) (position + 1) rest := by
  rw [checkOperand]

theorem checkOperand_of_skipOperand? {length : Nat} (h : skipOperand? cs = some (length, rest)) :
    checkOperand opened position cs = checkOperator opened (position + length) rest := by
  unfold checkOperand
  split
  · cases h
  · split
    · rename_i hsome
      obtain ⟨rfl, rfl⟩ := Prod.mk.inj (Option.some.inj (h.symm.trans hsome))
      rfl
    · rename_i hnone
      rw [h] at hnone
      cases hnone

theorem checkOperand_of_skipOperand?_none (hopen : ∀ rest, cs ≠ '(' :: rest)
    (h : skipOperand? cs = none) :
    checkOperand opened position cs = .error (.expectedOperand position) := by
  unfold checkOperand
  split
  · exact absurd rfl (hopen _)
  · split
    · rename_i hsome
      rw [h] at hsome
      cases hsome
    · rfl

theorem isOperator_symbol (op : Operator) : isOperator op.symbol = true := by
  cases op <;> rfl

theorem exists_symbol_of_isOperator {c : Char} (h : isOperator c = true) :
    ∃ op : Operator, c = op.symbol := by
  simp only [isOperator, Bool.or_eq_true, beq_iff_eq] at h
  rcases h with ((rfl | rfl) | rfl) | rfl
  · exact ⟨.add, rfl⟩
  · exact ⟨.sub, rfl⟩
  · exact ⟨.mul, rfl⟩
  · exact ⟨.div, rfl⟩

theorem checkOperator_nil (position : Nat) : checkOperator [] position [] = .ok () := by
  rw [checkOperator]
  rfl

theorem checkOperator_symbol (op : Operator) (opened : List Nat) (position : Nat) (rest : List Char) :
    checkOperator opened position (op.symbol :: rest) = checkOperand opened (position + 1) rest := by
  unfold checkOperator
  rw [if_pos (isOperator_symbol op)]

theorem checkOperator_closeParen (innermost : Nat) (outer : List Nat) (position : Nat)
    (rest : List Char) : checkOperator (innermost :: outer) position (')' :: rest) =
      checkOperator outer (position + 1) rest := by
  rw [checkOperator]
  rfl

theorem checkOperator_stop {c : Char} (hc : ¬ isOperator c = true)
    (hclose : ∀ innermost outer, c = ')' → opened = innermost :: outer → False) :
    checkOperator opened position (c :: rest) = stop opened position (c :: rest) := by
  unfold checkOperator
  rw [if_neg hc]
  split
  · exact (hclose _ _ rfl rfl).elim
  · rfl

/-! ### What is accepted is a formula -/

/-- The rest of an expression after an operand, with `depth` parentheses open. -/
inductive Closes : (depth : Nat) → List Char → Prop where
  | done : Closes 0 []
  | next {depth : Nat} {operand rest : List Char} (op : Operator) (ho : IsOperand operand)
      (h : Closes depth rest) : Closes depth (op.symbol :: (operand ++ rest))
  | close {depth : Nat} {rest : List Char} (h : Closes depth rest) : Closes (depth + 1) (')' :: rest)

theorem Closes.isExpr (h : Closes 0 rest) {cs : List Char} (hcs : IsExpr cs) : IsExpr (cs ++ rest) := by
  generalize hdepth : 0 = depth at h
  induction h generalizing cs with
  | done => rwa [List.append_nil]
  | @next depth operand rest op ho h ih =>
    have hmore := ih (.chain op hcs ho) hdepth
    rwa [List.append_assoc, List.cons_append] at hmore
  | close h ih => cases hdepth

/-- The innermost open parenthesis is closed somewhere, and up to there an expression goes on. -/
theorem Closes.exists_close {depth : Nat} (h : Closes (depth + 1) rest) {cs : List Char}
    (hcs : IsExpr cs) :
    ∃ inner after, rest = inner ++ ')' :: after ∧ IsExpr (cs ++ inner) ∧ Closes depth after := by
  generalize hdepth : depth + 1 = opened at h
  induction h generalizing cs with
  | done => cases hdepth
  | @next opened operand rest op ho h ih =>
    obtain ⟨inner, after, rfl, hinner, hafter⟩ := ih (.chain op hcs ho) hdepth
    refine ⟨op.symbol :: (operand ++ inner), after, ?_, ?_, hafter⟩
    · rw [List.cons_append, List.append_assoc]
    · rwa [List.append_assoc, List.cons_append] at hinner
  | @close opened rest h ih =>
    obtain rfl := Nat.succ.inj hdepth
    exact ⟨[], rest, rfl, by rwa [List.append_nil], h⟩

/-- What is accepted part way through a text goes on as the open parentheses ask for. -/
theorem closes_of_check :
    (∀ (opened : List Nat) (position : Nat) (cs : List Char),
      checkOperand opened position cs = .ok () →
        ∃ operand rest, cs = operand ++ rest ∧ IsOperand operand ∧ Closes opened.length rest) ∧
    ∀ (opened : List Nat) (position : Nat) (cs : List Char),
      checkOperator opened position cs = .ok () → Closes opened.length cs := by
  refine checkOperand.mutual_induct _ _ ?openParen ?operand ?refused ?last ?operator ?closeParen
    ?stopped
  case openParen =>
    intro opened position rest ih h
    rw [checkOperand_openParen] at h
    obtain ⟨operand, rest, rfl, hoperand, hrest⟩ := ih h
    obtain ⟨inner, after, rfl, hinner, hafter⟩ := hrest.exists_close (.single hoperand)
    refine ⟨'(' :: ((operand ++ inner) ++ [')']), after, ?_, .group hinner, hafter⟩
    simp only [List.cons_append, List.append_assoc, List.nil_append]
  case operand =>
    intro opened position cs _ length rest hskip ih h
    rw [checkOperand_of_skipOperand? hskip] at h
    obtain ⟨lexeme, hcs, -, hlexeme⟩ := exists_of_skipOperand? hskip
    exact ⟨lexeme, rest, hcs, hlexeme.elim .number .reference, ih h⟩
  case refused =>
    intro opened position cs hopen hskip h
    rw [checkOperand_of_skipOperand?_none hopen hskip] at h
    cases h
  case last =>
    intro opened position h
    rw [checkOperator] at h
    cases opened with
    | nil => exact .done
    | cons innermost outer => cases h
  case operator =>
    intro opened position c cs hc ih h
    obtain ⟨op, rfl⟩ := exists_symbol_of_isOperator hc
    rw [checkOperator_symbol] at h
    obtain ⟨operand, rest, rfl, hoperand, hrest⟩ := ih h
    exact .next op hoperand hrest
  case closeParen =>
    intro position cs innermost outer _ ih h
    rw [checkOperator_closeParen] at h
    exact .close (ih h)
  case stopped =>
    intro opened position c cs hc hclose h
    rw [checkOperator_stop hc hclose] at h
    cases opened <;> cases h

/-! ### Formulas are accepted -/

mutual

theorem IsOperand.checkOperand_append {cs : List Char} (h : IsOperand cs) (opened : List Nat)
    (position : Nat) {rest : List Char} (hrest : Delimited rest) :
    checkOperand opened position (cs ++ rest) = checkOperator opened (position + cs.length) rest := by
  match cs, h with
  | _, .number h => exact checkOperand_of_skipOperand? (skipOperand?_number h hrest)
  | _, .reference h => exact checkOperand_of_skipOperand? (skipOperand?_name h hrest)
  | _, @IsOperand.group inner h =>
    have hinner := h.checkOperand_append (position :: opened) (position + 1) (.closeParen rest)
    have hlength : position + ('(' :: (inner ++ [')'])).length = position + 1 + inner.length + 1 := by
      simp only [List.length_cons, List.length_append, List.length_nil]
      omega
    rw [List.cons_append, List.append_assoc, List.singleton_append, checkOperand_openParen, hinner,
      checkOperator_closeParen, hlength]

theorem IsExpr.checkOperand_append {cs : List Char} (h : IsExpr cs) (opened : List Nat)
    (position : Nat) {rest : List Char} (hrest : Delimited rest) :
    checkOperand opened position (cs ++ rest) = checkOperator opened (position + cs.length) rest := by
  match cs, h with
  | _, .single h => exact h.checkOperand_append opened position hrest
  | _, @IsExpr.chain left operand op h ho =>
    have hleft := h.checkOperand_append opened position (.operator op (operand ++ rest))
    have hlength : position + (left ++ op.symbol :: operand).length
        = position + left.length + 1 + operand.length := by
      simp only [List.length_cons, List.length_append]
      omega
    rw [List.append_assoc, List.cons_append, hleft, checkOperator_symbol,
      ho.checkOperand_append opened _ hrest, hlength]

end

theorem checkChars_eq_ok_iff : checkChars cs = .ok () ↔ IsFormula cs := by
  constructor
  · intro h
    unfold checkChars at h
    split at h
    · rename_i body
      obtain ⟨operand, rest, rfl, hoperand, hrest⟩ := closes_of_check.1 _ _ _ h
      exact ⟨_, rfl, hrest.isExpr (.single hoperand)⟩
    · cases h
  · intro h
    obtain ⟨body, rfl, hbody⟩ := h
    have hpass := hbody.checkOperand_append [] 1 .nil
    rw [List.append_nil, checkOperator_nil] at hpass
    exact hpass

theorem isValid_iff {formula : String} : isValid formula = true ↔ check formula = .ok () := by
  rw [isValid]
  cases check formula with
  | error cause => exact iff_of_false Bool.false_ne_true (fun h => nomatch h)
  | ok _ => exact iff_of_true rfl rfl

/-- A text is accepted exactly if the grammar derives it. -/
theorem check_eq_ok_iff (formula : String) : check formula = .ok () ↔ IsFormula formula.toList :=
  checkChars_eq_ok_iff

/-! ### What is blamed on a text -/

/-- After the equals sign only a position is blamed. -/
theorem check_ne_missingEquals :
    (∀ (opened : List Nat) (position : Nat) (cs : List Char),
      checkOperand opened position cs ≠ .error .missingEquals) ∧
    ∀ (opened : List Nat) (position : Nat) (cs : List Char),
      checkOperator opened position cs ≠ .error .missingEquals := by
  have hstop : ∀ opened position cs, stop opened position cs ≠ .error .missingEquals := by
    intro opened position cs h
    unfold stop at h
    split at h
    · cases h
    · split at h <;> cases h
  refine checkOperand.mutual_induct _ _ ?openParen ?operand ?refused ?last ?operator ?closeParen
    ?stopped
  case openParen =>
    intro opened position rest ih
    rwa [checkOperand_openParen]
  case operand =>
    intro opened position cs _ length rest hskip ih
    rwa [checkOperand_of_skipOperand? hskip]
  case refused =>
    intro opened position cs hopen hskip h
    rw [checkOperand_of_skipOperand?_none hopen hskip] at h
    cases h
  case last =>
    intro opened position
    rw [checkOperator]
    exact hstop opened position []
  case operator =>
    intro opened position c cs hc ih
    obtain ⟨op, rfl⟩ := exists_symbol_of_isOperator hc
    rwa [checkOperator_symbol]
  case closeParen =>
    intro position cs innermost outer _ ih
    rwa [checkOperator_closeParen]
  case stopped =>
    intro opened position c cs hc hclose
    rw [checkOperator_stop hc hclose]
    exact hstop opened position (c :: cs)

theorem checkChars_eq_missingEquals_iff :
    checkChars cs = .error .missingEquals ↔ cs.head? ≠ some '=' := by
  unfold checkChars
  split
  · exact iff_of_false (check_ne_missingEquals.1 [] 1 _) (fun h => h rfl)
  · rename_i hequals
    refine iff_of_true rfl fun h => ?_
    obtain ⟨body, rfl⟩ := List.head?_eq_some_iff.mp h
    exact hequals body rfl

end Spreadsheet.Formula
