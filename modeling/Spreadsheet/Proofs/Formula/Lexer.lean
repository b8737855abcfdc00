import Spreadsheet.Formula.Expr
import Spreadsheet.Formula.Lexer
import Spreadsheet.Proofs.Formula.Check
import Spreadsheet.Proofs.Formula.Names

/-!
# Cutting and checking agree

Whatever a text is cut into spells it, one lexeme after another. In the other direction a lexeme is
cut off as a whole unless its token `Takes` the character behind it. So a spelling of an expression is
cut into the tokens of that expression again: what follows an operand is `Delimited`. The grammar derives
the spellings of expressions and no other texts, so the check accepts a text exactly if its tokens are
those of an expression.
-/

namespace Spreadsheet.Formula

open Text

namespace Spells

variable {tokens more : List Token} {cs rest : List Char} {token : Token}

theorem singleton (h : Lexeme token cs) : Spells [token] cs := by
  simpa only [List.append_nil] using Spells.cons h .nil

theorem append (h : Spells tokens cs) (h' : Spells more rest) :
    Spells (tokens ++ more) (cs ++ rest) := by
  induction h with
  | nil => exact h'
  | cons hlexeme _ ih =>
    rw [List.cons_append, List.append_assoc]
    exact .cons hlexeme ih

theorem exists_of_cons (h : Spells (token :: tokens) cs) :
    ∃ lexeme rest, cs = lexeme ++ rest ∧ Lexeme token lexeme ∧ Spells tokens rest := by
  cases h with
  | cons hlexeme hrest => exact ⟨_, _, rfl, hlexeme, hrest⟩

theorem lexeme_of_singleton (h : Spells [token] cs) : Lexeme token cs := by
  obtain ⟨lexeme, rest, rfl, hlexeme, hrest⟩ := h.exists_of_cons
  cases hrest
  rwa [List.append_nil]

theorem exists_of_append (h : Spells (tokens ++ more) cs) :
    ∃ front rest, cs = front ++ rest ∧ Spells tokens front ∧ Spells more rest := by
  induction tokens generalizing cs with
  | nil => exact ⟨[], cs, rfl, .nil, h⟩
  | cons token tokens ih =>
    obtain ⟨lexeme, after, rfl, hlexeme, hafter⟩ := h.exists_of_cons
    obtain ⟨front, rest, rfl, hfront, hrest⟩ := ih hafter
    exact ⟨lexeme ++ front, rest, (List.append_assoc ..).symm, .cons hlexeme hfront, hrest⟩

/-- The spellings of a parenthesised token list. -/
theorem exists_of_group (h : Spells (.openParen :: (tokens ++ [.closeParen])) cs) :
    ∃ inner, cs = '(' :: (inner ++ [')']) ∧ Spells tokens inner := by
  obtain ⟨lexeme, rest, rfl, hopen, hrest⟩ := h.exists_of_cons
  obtain ⟨inner, last, rfl, hinner, hlast⟩ := hrest.exists_of_append
  cases hopen
  cases hlast.lexeme_of_singleton
  exact ⟨inner, rfl, hinner⟩

/-- The spellings of token lists with an operator between them. -/
theorem exists_of_operator {op : Operator} (h : Spells (tokens ++ .operator op :: more) cs) :
    ∃ left right, cs = left ++ op.symbol :: right ∧ Spells tokens left ∧ Spells more right := by
  obtain ⟨left, rest, rfl, hleft, hrest⟩ := h.exists_of_append
  obtain ⟨lexeme, right, rfl, hop, hright⟩ := hrest.exists_of_cons
  cases hop
  exact ⟨left, right, rfl, hleft, hright⟩

end Spells

/-! ### The lexeme at the front of a text -/

theorem lexeme_of_frontName {c : Char} {cs rest : List Char} {token : Token} {length : Nat}
    (hc : c.isAlpha) (h : frontName (c :: cs) = .lexeme token length rest) :
    ∃ lexeme, c :: cs = lexeme ++ rest ∧ length = lexeme.length ∧ Lexeme token lexeme := by
  obtain ⟨rfl, rfl, rfl⟩ := Front.lexeme.inj h
  refine ⟨_, ?_, List.length_append.symm, .name ?_ of_mem_takeWhile of_mem_takeWhile⟩
  · rw [List.append_assoc, List.takeWhile_append_dropWhile, List.takeWhile_append_dropWhile]
  · rw [List.takeWhile_cons_of_pos hc]
    exact List.cons_ne_nil _ _

theorem lexeme_of_frontNumber {c : Char} {cs rest : List Char} {token : Token} {length : Nat}
    (hc : c.isDigit) (h : frontNumber (c :: cs) = .lexeme token length rest) :
    ∃ lexeme, c :: cs = lexeme ++ rest ∧ length = lexeme.length ∧ Lexeme token lexeme := by
  have hne : (c :: cs).takeWhile Char.isDigit ≠ [] := by
    rw [List.takeWhile_cons_of_pos hc]
    exact List.cons_ne_nil _ _
  have hsplit := List.takeWhile_append_dropWhile (p := Char.isDigit) (l := c :: cs)
  rw [frontNumber] at h
  dsimp only at h
  split at h
  · rename_i more hmore
    split at h
    · cases h
    · rename_i hfraction
      obtain ⟨rfl, rfl, rfl⟩ := Front.lexeme.inj h
      refine ⟨_, ?_, ?_, .decimal hne of_mem_takeWhile (mt List.isEmpty_iff.mpr hfraction)
        of_mem_takeWhile⟩
      · rw [List.append_assoc, List.cons_append, List.takeWhile_append_dropWhile, ← hmore, hsplit]
      · rw [List.length_append, List.length_cons]
        omega
  · obtain ⟨rfl, rfl, rfl⟩ := Front.lexeme.inj h
    exact ⟨_, hsplit.symm, rfl, .whole hne of_mem_takeWhile⟩

theorem eq_symbol_of_ofChar? {c : Char} {op : Operator} (h : Operator.ofChar? c = some op) :
    c = op.symbol := by
  unfold Operator.ofChar? at h
  split at h <;> cases h <;> rfl

/-- What stands at the front of a text is spelled there. -/
theorem lexeme_of_front {c : Char} {cs rest : List Char} {token : Token} {length : Nat}
    (h : front c cs = .lexeme token length rest) :
    ∃ lexeme, c :: cs = lexeme ++ rest ∧ length = lexeme.length ∧ Lexeme token lexeme := by
  unfold front at h
  split at h
  · rename_i hc
    subst hc
    obtain ⟨rfl, rfl, rfl⟩ := Front.lexeme.inj h
    exact ⟨['('], rfl, rfl, .openParen⟩
  split at h
  · rename_i hc
    subst hc
    obtain ⟨rfl, rfl, rfl⟩ := Front.lexeme.inj h
    exact ⟨[')'], rfl, rfl, .closeParen⟩
  split at h
  · exact lexeme_of_frontName (by assumption) h
  split at h
  · exact lexeme_of_frontNumber (by assumption) h
  split at h
  · rename_i op hop
    obtain ⟨rfl, rfl, rfl⟩ := Front.lexeme.inj h
    rw [eq_symbol_of_ofChar? hop]
    exact ⟨[op.symbol], rfl, rfl, .operator op⟩
  · cases h

variable {position : Nat} {before tokens : List Token} {cs rest : List Char}

theorem spells_of_scan (h : scan position before cs = .ok tokens) :
    ∃ new, tokens = before.reverse ++ new ∧ Spells new cs := by
  fun_induction scan position before cs with
  | case1 position before =>
    cases h
    exact ⟨[], (List.append_nil _).symm, .nil⟩
  | case2 position before c cs token length rest hfront ih =>
    obtain ⟨new, rfl, hnew⟩ := ih h
    obtain ⟨lexeme, hcs, -, hlexeme⟩ := lexeme_of_front hfront
    refine ⟨token :: new, ?_, hcs ▸ .cons hlexeme hnew⟩
    rw [List.reverse_cons, List.append_assoc, List.singleton_append]
  | case3 => cases h
  | case4 => cases h

/-! ### Spellings are cut again -/

theorem scan_of_front {c : Char} {token : Token} {length : Nat}
    (h : front c cs = .lexeme token length rest) :
    scan position before (c :: cs) = scan (position + length) (token :: before) rest := by
  rw [scan]
  split
  · rename_i hfront
    obtain ⟨rfl, rfl, rfl⟩ := Front.lexeme.inj (h.symm.trans hfront)
    rfl
  · rename_i hfront
    cases h.symm.trans hfront
  · rename_i hfront
    cases h.symm.trans hfront

theorem scan_openParen (position : Nat) (before : List Token) (rest : List Char) :
    scan position before ('(' :: rest) = scan (position + 1) (.openParen :: before) rest :=
  scan_of_front rfl

theorem scan_closeParen (position : Nat) (before : List Token) (rest : List Char) :
    scan position before (')' :: rest) = scan (position + 1) (.closeParen :: before) rest :=
  scan_of_front rfl

theorem scan_symbol (op : Operator) (position : Nat) (before : List Token) (rest : List Char) :
    scan position before (op.symbol :: rest) = scan (position + 1) (.operator op :: before) rest := by
  apply scan_of_front
  cases op <;> rfl

theorem front_of_isAlphanum {c : Char} (hc : c.isAlphanum) (cs : List Char) :
    front c cs = if c.isAlpha then frontName (c :: cs) else frontNumber (c :: cs) := by
  have hopen : c ≠ '(' := by
    intro heq
    subst heq
    cases hc
  have hclose : c ≠ ')' := by
    intro heq
    subst heq
    cases hc
  rw [front, if_neg hopen, if_neg hclose]
  by_cases halpha : c.isAlpha
  · rw [if_pos halpha, if_pos halpha]
  · rw [Char.isAlphanum, Bool.or_eq_true] at hc
    rw [if_neg halpha, if_neg halpha, if_pos (hc.resolve_left halpha)]

theorem front_of_isAlpha {c : Char} (hc : c.isAlpha) (cs : List Char) :
    front c cs = frontName (c :: cs) := by
  have hword : c.isAlphanum := by rw [Char.isAlphanum, hc, Bool.true_or]
  rw [front_of_isAlphanum hword, if_pos hc]

theorem front_of_isDigit {c : Char} (hc : c.isDigit) (cs : List Char) :
    front c cs = frontNumber (c :: cs) := by
  have hword : c.isAlphanum := by rw [Char.isAlphanum, hc, Bool.or_true]
  rw [front_of_isAlphanum hword, if_neg (not_isAlpha_of_isDigit hc)]

theorem frontName_append {letters digits : List Char} (hletters : ∀ c ∈ letters, c.isAlpha)
    (hdigits : ∀ c ∈ digits, c.isDigit) (hend : ∀ c ∈ (digits ++ rest).head?, ¬ c.isAlpha)
    (hrest : ∀ c ∈ rest.head?, ¬ c.isDigit) : frontName (letters ++ digits ++ rest) =
      .lexeme (.reference (String.ofList (upper (letters ++ digits)))) (letters ++ digits).length
        rest := by
  rw [frontName, List.append_assoc, takeWhile_append_run hletters hend,
    dropWhile_append_run hletters hend, takeWhile_append_run hdigits hrest,
    dropWhile_append_run hdigits hrest, List.length_append]

theorem frontNumber_whole {digits : List Char} (hdigits : ∀ c ∈ digits, c.isDigit)
    (hrest : ∀ c ∈ rest.head?, ¬ c.isDigit) (hpoint : ∀ more, rest ≠ '.' :: more) :
    frontNumber (digits ++ rest) =
      .lexeme (.number (Number.ofDigits digits [])) digits.length rest := by
  rw [frontNumber, takeWhile_append_run hdigits hrest, dropWhile_append_run hdigits hrest]
  split
  · exact absurd rfl (hpoint _)
  · rfl

theorem frontNumber_point {digits : List Char} (hdigits : ∀ c ∈ digits, c.isDigit)
    (rest : List Char) : frontNumber (digits ++ '.' :: rest) =
      if (rest.takeWhile Char.isDigit).isEmpty then .malformedNumber
      else .lexeme (.number (Number.ofDigits digits (rest.takeWhile Char.isDigit)))
        (digits.length + 1 + (rest.takeWhile Char.isDigit).length) (rest.dropWhile Char.isDigit) := by
  have hend := not_isDigit_of_point rest
  rw [frontNumber, takeWhile_append_run hdigits hend, dropWhile_append_run hdigits hend]
  rfl

theorem frontNumber_decimal {digits fraction : List Char} (hdigits : ∀ c ∈ digits, c.isDigit)
    (hfne : fraction ≠ []) (hfraction : ∀ c ∈ fraction, c.isDigit)
    (hrest : ∀ c ∈ rest.head?, ¬ c.isDigit) : frontNumber (digits ++ '.' :: fraction ++ rest) =
      .lexeme (.number (Number.ofDigits digits fraction)) (digits ++ '.' :: fraction).length rest := by
  rw [List.append_assoc, List.cons_append, frontNumber_point hdigits,
    takeWhile_append_run hfraction hrest, dropWhile_append_run hfraction hrest,
    if_neg (mt List.isEmpty_iff.mp hfne), List.length_append, List.length_cons, Nat.add_assoc,
    Nat.add_comm 1]

/-- Whether a character directly behind a lexeme of this token would belong to it. -/
def Token.Takes : Token → Char → Prop
  | .number _, c => c.isDigit ∨ c = '.'
  | .reference name, c => c.isDigit ∨ c.isAlpha ∧ IsBareLabel name
  | _, _ => False

theorem Delimited.not_takes (h : Delimited rest) (token : Token) :
    ∀ c ∈ rest.head?, ¬ token.Takes c := by
  intro c hc htakes
  obtain ⟨halpha, hdigit, hpoint⟩ := h.head?_not hc
  cases token with
  | number value => exact htakes.elim hdigit hpoint
  | reference name => exact htakes.elim hdigit fun htakes => halpha htakes.1
  | _ => exact htakes

/-- A lexeme is cut off as a whole. -/
theorem Lexeme.front_append {token : Token} {lexeme : List Char} (h : Lexeme token lexeme)
    (hrest : ∀ c ∈ rest.head?, ¬ token.Takes c) :
    ∃ c cs, lexeme ++ rest = c :: cs ∧ front c cs = .lexeme token lexeme.length rest := by
  cases h with
  | @whole digits hne hdigits =>
    have hfront := frontNumber_whole hdigits (fun c hc hdigit => hrest c hc (Or.inl hdigit))
      fun more hmore => hrest '.' (by rw [hmore]; rfl) (Or.inr rfl)
    obtain ⟨d, ds, rfl⟩ := List.exists_cons_of_ne_nil hne
    exact ⟨d, ds ++ rest, rfl, (front_of_isDigit (hdigits d List.mem_cons_self) _).trans hfront⟩
  | @decimal digits fraction hne hdigits hfne hfraction =>
    have hfront := frontNumber_decimal hdigits hfne hfraction
      fun c hc hdigit => hrest c hc (Or.inl hdigit)
    obtain ⟨d, ds, rfl⟩ := List.exists_cons_of_ne_nil hne
    exact ⟨d, ds ++ '.' :: fraction ++ rest, rfl,
      (front_of_isDigit (hdigits d List.mem_cons_self) _).trans hfront⟩
  | @name letters digits hne hletters hdigits =>
    have hend : ∀ c ∈ (digits ++ rest).head?, ¬ c.isAlpha := by
      intro c hc halpha
      cases digits with
      | nil =>
        rw [List.append_nil] at hrest
        exact hrest c hc (Or.inr ⟨halpha, isBareLabel_upper hletters⟩)
      | cons d ds =>
        obtain rfl := Option.some.inj hc
        exact not_isAlpha_of_isDigit (hdigits _ List.mem_cons_self) halpha
    have hfront := frontName_append hletters hdigits hend
      fun c hc hdigit => hrest c hc (Or.inl hdigit)
    obtain ⟨c, cs, rfl⟩ := List.exists_cons_of_ne_nil hne
    exact ⟨c, cs ++ digits ++ rest, rfl,
      (front_of_isAlpha (hletters c List.mem_cons_self) _).trans hfront⟩
  | operator op =>
    refine ⟨op.symbol, rest, rfl, ?_⟩
    cases op <;> rfl
  | openParen => exact ⟨'(', rest, rfl, rfl⟩
  | closeParen => exact ⟨')', rest, rfl, rfl⟩

theorem Lexeme.scan_append {token : Token} {lexeme : List Char} (h : Lexeme token lexeme)
    (hrest : ∀ c ∈ rest.head?, ¬ token.Takes c) (position : Nat) (before : List Token) :
    scan position before (lexeme ++ rest) =
      scan (position + lexeme.length) (token :: before) rest := by
  obtain ⟨c, cs, hcs, hfront⟩ := h.front_append hrest
  rw [hcs, scan_of_front hfront]

mutual

theorem Operand.scan_append (operand : Operand) {cs : List Char} (h : Spells operand.tokens cs)
    {rest : List Char} (hrest : Delimited rest) (position : Nat) (before : List Token) :
    scan position before (cs ++ rest) =
      scan (position + cs.length) (operand.tokens.reverse ++ before) rest := by
  match operand, h with
  | .number value, h => exact h.lexeme_of_singleton.scan_append (hrest.not_takes _) position before
  | .reference name, h =>
    exact h.lexeme_of_singleton.scan_append (hrest.not_takes _) position before
  | .group e, h =>
    rw [Operand.tokens] at h
    obtain ⟨inner, rfl, hinner⟩ := h.exists_of_group
    have hlength : position + ('(' :: (inner ++ [')'])).length = position + 1 + inner.length + 1 := by
      simp only [List.length_cons, List.length_append, List.length_nil]
      omega
    rw [List.cons_append, List.append_assoc, List.singleton_append, scan_openParen,
      e.scan_append hinner (.closeParen rest), scan_closeParen, hlength, Operand.tokens]
    simp only [List.reverse_cons, List.reverse_append, List.reverse_nil, List.append_assoc,
      List.nil_append, List.cons_append]

theorem Expr.scan_append (e : Expr) {cs : List Char} (h : Spells e.tokens cs) {rest : List Char}
    (hrest : Delimited rest) (position : Nat) (before : List Token) :
    scan position before (cs ++ rest) =
      scan (position + cs.length) (e.tokens.reverse ++ before) rest := by
  match e, h with
  | .single operand, h => exact operand.scan_append h hrest position before
  | .chain e op operand, h =>
    rw [Expr.tokens] at h
    obtain ⟨left, right, rfl, hleft, hright⟩ := h.exists_of_operator
    have hlength : position + (left ++ op.symbol :: right).length
        = position + left.length + 1 + right.length := by
      simp only [List.length_cons, List.length_append]
      omega
    rw [List.append_assoc, List.cons_append, e.scan_append hleft (.operator op (right ++ rest)),
      scan_symbol, operand.scan_append hright hrest, hlength, Expr.tokens]
    simp only [List.reverse_cons, List.reverse_append, List.append_assoc, List.nil_append,
      List.cons_append]

end

/-! ### The grammar and the spellings of expressions -/

theorem Lexeme.isNumber {value : Float} (h : Lexeme (.number value) cs) : IsNumber cs := by
  cases h with
  | whole hne hdigits => exact .whole hne hdigits
  | decimal hne hdigits hfne hfraction => exact .decimal hne hdigits hfne hfraction

theorem Lexeme.isName {name : String} (h : Lexeme (.reference name) cs) : IsName cs := by
  cases h with
  | name hne hletters hdigits => exact .mk hne hletters hdigits

theorem IsNumber.exists_lexeme (h : IsNumber cs) : ∃ value, Lexeme (.number value) cs := by
  cases h with
  | whole hne hdigits => exact ⟨_, .whole hne hdigits⟩
  | decimal hne hdigits hfne hfraction => exact ⟨_, .decimal hne hdigits hfne hfraction⟩

theorem IsName.exists_lexeme (h : IsName cs) : ∃ name, Lexeme (.reference name) cs := by
  cases h with
  | mk hne hletters hdigits => exact ⟨_, .name hne hletters hdigits⟩

mutual

theorem Operand.isOperand (operand : Operand) {cs : List Char} (h : Spells operand.tokens cs) :
    IsOperand cs := by
  match operand, h with
  | .number value, h => exact .number h.lexeme_of_singleton.isNumber
  | .reference name, h => exact .reference h.lexeme_of_singleton.isName
  | .group e, h =>
    rw [Operand.tokens] at h
    obtain ⟨inner, rfl, hinner⟩ := h.exists_of_group
    exact .group (e.isExpr hinner)

theorem Expr.isExpr (e : Expr) {cs : List Char} (h : Spells e.tokens cs) : IsExpr cs := by
  match e, h with
  | .single operand, h => exact .single (operand.isOperand h)
  | .chain e op operand, h =>
    rw [Expr.tokens] at h
    obtain ⟨left, right, rfl, hleft, hright⟩ := h.exists_of_operator
    exact .chain op (e.isExpr hleft) (operand.isOperand hright)

end

mutual

theorem IsOperand.exists_spells {cs : List Char} (h : IsOperand cs) :
    ∃ operand : Operand, Spells operand.tokens cs := by
  match cs, h with
  | _, .number h =>
    obtain ⟨value, hvalue⟩ := h.exists_lexeme
    exact ⟨.number value, .singleton hvalue⟩
  | _, .reference h =>
    obtain ⟨name, hname⟩ := h.exists_lexeme
    exact ⟨.reference name, .singleton hname⟩
  | _, .group h =>
    obtain ⟨e, he⟩ := h.exists_spells
    exact ⟨.group e, .cons .openParen (he.append (.singleton .closeParen))⟩

theorem IsExpr.exists_spells {cs : List Char} (h : IsExpr cs) : ∃ e : Expr, Spells e.tokens cs := by
  match cs, h with
  | _, .single h =>
    obtain ⟨operand, hoperand⟩ := h.exists_spells
    exact ⟨.single operand, hoperand⟩
  | _, .chain op h ho =>
    obtain ⟨e, he⟩ := h.exists_spells
    obtain ⟨operand, hoperand⟩ := ho.exists_spells
    exact ⟨.chain e op operand, he.append (.cons (.operator op) hoperand)⟩

end

theorem check_eq_ok_iff_derives {formula : String} :
    check formula = .ok () ↔ ∃ e : Expr, e.Derives formula := by
  rw [check, checkChars_eq_ok_iff]
  constructor
  · intro h
    obtain ⟨body, hbody, hexpr⟩ := h
    obtain ⟨e, he⟩ := hexpr.exists_spells
    exact ⟨e, body, hbody, he⟩
  · intro h
    obtain ⟨e, body, hbody, he⟩ := h
    exact ⟨body, hbody, e.isExpr he⟩

theorem Expr.Derives.tokenize_eq {e : Expr} {formula : String} (h : e.Derives formula) :
    tokenize formula = .ok e.tokens := by
  obtain ⟨body, hbody, he⟩ := h
  have hscan := e.scan_append he .nil 1 []
  rw [List.append_nil, scan, List.append_nil, List.reverse_reverse] at hscan
  rw [tokenize, hbody]
  exact hscan

theorem Expr.derives_of_tokenize {e : Expr} {formula : String}
    (hequals : formula.toList.head? = some '=') (h : tokenize formula = .ok e.tokens) :
    e.Derives formula := by
  obtain ⟨body, hbody⟩ := List.head?_eq_some_iff.mp hequals
  rw [tokenize, hbody] at h
  obtain ⟨new, hnew, hspells⟩ := spells_of_scan h
  rw [List.reverse_nil, List.nil_append] at hnew
  exact ⟨body, hbody, hnew ▸ hspells⟩

end Spreadsheet.Formula
