import Spreadsheet.Proofs.Formula.Munch
import Spreadsheet.Proofs.Number.Shortest

/-!
# Printing tokens

The texts of tokens are put one after the other with nothing between them, and yet they are cut into
the same tokens again. A token's text is one of its lexemes: a name is in upper case already, and the
digits of a number read back. So tokens that were cut off a text keep apart in their new spelling.
-/

namespace Spreadsheet.Formula

open Text

/-- The texts of tokens, one after the other. -/
def print (tokens : List Token) : String := String.join (tokens.map Token.text)

/-- Whether the token is no infinite number and no NaN. -/
def Token.isFinite : Token → Bool
  | .number value => value.isFinite
  | _ => true

variable {token : Token} {lexeme cs : List Char} {tokens : List Token} {s : String}

theorem lexeme_of_written {whole fraction : List Char} (h : Number.Written cs whole fraction) :
    Lexeme (.number (Number.ofDigits whole fraction)) cs := by
  obtain ⟨hwhole, hfraction⟩ := List.forall_mem_append.mp h.isDigit
  rw [h.text_eq]
  cases fraction with
  | nil => exact .whole h.ne_nil hwhole
  | cons d ds => exact .decimal h.ne_nil hwhole (List.cons_ne_nil d ds) hfraction

theorem lexeme_text_of_finite {whole fraction : List Char}
    (h : (Number.ofDigits whole fraction).isFinite) :
    Lexeme (.number (Number.ofDigits whole fraction))
      (Number.text (Number.ofDigits whole fraction)).toList := by
  obtain ⟨negative, mantissa, exponent, hdecode⟩ := Number.exists_decode_of_isFinite h
  obtain rfl := Number.nearest_not_negative hdecode
  obtain ⟨whole', fraction', hwritten, hread⟩ := Number.exists_written_text hdecode
  have hlexeme := lexeme_of_written hwritten
  rwa [hread] at hlexeme

/-- The text of a token is one of its lexemes. -/
theorem Lexeme.text (h : Lexeme token lexeme) (hfinite : token.isFinite) :
    Lexeme token token.text.toList := by
  cases h with
  | whole => exact lexeme_text_of_finite hfinite
  | decimal => exact lexeme_text_of_finite hfinite
  | @name letters digits hne hletters hdigits =>
    have hname : upper (letters ++ digits) = upper letters ++ digits := by
      rw [upper_append, upper_of_isDigit hdigits]
    have hne' : upper letters ≠ [] := mt List.map_eq_nil_iff.mp hne
    have hupper := Lexeme.name hne' (isAlpha_of_mem_upper hletters) hdigits
    rw [upper_append, upper_upper hletters, upper_of_isDigit hdigits, ← hname] at hupper
    rwa [Token.text, String.toList_ofList]
  | operator op =>
    rw [Token.text, String.toList_singleton]
    exact .operator op
  | openParen => exact .openParen
  | closeParen => exact .closeParen

theorem Spells.print (h : Spells tokens cs) (hfinite : ∀ token ∈ tokens, token.isFinite) :
    Spells tokens (print tokens).toList := by
  induction h with
  | nil => exact .nil
  | @cons token lexeme tokens rest h hrest ih =>
    obtain ⟨htoken, htokens⟩ := List.forall_mem_cons.mp hfinite
    rw [Formula.print, List.map_cons, String.join_cons, String.toList_append]
    exact .cons (h.text htoken) (ih htokens)

theorem not_begins_equals (token : Token) : ¬ token.Begins '=' := by
  intro h
  cases token with
  | operator op => cases op <;> cases h
  | _ => cases h

/-- A spelling of tokens that are apart is cut into them, since it starts with no equals sign. -/
theorem Spells.tokenize_eq (h : Spells tokens s.toList) (hapart : tokens.IsChain Token.Apart) :
    tokenize s = .ok tokens := by
  have hequals : ∀ body, s.toList ≠ '=' :: body := by
    intro body heq
    rw [heq] at h
    generalize hcs : '=' :: body = cs at h
    cases h with
    | nil => cases hcs
    | cons hlexeme =>
      obtain ⟨c, cs, rfl, hbegins⟩ := hlexeme.exists_begins
      obtain rfl : '=' = c := (List.cons.inj hcs).1
      exact not_begins_equals _ hbegins
  rw [tokenize, tokenizeChars_of_ne hequals, h.scan_eq hapart]
  rfl

/-- What is printed is cut into the same tokens, and after an equals sign it is a formula if the tokens
are those of one. -/
theorem tokenize_print (h : tokenize s = .ok tokens) (hfinite : ∀ token ∈ tokens, token.isFinite) :
    tokenize (print tokens) = .ok tokens ∧
      (check s = .ok () → check ("=" ++ print tokens) = .ok ()) := by
  have hmunches := munches_of_tokenize h
  obtain ⟨spelled, -, hspells, -⟩ := hmunches.exists_spells
  have hprint := hspells.print hfinite
  refine ⟨hprint.tokenize_eq hmunches.isChain_apart, fun hcheck => ?_⟩
  obtain ⟨e, he⟩ := check_eq_ok_iff_derives.mp hcheck
  obtain rfl := Except.ok.inj (he.tokenize_eq.symm.trans h)
  exact check_eq_ok_iff_derives.mpr ⟨e, _, by rw [String.toList_append]; rfl, hprint⟩

/-- A formula with a number that has another spelling, a name in lower case and a bare label. -/
theorem tokenize_print_of_spellings : ∃ tokens, tokenize "=a01*(2.50+bC)/0012" = .ok tokens ∧
    tokenize (print tokens) = .ok tokens ∧ check ("=" ++ print tokens) = .ok () := by
  have hcheck : check "=a01*(2.50+bC)/0012" = .ok () := isValid_iff.mp (by decide +kernel)
  have hall : (tokenize "=a01*(2.50+bC)/0012").toOption.any (·.all Token.isFinite) = true := by
    decide +kernel
  cases htokens : tokenize "=a01*(2.50+bC)/0012" with
  | error cause =>
    rw [htokens] at hall
    cases hall
  | ok tokens =>
    rw [htokens] at hall
    obtain ⟨hprint, hformula⟩ := tokenize_print htokens (List.all_eq_true.mp hall)
    exact ⟨tokens, rfl, hprint, hformula hcheck⟩

end Spreadsheet.Formula
