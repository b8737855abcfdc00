import Spreadsheet.Formula.Evaluate
import Spreadsheet.Formula.Lexer
import Spreadsheet.Formula.References
import Spreadsheet.Proofs.Ref

/-!
# What a formula reads

The cells that a formula is recalculated for are found by a search of its text, and the numbers that
it is evaluated with are looked up for its tokens. The two agree on every text that can be cut into
tokens, but for the names without digits: `resolve_congr` says that other numbers do not matter.
-/

namespace Spreadsheet.Formula

open Text

/-- Whether a name in a formula is a bare label: letters without digits. -/
def IsBareLabel (name : String) : Prop := ∀ c ∈ name.toList, ¬ c.isDigit

/-! ### Names in a text -/

theorem names_cons_of_not_isAlpha {c : Char} {cs : List Char} (h : ¬ c.isAlpha) :
    names (c :: cs) = names cs := by
  rw [names]
  simp [h]

theorem names_append_of_not_isAlpha {cs rest : List Char} (h : ∀ c ∈ cs, ¬ c.isAlpha) :
    names (cs ++ rest) = names rest := by
  induction cs with
  | nil => rfl
  | cons c cs ih =>
    rw [List.cons_append, names_cons_of_not_isAlpha (h c List.mem_cons_self)]
    exact ih fun d hd => h d (List.mem_cons_of_mem c hd)

/-- Skipping the digits at the front of a text loses no name. -/
theorem names_dropWhile_isDigit (cs : List Char) : names (cs.dropWhile Char.isDigit) = names cs := by
  calc
    _ = names (cs.takeWhile Char.isDigit ++ cs.dropWhile Char.isDigit) :=
      (names_append_of_not_isAlpha fun c hc =>
        not_isAlpha_of_isDigit (of_mem_takeWhile c hc)).symm
    _ = names cs := by rw [List.takeWhile_append_dropWhile]

theorem exists_parts_of_mem_names {cs n : List Char} (h : n ∈ names cs) :
    ∃ letters digits, n = letters ++ digits ∧ (∀ c ∈ letters, c.isAlpha) ∧
      ∀ c ∈ digits, c.isDigit := by
  fun_induction names cs with
  | case1 => cases h
  | case2 c rest hc after digits others hempty ih => exact ih h
  | case3 c rest hc letters after digits others hne ih =>
    rcases List.mem_cons.mp h with rfl | h
    · refine ⟨letters, digits, rfl, ?_, of_mem_takeWhile⟩
      intro d hd
      rcases List.mem_cons.mp hd with rfl | hd
      · exact hc
      · exact of_mem_takeWhile d hd
    · exact ih h
  | case4 c rest hc ih => exact ih h

/-! ### Names among the tokens -/

theorem isBareLabel_upper {letters : List Char} (h : ∀ c ∈ letters, c.isAlpha) :
    IsBareLabel (String.ofList (upper letters)) := by
  intro c hc hdigit
  rw [String.toList_ofList] at hc
  exact not_isAlpha_of_isDigit hdigit (isAlpha_of_mem_upper h c hc)

theorem names_of_frontName {c : Char} {cs rest : List Char} {token : Token} {length : Nat}
    (hc : c.isAlpha) (h : frontName (c :: cs) = .lexeme token length rest) :
    (names (c :: cs) = names rest ∧ ∀ name, token = .reference name → IsBareLabel name) ∨
      ∃ n, token = .reference (String.ofList (upper n)) ∧ names (c :: cs) = n :: names rest := by
  simp only [frontName, List.takeWhile_cons_of_pos hc, List.dropWhile_cons_of_pos hc,
    Front.lexeme.injEq] at h
  obtain ⟨rfl, -, rfl⟩ := h
  rw [names]
  simp only [hc, if_true]
  by_cases hdigits : ((cs.dropWhile Char.isAlpha).takeWhile Char.isDigit).isEmpty
  · rw [if_pos hdigits]
    refine Or.inl ⟨rfl, fun name hname => ?_⟩
    rw [List.isEmpty_iff.mp hdigits, List.append_nil] at hname
    obtain rfl := Token.reference.inj hname
    apply isBareLabel_upper
    intro d hd
    rcases List.mem_cons.mp hd with rfl | hd
    · exact hc
    · exact of_mem_takeWhile d hd
  · rw [if_neg hdigits]
    exact Or.inr ⟨_, rfl, rfl⟩

theorem names_of_frontNumber {c : Char} {cs rest : List Char} {token : Token} {length : Nat}
    (h : frontNumber (c :: cs) = .lexeme token length rest) :
    names (c :: cs) = names rest ∧ ∃ value, token = .number value := by
  rw [← names_dropWhile_isDigit]
  unfold frontNumber at h
  simp only at h
  split at h
  · rename_i after hafter
    split at h
    · cases h
    · obtain ⟨rfl, -, rfl⟩ := Front.lexeme.inj h
      rw [hafter, names_cons_of_not_isAlpha (by decide), names_dropWhile_isDigit]
      exact ⟨rfl, _, rfl⟩
  · obtain ⟨rfl, -, rfl⟩ := Front.lexeme.inj h
    exact ⟨rfl, _, rfl⟩

/-- The names before and after the first token of a text: a reference takes its own name away,
unless it is a bare label, and any other token takes none. -/
theorem names_of_front {c : Char} {cs rest : List Char} {token : Token} {length : Nat}
    (h : front c cs = .lexeme token length rest) :
    (names (c :: cs) = names rest ∧ ∀ name, token = .reference name → IsBareLabel name) ∨
      ∃ n, token = .reference (String.ofList (upper n)) ∧ names (c :: cs) = n :: names rest := by
  have hone (hc : ¬ c.isAlpha) {t : Token} (ht : ∀ name, t ≠ .reference name)
      (h : Front.lexeme t 1 cs = .lexeme token length rest) :
      names (c :: cs) = names rest ∧ ∀ name, token = .reference name → IsBareLabel name := by
    cases h
    exact ⟨names_cons_of_not_isAlpha hc, fun name hname => absurd hname (ht name)⟩
  unfold front at h
  split at h
  · rename_i hc
    subst hc
    exact Or.inl (hone (by decide) (by simp) h)
  split at h
  · rename_i hc
    subst hc
    exact Or.inl (hone (by decide) (by simp) h)
  split at h
  · rename_i hc
    exact names_of_frontName hc h
  rename_i hc
  split at h
  · obtain ⟨hnames, value, rfl⟩ := names_of_frontNumber h
    exact Or.inl ⟨hnames, fun name hname => by cases hname⟩
  split at h
  · exact Or.inl (hone hc (by simp) h)
  · cases h

/-- Every reference among the tokens that is no bare label is a name in the text. -/
theorem mem_names_of_scan {position : Nat} {before tokens : List Token} {cs : List Char}
    (h : scan position before cs = .ok tokens) {name : String} (hmem : .reference name ∈ tokens)
    (hlabel : ¬ IsBareLabel name) :
    .reference name ∈ before ∨ ∃ n ∈ names cs, name = String.ofList (upper n) := by
  fun_induction scan position before cs with
  | case1 position before =>
    cases h
    exact Or.inl (List.mem_reverse.mp hmem)
  | case2 position before c cs token length rest hfront ih =>
    rcases names_of_front hfront with ⟨hnames, hbare⟩ | ⟨n, htoken, hnames⟩
    · rw [hnames]
      refine (ih h).imp_left fun hbefore => ?_
      exact (List.mem_cons.mp hbefore).resolve_left fun heq => hlabel (hbare name heq.symm)
    · rw [hnames]
      rcases ih h with hbefore | ⟨m, hm, rfl⟩
      · rcases List.mem_cons.mp hbefore with heq | hbefore
        · rw [htoken] at heq
          exact Or.inr ⟨n, List.mem_cons_self, Token.reference.inj heq⟩
        · exact Or.inl hbefore
      · exact Or.inr ⟨m, List.mem_cons_of_mem n hm, rfl⟩
  | case3 => cases h
  | case4 => cases h

theorem mem_names_of_tokenize {text : String} {tokens : List Token}
    (h : tokenize text = .ok tokens) {name : String} (hmem : .reference name ∈ tokens)
    (hlabel : ¬ IsBareLabel name) : ∃ n ∈ names text.toList, name = String.ofList (upper n) := by
  unfold tokenize tokenizeChars at h
  split at h
  · rename_i body htext
    rw [htext, names_cons_of_not_isAlpha (by decide)]
    exact (mem_names_of_scan h hmem hlabel).resolve_left List.not_mem_nil
  · exact (mem_names_of_scan h hmem hlabel).resolve_left List.not_mem_nil

theorem mem_references_iff {text : String} {r : Ref} :
    r ∈ references text ↔ ∃ n ∈ names text.toList, Ref.ofChars? n = some r := by
  simp only [references, Std.ExtTreeSet.mem_ofList, List.contains_eq_mem, List.mem_filterMap,
    decide_eq_true_eq]

/-- The cell that a reference among the tokens denotes is one that the text names. -/
theorem mem_references_of_tokenize {text : String} {tokens : List Token}
    (h : tokenize text = .ok tokens) {name : String} (hmem : .reference name ∈ tokens)
    (hlabel : ¬ IsBareLabel name) {r : Ref} (hr : Ref.parse? name = some r) :
    r ∈ references text := by
  obtain ⟨n, hn, rfl⟩ := mem_names_of_tokenize h hmem hlabel
  obtain ⟨letters, digits, rfl, hletters, hdigits⟩ := exists_parts_of_mem_names hn
  rw [Ref.parse?_upper hletters hdigits] at hr
  exact mem_references_iff.mpr ⟨letters ++ digits, hn, hr⟩

/-- Without bare labels, the numbers in cells that the text does not name do not matter. -/
theorem resolve_congr {text : String} {tokens : List Token} (h : tokenize text = .ok tokens)
    (hlabels : ∀ name, .reference name ∈ tokens → ¬ IsBareLabel name) {l l' : Lookup}
    (hl : ∀ r ∈ references text, l r = l' r) : resolve l tokens = resolve l' tokens := by
  apply List.map_congr_left
  intro token htoken
  cases token with
  | reference name =>
    cases hr : Ref.parse? name with
    | none => simp [Token.resolve, hr]
    | some r =>
      have hmem := mem_references_of_tokenize h htoken (hlabels name htoken) hr
      simp [Token.resolve, hr, hl r hmem]
  | _ => rfl

end Spreadsheet.Formula
