import Spreadsheet.Proofs.Formula.Lexer
import Spreadsheet.Proofs.Text.Position

/-!
# Cutting at the longest lexemes

What cutting a text is meant to give, said without a scanner: from left to right the longest lexeme
is taken again and again, as long as there is one and it is no number with a point and no digit behind
it. `Munches` is that relation, and every text is cut by it up to where it is stuck, in one way only.

Two tokens that are cut off one after the other are `Apart`: the second one does not begin with a
character that the first one would have taken. In return every spelling of tokens that are apart is
cut into these tokens. So what stands before the place of an error can be cut on its own.
-/

namespace Spreadsheet.Formula

open Text

/-! ### What cutting is meant to give -/

/-- The text of a formula without the equals sign that it may begin with. -/
def body : List Char → List Char
  | '=' :: cs => cs
  | cs => cs

/-- A lexeme of the token stands before `rest`, and no longer lexeme begins where it does. -/
structure Longest (token : Token) (lexeme rest : List Char) : Prop where
  isLexeme : Lexeme token lexeme
  length_le : ∀ token' lexeme' rest', lexeme ++ rest = lexeme' ++ rest' → Lexeme token' lexeme' →
    lexeme'.length ≤ lexeme.length

/-- All the digits at the front of a text are followed by a point, and the point by no digit. -/
def Malformed (cs : List Char) : Prop :=
  ∃ digits rest, cs = digits ++ '.' :: rest ∧ digits ≠ [] ∧ (∀ c ∈ digits, c.isDigit) ∧
    ∀ c ∈ rest.head?, ¬ c.isDigit

/-- No lexeme stands at the front of a text. -/
def Stray (cs : List Char) : Prop :=
  ∀ token lexeme rest, cs = lexeme ++ rest → ¬ Lexeme token lexeme

/-- The tokens of the longest lexemes of a text, up to where `back` begins. -/
inductive Munches : List Char → List Token → List Char → Prop where
  | stop (back : List Char) : Munches back [] back
  | next {token : Token} {lexeme rest back : List Char} {tokens : List Token}
      (hlexeme : Longest token lexeme rest) (hsound : ¬ Malformed (lexeme ++ rest))
      (hrest : Munches rest tokens back) : Munches (lexeme ++ rest) (token :: tokens) back

/-- The longest lexemes of a text lead to a byte position, with `back` behind it. They spell their
tokens without a gap, and the text before the position has these tokens on its own. -/
def CutUpTo (s : String) (position : Nat) (tokens : List Token) (back : String) : Prop :=
  ∃ front, SplitsAt s position front back ∧ Munches (body s.toList) tokens back.toList ∧
    Spells tokens (body front.toList) ∧ tokenize front = .ok tokens

/-! ### Lexemes -/

variable {token next : Token} {lexeme cs rest back : List Char} {tokens : List Token} {c : Char}
  {length : Nat}

/-- The characters that lexemes of a token begin with. -/
def Token.Begins : Token → Char → Prop
  | .number _, c => c.isDigit
  | .reference _, c => c.isAlpha
  | .operator op, c => c = op.symbol
  | .openParen, c => c = '('
  | .closeParen, c => c = ')'

/-- Only numbers begin with a digit and only names with a letter, and nothing begins with a point. -/
theorem Token.Begins.cases (h : token.Begins c) :
    (c.isDigit ∧ ∃ value, token = .number value) ∨ (c.isAlpha ∧ ∃ name, token = .reference name) ∨
      (¬ c.isDigit ∧ ¬ c.isAlpha ∧ c ≠ '.') := by
  cases token with
  | number value => exact Or.inl ⟨h, value, rfl⟩
  | reference name => exact Or.inr (Or.inl ⟨h, name, rfl⟩)
  | operator op =>
    obtain rfl : c = op.symbol := h
    cases op <;> exact Or.inr (Or.inr (by decide))
  | openParen =>
    obtain rfl : c = '(' := h
    exact Or.inr (Or.inr (by decide))
  | closeParen =>
    obtain rfl : c = ')' := h
    exact Or.inr (Or.inr (by decide))

theorem Lexeme.exists_begins (h : Lexeme token lexeme) :
    ∃ c cs, lexeme = c :: cs ∧ token.Begins c := by
  cases h with
  | whole hne hdigits =>
    obtain ⟨d, ds, rfl⟩ := List.exists_cons_of_ne_nil hne
    exact ⟨d, ds, rfl, hdigits d List.mem_cons_self⟩
  | decimal hne hdigits =>
    obtain ⟨d, ds, rfl⟩ := List.exists_cons_of_ne_nil hne
    exact ⟨d, _, rfl, hdigits d List.mem_cons_self⟩
  | name hne hletters =>
    obtain ⟨l, ls, rfl⟩ := List.exists_cons_of_ne_nil hne
    exact ⟨l, _, rfl, hletters l List.mem_cons_self⟩
  | operator op => exact ⟨op.symbol, [], rfl, rfl⟩
  | openParen => exact ⟨'(', [], rfl, rfl⟩
  | closeParen => exact ⟨')', [], rfl, rfl⟩

theorem Lexeme.length_pos (h : Lexeme token lexeme) : 0 < lexeme.length := by
  obtain ⟨c, cs, rfl, -⟩ := h.exists_begins
  exact Nat.succ_pos _

theorem Lexeme.isAscii (h : Lexeme token lexeme) : IsAscii lexeme := by
  cases h with
  | whole _ hdigits => exact fun c hc => utf8Size_of_isDigit (hdigits c hc)
  | decimal _ hdigits _ hfraction =>
    refine isAscii_append.mpr ⟨fun c hc => utf8Size_of_isDigit (hdigits c hc), ?_⟩
    exact isAscii_cons.mpr ⟨rfl, fun c hc => utf8Size_of_isDigit (hfraction c hc)⟩
  | name _ hletters hdigits =>
    exact isAscii_append.mpr ⟨fun c hc => utf8Size_of_isAlpha (hletters c hc),
      fun c hc => utf8Size_of_isDigit (hdigits c hc)⟩
  | operator op => cases op <;> exact isAscii_cons.mpr ⟨rfl, isAscii_nil⟩
  | openParen => exact isAscii_cons.mpr ⟨rfl, isAscii_nil⟩
  | closeParen => exact isAscii_cons.mpr ⟨rfl, isAscii_nil⟩

theorem Spells.isAscii (h : Spells tokens cs) : IsAscii cs := by
  induction h with
  | nil => exact isAscii_nil
  | cons h _ ih => exact isAscii_append.mpr ⟨h.isAscii, ih⟩

/-- A lexeme has one token only. -/
theorem Lexeme.token_unique {token' : Token} (h : Lexeme token lexeme) (h' : Lexeme token' lexeme) :
    token = token' := by
  have hend {token : Token} : ∀ c ∈ ([] : List Char).head?, ¬ token.Takes c := fun c hc =>
    absurd hc (Option.not_mem_none c)
  obtain ⟨c, cs, hcs, hfront⟩ := h.front_append hend
  obtain ⟨c', cs', hcs', hfront'⟩ := h'.front_append hend
  obtain ⟨rfl, rfl⟩ := List.cons.inj (hcs.symm.trans hcs')
  exact (Front.lexeme.inj (hfront.symm.trans hfront')).1

/-! ### The front of a text -/

theorem of_cons_eq_append {p : Char → Bool} {run : List Char} (h : c :: cs = run ++ rest)
    (hne : run ≠ []) (hrun : ∀ d ∈ run, p d) : p c := by
  obtain ⟨d, ds, rfl⟩ := List.exists_cons_of_ne_nil hne
  obtain rfl : c = d := (List.cons.inj h).1
  exact hrun c List.mem_cons_self

theorem malformed_iff : front c cs = .malformedNumber ↔ Malformed (c :: cs) := by
  constructor
  · intro h
    have hnumber : c.isDigit ∧ frontNumber (c :: cs) = .malformedNumber := by
      unfold front at h
      split at h
      · cases h
      split at h
      · cases h
      split at h
      · cases h
      split at h
      · exact ⟨by assumption, h⟩
      split at h <;> cases h
    obtain ⟨hc, hfront⟩ := hnumber
    rw [frontNumber] at hfront
    dsimp only at hfront
    split at hfront
    · rename_i rest hrest
      split at hfront
      · rename_i hnone
        refine ⟨(c :: cs).takeWhile Char.isDigit, rest, ?_, ?_, of_mem_takeWhile, ?_⟩
        · rw [← hrest, List.takeWhile_append_dropWhile]
        · rw [List.takeWhile_cons_of_pos hc]
          exact List.cons_ne_nil _ _
        · intro d hd hdigit
          obtain ⟨rest, rfl⟩ := List.head?_eq_some_iff.mp hd
          rw [List.takeWhile_cons_of_pos hdigit] at hnone
          cases hnone
      · cases hfront
    · cases hfront
  · rintro ⟨digits, rest, hcs, hne, hdigits, hrest⟩
    have hc : c.isDigit := of_cons_eq_append hcs hne hdigits
    have hnone : rest.takeWhile Char.isDigit = [] :=
      takeWhile_append_run (List.forall_mem_nil _) hrest
    rw [front_of_isDigit hc, hcs, frontNumber_point hdigits, hnone]
    rfl

theorem Malformed.exists_lexeme (h : Malformed cs) :
    ∃ token lexeme rest, cs = lexeme ++ rest ∧ Lexeme token lexeme := by
  obtain ⟨digits, rest, rfl, hne, hdigits, -⟩ := h
  exact ⟨_, digits, '.' :: rest, rfl, .whole hne hdigits⟩

/-! No lexeme at the front of a text is longer than the one that is cut off. -/

section LengthLe

variable {digits rest' : List Char}

theorem length_le_of_frontNumber (hdigits : ∀ c ∈ digits, c.isDigit)
    (h : frontNumber (digits ++ rest') = .lexeme token length rest) : digits.length ≤ length := by
  rw [frontNumber, List.takeWhile_append_of_pos hdigits] at h
  dsimp only at h
  split at h
  · split at h
    · cases h
    · obtain ⟨-, rfl, -⟩ := Front.lexeme.inj h
      rw [List.length_append]
      omega
  · obtain ⟨-, rfl, -⟩ := Front.lexeme.inj h
    rw [List.length_append]
    omega

theorem length_le_of_frontNumber_point {fraction : List Char} (hdigits : ∀ c ∈ digits, c.isDigit)
    (hfraction : ∀ c ∈ fraction, c.isDigit)
    (h : frontNumber (digits ++ '.' :: (fraction ++ rest')) = .lexeme token length rest) :
    (digits ++ '.' :: fraction).length ≤ length := by
  rw [frontNumber_point hdigits, List.takeWhile_append_of_pos hfraction] at h
  split at h
  · cases h
  · obtain ⟨-, rfl, -⟩ := Front.lexeme.inj h
    simp only [List.length_append, List.length_cons]
    omega

theorem length_le_of_frontName {letters : List Char} (hletters : ∀ c ∈ letters, c.isAlpha)
    (hdigits : ∀ c ∈ digits, c.isDigit)
    (h : frontName (letters ++ (digits ++ rest')) = .lexeme token length rest) :
    (letters ++ digits).length ≤ length := by
  rw [frontName] at h
  obtain ⟨-, rfl, -⟩ := Front.lexeme.inj h
  cases digits with
  | nil =>
    rw [List.nil_append, List.append_nil, List.takeWhile_append_of_pos hletters, List.length_append]
    omega
  | cons d ds =>
    have hend : ∀ c ∈ (d :: ds ++ rest').head?, ¬ c.isAlpha := by
      intro c hc
      obtain rfl := Option.some.inj hc
      exact not_isAlpha_of_isDigit (hdigits _ List.mem_cons_self)
    rw [takeWhile_append_run hletters hend, dropWhile_append_run hletters hend,
      List.takeWhile_append_of_pos hdigits]
    simp only [List.length_append]
    omega

theorem length_le_of_front (h : front c cs = .lexeme token length rest) {token' : Token}
    {lexeme' : List Char} (hcs : c :: cs = lexeme' ++ rest') (hlexeme : Lexeme token' lexeme') :
    lexeme'.length ≤ length := by
  have hone : 1 ≤ length := by
    obtain ⟨lexeme, -, rfl, hlexeme⟩ := lexeme_of_front h
    exact hlexeme.length_pos
  cases hlexeme with
  | whole hne hdigits =>
    rw [front_of_isDigit (of_cons_eq_append hcs hne hdigits), hcs] at h
    exact length_le_of_frontNumber hdigits h
  | decimal hne hdigits _ hfraction =>
    rw [List.append_assoc] at hcs
    rw [front_of_isDigit (of_cons_eq_append hcs hne hdigits), hcs] at h
    exact length_le_of_frontNumber_point hdigits hfraction h
  | name hne hletters hdigits =>
    rw [List.append_assoc] at hcs
    rw [front_of_isAlpha (of_cons_eq_append hcs hne hletters), hcs] at h
    exact length_le_of_frontName hletters hdigits h
  | operator op => exact hone
  | openParen => exact hone
  | closeParen => exact hone

end LengthLe

theorem longest_of_front (h : front c cs = .lexeme token length rest) :
    ∃ lexeme, c :: cs = lexeme ++ rest ∧ length = lexeme.length ∧ Longest token lexeme rest ∧
      ¬ Malformed (c :: cs) := by
  obtain ⟨lexeme, hcs, hlength, hlexeme⟩ := lexeme_of_front h
  refine ⟨lexeme, hcs, hlength, ⟨hlexeme, fun token' lexeme' rest' heq hlexeme' => ?_⟩, ?_⟩
  · rw [← hlength]
    exact length_le_of_front h (hcs.trans heq) hlexeme'
  · intro hmalformed
    cases h.symm.trans (malformed_iff.mpr hmalformed)

theorem stray_iff : front c cs = .stray ↔ Stray (c :: cs) := by
  constructor
  · intro h token lexeme rest hcs hlexeme
    obtain ⟨d, ds, rfl, hbegins⟩ := hlexeme.exists_begins
    obtain rfl : c = d := (List.cons.inj hcs).1
    cases token with
    | number value =>
      have hc : c.isDigit := hbegins
      rw [front_of_isDigit hc, frontNumber] at h
      dsimp only at h
      split at h
      · split at h <;> cases h
      · cases h
    | reference name =>
      have hc : c.isAlpha := hbegins
      rw [front_of_isAlpha hc] at h
      cases h
    | operator op =>
      obtain rfl : c = op.symbol := hbegins
      cases op <;> cases h
    | openParen =>
      obtain rfl : c = '(' := hbegins
      cases h
    | closeParen =>
      obtain rfl : c = ')' := hbegins
      cases h
  · intro h
    cases hfront : front c cs with
    | lexeme token length rest =>
      obtain ⟨lexeme, hcs, -, hlexeme⟩ := lexeme_of_front hfront
      exact absurd hlexeme (h _ _ _ hcs)
    | malformedNumber =>
      obtain ⟨token, lexeme, rest, hcs, hlexeme⟩ := (malformed_iff.mp hfront).exists_lexeme
      exact absurd hlexeme (h _ _ _ hcs)
    | stray => rfl

/-- The longest lexeme is the one that is cut off. -/
theorem Longest.front_eq (h : Longest token lexeme rest) (hsound : ¬ Malformed (lexeme ++ rest)) :
    ∃ c cs, lexeme ++ rest = c :: cs ∧ front c cs = .lexeme token lexeme.length rest := by
  obtain ⟨c, ds, rfl, -⟩ := h.isLexeme.exists_begins
  refine ⟨c, ds ++ rest, rfl, ?_⟩
  cases hfront : front c (ds ++ rest) with
  | lexeme token' length rest' =>
    obtain ⟨lexeme', hcs, rfl, hlongest, -⟩ := longest_of_front hfront
    have hlength := Nat.le_antisymm (h.length_le _ _ _ hcs hlongest.isLexeme)
      (hlongest.length_le _ _ _ hcs.symm h.isLexeme)
    have happend : (c :: ds) ++ rest = lexeme' ++ rest' := hcs
    obtain ⟨rfl, rfl⟩ := List.append_inj happend hlength.symm
    rw [h.isLexeme.token_unique hlongest.isLexeme]
  | malformedNumber => exact absurd (malformed_iff.mp hfront) hsound
  | stray => exact absurd h.isLexeme (stray_iff.mp hfront _ (c :: ds) rest rfl)

/-! ### Scanning takes the longest lexemes -/

theorem scan_of_malformed (h : Malformed cs) (position : Nat) (before : List Token) :
    scan position before cs = .error (.malformedNumber position) := by
  cases cs with
  | nil =>
    obtain ⟨digits, rest, hcs, -⟩ := h
    cases digits <;> cases hcs
  | cons c cs =>
    have hfront := malformed_iff.mpr h
    rw [scan]
    split
    · rename_i hlexeme
      cases hfront.symm.trans hlexeme
    · rfl
    · rename_i hstray
      cases hfront.symm.trans hstray

theorem scan_of_stray (h : Stray (c :: cs)) (position : Nat) (before : List Token) :
    scan position before (c :: cs) = .error (.unexpectedChar c position) := by
  have hfront := stray_iff.mpr h
  rw [scan]
  split
  · rename_i hlexeme
    cases hfront.symm.trans hlexeme
  · rename_i hmalformed
    cases hfront.symm.trans hmalformed
  · rfl

/-- Scanning passes over the longest lexemes. -/
theorem Munches.exists_spells (h : Munches cs tokens back) :
    ∃ spelled, cs = spelled ++ back ∧ Spells tokens spelled ∧
      ∀ (position : Nat) (before : List Token), scan position before cs =
        scan (position + spelled.length) (tokens.reverse ++ before) back := by
  induction h with
  | stop back => exact ⟨[], rfl, .nil, fun _ _ => rfl⟩
  | @next token lexeme rest back tokens hlexeme hsound _ ih =>
    obtain ⟨spelled, rfl, hspelled, hscan⟩ := ih
    refine ⟨lexeme ++ spelled, (List.append_assoc ..).symm, .cons hlexeme.isLexeme hspelled, ?_⟩
    intro position before
    obtain ⟨c, cs, hcs, hfront⟩ := hlexeme.front_eq hsound
    rw [hcs, scan_of_front hfront, hscan, List.length_append, Nat.add_assoc, List.reverse_cons,
      List.append_assoc, List.singleton_append]

/-- Every text is cut up to its end or to where no lexeme can be taken. -/
theorem exists_munches (cs : List Char) :
    ∃ tokens back, Munches cs tokens back ∧
      (back = [] ∨ (∃ c rest, back = c :: rest ∧ Stray back) ∨ Malformed back) := by
  induction hlength : cs.length using Nat.strongRecOn generalizing cs with
  | ind n ih =>
    cases cs with
    | nil => exact ⟨[], [], .stop [], Or.inl rfl⟩
    | cons c cs =>
      cases hfront : front c cs with
      | lexeme token length rest =>
        have hshorter : rest.length < n := hlength ▸ front_shorter hfront
        obtain ⟨tokens, back, hmunches, hback⟩ := ih _ hshorter rest rfl
        obtain ⟨lexeme, hcs, -, hlexeme, hsound⟩ := longest_of_front hfront
        rw [hcs] at hsound ⊢
        exact ⟨token :: tokens, back, .next hlexeme hsound hmunches, hback⟩
      | malformedNumber => exact ⟨[], _, .stop _, Or.inr (Or.inr (malformed_iff.mp hfront))⟩
      | stray =>
        exact ⟨[], _, .stop _, Or.inr (Or.inl ⟨c, cs, rfl, stray_iff.mp hfront⟩)⟩

/-! ### Neighbours -/

/-- A lexeme of the second token does not run into one of the first token before it. -/
def Token.Apart : Token → Token → Prop
  | .number _, .number _ => False
  | .reference _, .number _ => False
  | .reference name, .reference _ => ¬ IsBareLabel name
  | _, _ => True

theorem Lexeme.not_takes (h : Lexeme next lexeme) (hapart : token.Apart next) :
    ∀ c ∈ (lexeme ++ rest).head?, ¬ token.Takes c := by
  obtain ⟨d, ds, rfl, hbegins⟩ := h.exists_begins
  intro c hc htakes
  obtain rfl : d = c := Option.some.inj hc
  rcases hbegins.cases with ⟨-, value, rfl⟩ | ⟨hletter, name, rfl⟩ | ⟨hdigit, hletter, hpoint⟩
  · cases token with
    | number | reference => exact hapart
    | _ => exact htakes
  · have hdigit : ¬ d.isDigit := fun hdigit => not_isAlpha_of_isDigit hdigit hletter
    cases token with
    | number =>
      rcases htakes with hd | rfl
      · exact hdigit hd
      · cases hletter
    | reference => exact htakes.elim hdigit fun htakes => hapart htakes.2
    | _ => exact htakes
  · cases token with
    | number => exact htakes.elim hdigit hpoint
    | reference => exact htakes.elim hdigit fun htakes => hletter htakes.1
    | _ => exact htakes

/-- A spelling of tokens that are apart is cut into them. -/
theorem Spells.scan_eq (h : Spells tokens cs) (hapart : tokens.IsChain Token.Apart) (position : Nat)
    (before : List Token) : scan position before cs = .ok (before.reverse ++ tokens) := by
  induction h generalizing position before with
  | nil => rw [scan, List.append_nil]
  | @cons token lexeme tokens rest h hrest ih =>
    have htakes : ∀ c ∈ rest.head?, ¬ token.Takes c := by
      cases hrest with
      | nil => exact fun c hc => absurd hc (Option.not_mem_none c)
      | cons hnext _ => exact hnext.not_takes (List.isChain_cons_cons.mp hapart).1
    rw [h.scan_append htakes, ih hapart.of_cons, List.reverse_cons, List.append_assoc,
      List.singleton_append]

/-- A lexeme that would take the character behind it is not the longest one. -/
theorem Lexeme.exists_snoc (h : Lexeme token lexeme) (htakes : token.Takes c) (hpoint : c ≠ '.') :
    ∃ token', Lexeme token' (lexeme ++ [c]) := by
  have hsnoc {cs : List Char} (hcs : ∀ d ∈ cs, d.isDigit) (hc : c.isDigit) :
      ∀ d ∈ cs ++ [c], d.isDigit :=
    List.forall_mem_append.mpr ⟨hcs, List.forall_mem_singleton.mpr hc⟩
  cases h with
  | whole hne hdigits =>
    exact ⟨_, .whole (List.append_ne_nil_of_left_ne_nil hne _)
      (hsnoc hdigits (htakes.resolve_right hpoint))⟩
  | decimal hne hdigits hfne hfraction =>
    rw [List.append_assoc, List.cons_append]
    exact ⟨_, .decimal hne hdigits (List.append_ne_nil_of_left_ne_nil hfne _)
      (hsnoc hfraction (htakes.resolve_right hpoint))⟩
  | @name letters digits hne hletters hdigits =>
    rcases htakes with hc | ⟨hc, hbare⟩
    · rw [List.append_assoc]
      exact ⟨_, .name hne hletters (hsnoc hdigits hc)⟩
    · obtain rfl : digits = [] := by
        refine List.eq_nil_iff_forall_not_mem.mpr fun d hd => hbare d ?_ (hdigits d hd)
        rw [String.toList_ofList, upper_append, upper_of_isDigit hdigits]
        exact List.mem_append_right _ hd
      have hname := Lexeme.name (List.append_ne_nil_of_left_ne_nil hne [c])
        (List.forall_mem_append.mpr ⟨hletters, List.forall_mem_singleton.mpr hc⟩) hdigits
      rw [List.append_nil] at hname ⊢
      exact ⟨_, hname⟩
  | _ => exact htakes.elim

theorem Longest.not_takes (h : Longest token lexeme (c :: rest)) (hpoint : c ≠ '.') :
    ¬ token.Takes c := by
  intro htakes
  obtain ⟨token', hlonger⟩ := h.isLexeme.exists_snoc htakes hpoint
  have hle := h.length_le token' (lexeme ++ [c]) rest (by simp) hlonger
  rw [List.length_append, List.length_singleton] at hle
  omega

theorem Longest.apart (h : Longest token lexeme (c :: rest)) (hbegins : next.Begins c) :
    token.Apart next := by
  cases token with
  | number value =>
    cases next with
    | number value' =>
      have hc : c.isDigit := hbegins
      exact h.not_takes (by rintro rfl; cases hc) (Or.inl hc)
    | _ => trivial
  | reference name =>
    cases next with
    | number value =>
      have hc : c.isDigit := hbegins
      exact h.not_takes (by rintro rfl; cases hc) (Or.inl hc)
    | reference name' =>
      have hc : c.isAlpha := hbegins
      exact fun hbare => h.not_takes (by rintro rfl; cases hc) (Or.inr ⟨hc, hbare⟩)
    | _ => trivial
  | _ => trivial

theorem Munches.isChain_apart (h : Munches cs tokens back) : tokens.IsChain Token.Apart := by
  induction h with
  | stop => exact .nil
  | @next token lexeme rest back tokens hlexeme _ hrest ih =>
    cases hrest with
    | stop => exact .singleton token
    | next hnext =>
      obtain ⟨c, ds, rfl, hbegins⟩ := hnext.isLexeme.exists_begins
      exact .cons_cons (hlexeme.apart hbegins) ih

/-! ### The tokens of a text -/

theorem tokenizeChars_of_ne (h : ∀ rest, cs ≠ '=' :: rest) : tokenizeChars cs = scan 0 [] cs := by
  unfold tokenizeChars
  split
  · exact absurd rfl (h _)
  · rfl

theorem exists_body_eq (cs : List Char) :
    ∃ head, cs = head ++ body cs ∧ IsAscii head ∧
      tokenizeChars cs = scan head.length [] (body cs) ∧
      ∀ spelled rest, body cs = spelled ++ rest → body (head ++ spelled) = spelled ∧
        tokenizeChars (head ++ spelled) = scan head.length [] spelled := by
  by_cases hequals : ∃ rest, cs = '=' :: rest
  · obtain ⟨rest, rfl⟩ := hequals
    exact ⟨['='], rfl, isAscii_cons.mpr ⟨rfl, isAscii_nil⟩, rfl, fun _ _ _ => ⟨rfl, rfl⟩⟩
  · have hskip {cs : List Char} (h : ∀ rest, cs ≠ '=' :: rest) :
        body cs = cs ∧ tokenizeChars cs = scan 0 [] cs := by
      refine ⟨?_, tokenizeChars_of_ne h⟩
      unfold body
      split
      · exact absurd rfl (h _)
      · rfl
    obtain ⟨hbody, htokens⟩ := hskip (not_exists.mp hequals)
    refine ⟨[], hbody.symm, isAscii_nil, hbody.symm ▸ htokens, fun spelled rest hcs => hskip ?_⟩
    rintro more rfl
    exact hequals ⟨more ++ rest, hbody.symm.trans hcs⟩

theorem Munches.exists_cutUpTo {s : String} (h : Munches (body s.toList) tokens back) :
    ∃ position, CutUpTo s position tokens (String.ofList back) ∧
      tokenize s = scan position tokens.reverse back := by
  obtain ⟨head, hs, hhead, htokens, hfront⟩ := exists_body_eq s.toList
  obtain ⟨spelled, hbody, hspelled, hscan⟩ := h.exists_spells
  obtain ⟨hbodyFront, htokensFront⟩ := hfront spelled back hbody
  have hsplit : s.toList = (head ++ spelled) ++ back := by rw [List.append_assoc, ← hbody, ← hs]
  have hascii : IsAscii (head ++ spelled) := isAscii_append.mpr ⟨hhead, hspelled.isAscii⟩
  refine ⟨(head ++ spelled).length, ⟨_, splitsAt_of_isAscii hsplit hascii, ?_, ?_, ?_⟩, ?_⟩
  · rwa [String.toList_ofList]
  · rwa [String.toList_ofList, hbodyFront]
  · rw [tokenize, String.toList_ofList, htokensFront, hspelled.scan_eq h.isChain_apart]
    rfl
  · rw [tokenize, htokens, hscan, List.append_nil, List.length_append]

theorem CutUpTo.tokenize_eq {s back : String} {position : Nat} (h : CutUpTo s position tokens back) :
    tokenize s = scan position tokens.reverse back.toList := by
  obtain ⟨front, hsplit, hmunches, -, -⟩ := h
  obtain ⟨position', ⟨front', hsplit', -⟩, htokens⟩ := hmunches.exists_cutUpTo
  rw [String.ofList_toList] at hsplit'
  rwa [hsplit'.position_unique hsplit] at htokens

/-- A text is cut up to its end, up to a character that begins no lexeme, or up to a malformed
number. -/
theorem tokenize_cases (s : String) : ∃ position tokens back, CutUpTo s position tokens back ∧
    ((back = "" ∧ tokenize s = .ok tokens) ∨
      (∃ c, back.toList.head? = some c ∧ Stray back.toList ∧
        tokenize s = .error (.unexpectedChar c position)) ∨
      (Malformed back.toList ∧ tokenize s = .error (.malformedNumber position))) := by
  obtain ⟨tokens, back, hmunches, hback⟩ := exists_munches (body s.toList)
  obtain ⟨position, hcut, htokens⟩ := hmunches.exists_cutUpTo
  refine ⟨position, tokens, String.ofList back, hcut, ?_⟩
  rw [String.toList_ofList]
  rcases hback with rfl | ⟨c, rest, rfl, hstray⟩ | hmalformed
  · refine Or.inl ⟨rfl, ?_⟩
    rw [htokens, scan, List.reverse_reverse]
  · exact Or.inr (Or.inl ⟨c, rfl, hstray, htokens.trans (scan_of_stray hstray _ _)⟩)
  · exact Or.inr (Or.inr ⟨hmalformed, htokens.trans (scan_of_malformed hmalformed _ _)⟩)

theorem munches_of_tokenize {s : String} (h : tokenize s = .ok tokens) :
    Munches (body s.toList) tokens [] := by
  obtain ⟨position, tokens', back, ⟨front, -, hmunches, -⟩, hcases⟩ := tokenize_cases s
  rcases hcases with ⟨rfl, hok⟩ | ⟨c, -, -, herror⟩ | ⟨-, herror⟩
  · obtain rfl := Except.ok.inj (hok.symm.trans h)
    exact hmunches
  · cases herror.symm.trans h
  · cases herror.symm.trans h

/-- A text is cut into the tokens of its longest lexemes if these cover it. A character is unexpected
exactly where the longest lexemes lead up to it and it begins none, and a number is malformed exactly
where they lead up to its first digit. What they have covered before an error can be cut on its own. -/
theorem tokenize_takes_longest (s : String) :
    (∀ tokens, tokenize s = .ok tokens ↔ Munches (body s.toList) tokens []) ∧
    (∀ c position, tokenize s = .error (.unexpectedChar c position) ↔
      ∃ tokens back, CutUpTo s position tokens back ∧ back.toList.head? = some c ∧
        Stray back.toList) ∧
    ∀ position, tokenize s = .error (.malformedNumber position) ↔
      ∃ tokens back, CutUpTo s position tokens back ∧ Malformed back.toList := by
  obtain ⟨position', tokens', back', hcut', hcases⟩ := tokenize_cases s
  refine ⟨fun tokens => ⟨munches_of_tokenize, fun h => ?_⟩, fun c position => ⟨fun h => ?_, ?_⟩,
    fun position => ⟨fun h => ?_, ?_⟩⟩
  · obtain ⟨position, -, htokens⟩ := h.exists_cutUpTo
    rw [htokens, scan, List.reverse_reverse]
  · rcases hcases with ⟨-, hok⟩ | ⟨d, hd, hstray, herror⟩ | ⟨-, herror⟩
    · cases hok.symm.trans h
    · obtain ⟨rfl, rfl⟩ := LexError.unexpectedChar.inj (Except.error.inj (herror.symm.trans h))
      exact ⟨tokens', back', hcut', hd, hstray⟩
    · cases herror.symm.trans h
  · rintro ⟨tokens, back, hcut, hc, hstray⟩
    obtain ⟨rest, hback⟩ := List.head?_eq_some_iff.mp hc
    rw [hcut.tokenize_eq, hback]
    exact scan_of_stray (hback ▸ hstray) position _
  · rcases hcases with ⟨-, hok⟩ | ⟨d, -, -, herror⟩ | ⟨hmalformed, herror⟩
    · cases hok.symm.trans h
    · cases herror.symm.trans h
    · obtain rfl := LexError.malformedNumber.inj (Except.error.inj (herror.symm.trans h))
      exact ⟨tokens', back', hcut', hmalformed⟩
  · rintro ⟨tokens, back, hcut, hmalformed⟩
    rw [hcut.tokenize_eq]
    exact scan_of_malformed hmalformed position _

end Spreadsheet.Formula
