import Spreadsheet.Proofs.Formula.Check
import Spreadsheet.Proofs.Formula.Parens
import Spreadsheet.Proofs.Text.Position

/-!
# Where a text is refused

A refused text is the beginning of a formula up to the place that is blamed, or up to where a
parenthesis should have been closed. What the check has passed over is kept as `AtOperand` and
`AtOperator`: another text that begins in the same way is checked as this one is, from there on. So the
beginning can be completed by an operand and by the closing parentheses that are missing.
-/

namespace Spreadsheet.Formula

open Text

/-- As many more parentheses are opened in the text than are closed. -/
def Lacks (front : String) (missing : Nat) : Prop :=
  front.toList.count '(' = front.toList.count ')' + missing

/-- The text with closing parentheses behind it. -/
def closed (front : String) (missing : Nat) : String :=
  front ++ String.ofList (List.replicate missing ')')

/-- What each reason says about the text that is refused for it. -/
def Blames (s : String) : CheckError → Prop
  | .missingEquals => s.toList.head? ≠ some '='
  | .expectedOperand position => ∃ front back missing, SplitsAt s position front back ∧
      (∀ c ∈ back.toList.head?, c ≠ '(' ∧ ¬ c.isDigit ∧ ¬ c.isAlpha) ∧
      Lacks front missing ∧ check (closed (front ++ "1") missing) = .ok ()
  | .expectedOperator position => ∃ front back, SplitsAt s position front back ∧ back ≠ "" ∧
      check front = .ok () ∧ ∀ position' front' back', SplitsAt s position' front' back' →
        check front' = .ok () → position' ≤ position
  | .unclosedParen position => ∃ reached front back missing, SplitsAt s reached front back ∧
      position < reached ∧ (∀ c ∈ back.toList.head?, ¬ isOperator c ∧ c ≠ ')') ∧
      Lacks front missing ∧ 0 < missing ∧ check (closed front missing) = .ok () ∧
      ∃ before inside, SplitsAt front position before ("(" ++ inside) ∧ Balanced inside.toList

/-! ### Operands of a shorter text -/

theorem skipOperand?_cons_eq_none_iff {c : Char} {cs : List Char} :
    skipOperand? (c :: cs) = none ↔ ¬ c.isDigit ∧ ¬ c.isAlpha := by
  rw [skipOperand?]
  by_cases hdigit : c.isDigit
  · simp [hdigit]
  · by_cases halpha : c.isAlpha <;> simp [hdigit, halpha]

theorem skipFraction_of_prefix {as bs : List Char} (h : as <+: bs)
    (hlength : (skipFraction bs).1 ≤ as.length) :
    (skipFraction as).1 = (skipFraction bs).1 ∧ (skipFraction as).2 <+: (skipFraction bs).2 := by
  by_cases hfraction : ∃ d rest, bs = '.' :: d :: rest ∧ d.isDigit
  · obtain ⟨d, rest, rfl, hd⟩ := hfraction
    rw [skipFraction, if_pos hd] at hlength ⊢
    dsimp only at hlength ⊢
    obtain ⟨n, hn⟩ := Nat.exists_eq_add_of_le' (Nat.le_of_add_left_le hlength)
    have has : as = '.' :: d :: rest.take n := by
      rw [List.prefix_iff_eq_take.mp h, hn]
      rfl
    have htaken : (rest.takeWhile Char.isDigit).length ≤ (rest.take n).length := by
      rw [has, List.length_cons, List.length_cons] at hlength
      omega
    obtain ⟨htake, hdrop⟩ := takeWhile_of_prefix (List.take_prefix n rest) htaken
    rw [has, skipFraction, if_pos hd, htake]
    exact ⟨rfl, hdrop⟩
  · have hnone {cs : List Char} (hcs : cs <+: bs) : skipFraction cs = (0, cs) := by
      refine skipFraction_of_not_isDigit fun d rest heq hd => hfraction ?_
      obtain ⟨more, rfl⟩ := hcs
      exact ⟨d, rest ++ more, by rw [heq]; rfl, hd⟩
    rw [hnone h, hnone (List.prefix_refl bs)]
    exact ⟨rfl, h⟩

/-- An operand ends where it did when the text behind it is cut off. -/
theorem skipOperand?_of_prefix {lexeme rest more : List Char}
    (h : skipOperand? (lexeme ++ rest) = some (lexeme.length, rest)) (hmore : more <+: rest) :
    skipOperand? (lexeme ++ more) = some (lexeme.length, more) := by
  suffices hsome : ∃ more', skipOperand? (lexeme ++ more) = some (lexeme.length, more') by
    obtain ⟨more', hsome⟩ := hsome
    obtain ⟨lexeme', happend, hlength, -⟩ := exists_of_skipOperand? hsome
    rw [hsome, (List.append_inj happend hlength).2]
  cases lexeme with
  | nil =>
    have hshorter := skipOperand?_shorter h
    exact absurd hshorter (Nat.lt_irrefl _)
  | cons c cs =>
    have hprefix : cs ++ more <+: cs ++ rest := (List.prefix_append_right_inj cs).mpr hmore
    have hlong : cs.length ≤ (cs ++ more).length := by
      rw [List.length_append]
      omega
    rw [List.cons_append, skipOperand?] at h ⊢
    generalize cs ++ rest = bs at h hprefix
    generalize cs ++ more = as at hprefix hlong ⊢
    dsimp only at h ⊢
    split at h
    · rename_i hc
      have hlength := (Prod.mk.inj (Option.some.inj h)).1
      rw [List.length_cons] at hlength
      obtain ⟨hrun, hdrop⟩ := takeWhile_of_prefix (p := Char.isDigit) hprefix (by omega)
      have hsplit := congrArg List.length (List.takeWhile_append_dropWhile (p := Char.isDigit) (l := as))
      rw [List.length_append, hrun] at hsplit
      obtain ⟨hfraction, -⟩ := skipFraction_of_prefix hdrop (by omega)
      rw [if_pos hc, hrun, hfraction, hlength]
      exact ⟨_, rfl⟩
    split at h
    · rename_i hdigit halpha
      have hlength := (Prod.mk.inj (Option.some.inj h)).1
      rw [List.length_cons] at hlength
      obtain ⟨hletters, hdrop⟩ := takeWhile_of_prefix (p := Char.isAlpha) hprefix (by omega)
      have hsplit := congrArg List.length (List.takeWhile_append_dropWhile (p := Char.isAlpha) (l := as))
      rw [List.length_append, hletters] at hsplit
      obtain ⟨hdigits, -⟩ := takeWhile_of_prefix (p := Char.isDigit) hdrop (by omega)
      rw [if_neg hdigit, if_pos halpha, hletters, hdigits, hlength]
      exact ⟨_, rfl⟩
    · cases h

/-- A fraction that ends within a text ends there also if something other than a digit is put behind the
text. -/
theorem skipFraction_append_tail {cs tail : List Char} (hne : (skipFraction cs).2 ≠ [])
    (htail : ∀ c ∈ tail.head?, ¬ c.isDigit) :
    skipFraction (cs ++ tail) = ((skipFraction cs).1, (skipFraction cs).2 ++ tail) := by
  by_cases hfraction : ∃ d rest, cs = '.' :: d :: rest ∧ d.isDigit
  · obtain ⟨d, rest, rfl, hd⟩ := hfraction
    rw [skipFraction, if_pos hd] at hne ⊢
    obtain ⟨htake, hdrop⟩ := takeWhile_append_of_ended hne tail
    rw [List.cons_append, List.cons_append, skipFraction, if_pos hd, htake, hdrop]
  · have hnone : skipFraction cs = (0, cs) :=
      skipFraction_of_not_isDigit fun d rest heq hd => hfraction ⟨d, rest, heq, hd⟩
    rw [hnone] at hne ⊢
    refine skipFraction_of_not_isDigit fun d rest heq hd => ?_
    obtain ⟨c, cs, rfl⟩ := List.exists_cons_of_ne_nil hne
    cases cs with
    | nil =>
      obtain ⟨-, rfl⟩ := List.cons.inj heq
      exact htail d rfl hd
    | cons d' rest' =>
      obtain ⟨rfl, hrest⟩ := List.cons.inj heq
      obtain ⟨rfl, -⟩ := List.cons.inj hrest
      exact hfraction ⟨d', rest', rfl, hd⟩

theorem skipOperand?_append_tail {cs rest tail : List Char} {length : Nat}
    (h : skipOperand? cs = some (length, rest)) (hne : rest ≠ [])
    (htail : ∀ c ∈ tail.head?, ¬ c.isDigit) : skipOperand? (cs ++ tail) = some (length, rest ++ tail) := by
  cases cs with
  | nil => cases h
  | cons c cs =>
    rw [skipOperand?] at h
    rw [List.cons_append, skipOperand?]
    dsimp only at h ⊢
    split at h
    · rename_i hc
      obtain ⟨rfl, rfl⟩ := Prod.mk.inj (Option.some.inj h)
      have hended : cs.dropWhile Char.isDigit ≠ [] := by
        intro hnil
        rw [hnil] at hne
        exact hne rfl
      obtain ⟨htake, hdrop⟩ := takeWhile_append_of_ended hended tail
      rw [if_pos hc, htake, hdrop, skipFraction_append_tail hne htail]
    split at h
    · rename_i hdigit halpha
      obtain ⟨rfl, rfl⟩ := Prod.mk.inj (Option.some.inj h)
      have hended : cs.dropWhile Char.isAlpha ≠ [] := by
        intro hnil
        rw [hnil] at hne
        exact hne rfl
      obtain ⟨hletters, hafter⟩ := takeWhile_append_of_ended hended tail
      obtain ⟨hdigits, hdrop⟩ := takeWhile_append_of_ended hne tail
      rw [if_neg hdigit, if_pos halpha, hletters, hafter, hdigits, hdrop]
    · cases h

/-- An operand ends where it did when the text behind it is cut off and something put there that does
not continue it. -/
theorem skipOperand?_of_prefix_append {lexeme rest more tail : List Char}
    (h : skipOperand? (lexeme ++ rest) = some (lexeme.length, rest))
    (hlexeme : IsNumber lexeme ∨ IsName lexeme) (hmore : more <+: rest)
    (htail : ∀ c ∈ tail.head?, ¬ c.isDigit) (hnil : more = [] → Delimited tail) :
    skipOperand? (lexeme ++ (more ++ tail)) = some (lexeme.length, more ++ tail) := by
  cases more with
  | nil =>
    have hdelimited := hnil rfl
    exact hlexeme.elim (skipOperand?_number · hdelimited) (skipOperand?_name · hdelimited)
  | cons c more =>
    have hcut := skipOperand?_of_prefix h hmore
    rw [← List.append_assoc]
    exact skipOperand?_append_tail hcut (List.cons_ne_nil c more) htail

/-! ### What the check has passed over -/

variable {opened outer : List Nat} {innermost position : Nat} {front back lexeme rest : List Char}

/-- The text passed over is ASCII, so that its characters are counted by the position, and the
parentheses that are open in it are known. -/
structure Passed (opened : List Nat) (position : Nat) (front : List Char) : Prop where
  isAscii : IsAscii front
  length_eq : front.length = position
  parens : Opened opened front

/-- The check stands where an operand must follow, whatever comes there. -/
structure AtOperand (opened : List Nat) (position : Nat) (front : List Char) : Prop
    extends Passed opened position front where
  resume : ∀ more, checkChars (front ++ more) = checkOperand opened position more

/-- The check stands behind an operand, which ends there also when what follows is cut off somewhere
and something put there that does not continue it. -/
structure AtOperator (opened : List Nat) (position : Nat) (front back : List Char) : Prop
    extends Passed opened position front where
  resume : ∀ more tail, more <+: back → (∀ c ∈ tail.head?, ¬ c.isDigit) → (more = [] → Delimited tail) →
    checkChars (front ++ (more ++ tail)) = checkOperator opened position (more ++ tail)

theorem AtOperator.resume_delimited {more : List Char} (h : AtOperator opened position front back)
    (hmore : Delimited more) : checkChars (front ++ more) = checkOperator opened position more :=
  h.resume [] more List.nil_prefix hmore.not_isDigit fun _ => hmore

theorem plain_of_forall (h : ∀ c ∈ lexeme, c.isDigit ∨ c.isAlpha ∨ c = '.') :
    IsAscii lexeme ∧ Balanced lexeme := by
  constructor
  · intro c hc
    rcases h c hc with hdigit | halpha | rfl
    · exact utf8Size_of_isDigit hdigit
    · exact utf8Size_of_isAlpha halpha
    · rfl
  · refine .of_forall_ne fun c hc => ?_
    constructor
    · rintro rfl
      exact absurd (h _ hc) (by decide)
    · rintro rfl
      exact absurd (h _ hc) (by decide)

theorem plain_of_operand (h : IsNumber lexeme ∨ IsName lexeme) :
    IsAscii lexeme ∧ Balanced lexeme := by
  apply plain_of_forall
  intro c hc
  rcases h with (⟨-, hdigits⟩ | ⟨-, hdigits, -, hfraction⟩) | ⟨-, hletters, hdigits⟩
  · exact Or.inl (hdigits c hc)
  · rcases List.mem_append.mp hc with hc | hc
    · exact Or.inl (hdigits c hc)
    · exact (List.mem_cons.mp hc).elim (fun hpoint => Or.inr (Or.inr hpoint))
        fun hc => Or.inl (hfraction c hc)
  · rcases List.mem_append.mp hc with hc | hc
    · exact Or.inr (Or.inl (hletters c hc))
    · exact Or.inl (hdigits c hc)

theorem plain_of_symbol (op : Operator) : IsAscii [op.symbol] ∧ Balanced [op.symbol] := by
  cases op <;>
    exact ⟨isAscii_cons.mpr ⟨rfl, isAscii_nil⟩, .other (by decide) (by decide) .nil⟩

theorem Passed.append (h : Passed opened position front) (hascii : IsAscii lexeme)
    (hbalanced : Balanced lexeme) : Passed opened (position + lexeme.length) (front ++ lexeme) := by
  refine ⟨isAscii_append.mpr ⟨h.isAscii, hascii⟩, ?_, h.parens.append hbalanced⟩
  rw [List.length_append, h.length_eq]

theorem atOperand_start : AtOperand [] 1 ['='] where
  isAscii := isAscii_cons.mpr ⟨rfl, isAscii_nil⟩
  length_eq := rfl
  parens := .nil (.other (by decide) (by decide) .nil)
  resume := fun _ => rfl

theorem AtOperand.openParen (h : AtOperand opened position front) :
    AtOperand (position :: opened) (position + 1) (front ++ ['(']) where
  isAscii := isAscii_append.mpr ⟨h.isAscii, isAscii_cons.mpr ⟨rfl, isAscii_nil⟩⟩
  length_eq := by rw [List.length_append, h.length_eq]; rfl
  parens := h.length_eq ▸ h.parens.openParen
  resume := fun more => by
    rw [List.append_assoc, h.resume, List.singleton_append, checkOperand_openParen]

theorem AtOperand.operand (h : AtOperand opened position front)
    (hskip : skipOperand? (lexeme ++ rest) = some (lexeme.length, rest))
    (hlexeme : IsNumber lexeme ∨ IsName lexeme) :
    AtOperator opened (position + lexeme.length) (front ++ lexeme) rest where
  toPassed := by
    obtain ⟨hascii, hbalanced⟩ := plain_of_operand hlexeme
    exact h.toPassed.append hascii hbalanced
  resume := fun more tail hmore htail hnil => by
    have hsame := skipOperand?_of_prefix_append hskip hlexeme hmore htail hnil
    rw [List.append_assoc, h.resume, checkOperand_of_skipOperand? hsame]

theorem AtOperator.operator {op : Operator} (h : AtOperator opened position front back) :
    AtOperand opened (position + 1) (front ++ [op.symbol]) where
  toPassed := by
    obtain ⟨hascii, hbalanced⟩ := plain_of_symbol op
    exact h.toPassed.append hascii hbalanced
  resume := fun more => by
    rw [List.append_assoc, List.singleton_append, h.resume_delimited (.operator op more),
      checkOperator_symbol]

theorem AtOperator.closeParen (h : AtOperator (innermost :: outer) position front (')' :: rest)) :
    AtOperator outer (position + 1) (front ++ [')']) rest where
  isAscii := isAscii_append.mpr ⟨h.isAscii, isAscii_cons.mpr ⟨rfl, isAscii_nil⟩⟩
  length_eq := by rw [List.length_append, h.length_eq]; rfl
  parens := h.parens.closeParen
  resume := fun more tail _ _ _ => by
    rw [List.append_assoc, List.singleton_append, h.resume_delimited (.closeParen (more ++ tail)),
      checkOperator_closeParen]

/-! ### Completing the text -/

theorem checkOperator_closeParens (opened : List Nat) (position : Nat) :
    checkOperator opened position (List.replicate opened.length ')') = .ok () := by
  induction opened generalizing position with
  | nil => exact checkOperator_nil position
  | cons innermost outer ih =>
    rw [List.length_cons, List.replicate_succ, checkOperator_closeParen]
    exact ih (position + 1)

theorem delimited_closeParens (missing : Nat) : Delimited (List.replicate missing ')') := by
  cases missing with
  | zero => exact .nil
  | succ missing => exact .closeParen _

theorem toList_closed (front : String) (missing : Nat) :
    (closed front missing).toList = front.toList ++ List.replicate missing ')' := by
  rw [closed, String.toList_append, String.toList_ofList]

theorem Passed.lacks (h : Passed opened position front) :
    Lacks (String.ofList front) opened.length := by
  rw [Lacks, String.toList_ofList]
  exact h.parens.count_eq

theorem AtOperand.check_closed (h : AtOperand opened position front) :
    check (closed (String.ofList front ++ "1") opened.length) = .ok () := by
  have hone : IsNumber ['1'] := .whole (List.cons_ne_nil _ _) (List.forall_mem_singleton.mpr rfl)
  have hskip := skipOperand?_number hone (delimited_closeParens opened.length)
  rw [check, toList_closed, String.toList_append, String.toList_ofList, List.append_assoc, h.resume]
  exact (checkOperand_of_skipOperand? hskip).trans (checkOperator_closeParens opened _)

theorem AtOperator.check_closed (h : AtOperator opened position front back) :
    check (closed (String.ofList front) opened.length) = .ok () := by
  rw [check, toList_closed, String.toList_ofList, h.resume_delimited (delimited_closeParens _),
    checkOperator_closeParens]

theorem AtOperator.check_front (h : AtOperator [] position front back) :
    check (String.ofList front) = .ok () := by
  have hresume := h.resume_delimited .nil
  rwa [List.append_nil, checkOperator_nil, ← String.toList_ofList (l := front)] at hresume

/-! ### What is blamed -/

variable {s : String} {cause : CheckError}

theorem Passed.splitsAt (h : Passed opened position front) (hs : s.toList = front ++ back) :
    SplitsAt s position (String.ofList front) (String.ofList back) :=
  h.length_eq ▸ splitsAt_of_isAscii hs h.isAscii

/-- The innermost parenthesis that is open stands where it was opened, and what follows it is balanced. -/
theorem Passed.exists_innermost (h : Passed (innermost :: outer) position front) :
    innermost < position ∧ ∃ before inside,
      SplitsAt (String.ofList front) innermost before ("(" ++ inside) ∧ Balanced inside.toList := by
  obtain ⟨before, inside, rfl, rfl, hinside⟩ := h.parens.exists_of_cons
  have hbefore := (isAscii_append.mp h.isAscii).1
  have hsplit := splitsAt_of_isAscii (String.toList_ofList (l := before ++ '(' :: inside)) hbefore
  rw [String.ofList_cons] at hsplit
  refine ⟨?_, _, _, hsplit, by rwa [String.toList_ofList]⟩
  rw [← h.length_eq, List.length_append, List.length_cons]
  omega

theorem AtOperand.blames (h : AtOperand opened position front) (hs : s.toList = front ++ back)
    (hopen : ∀ rest, back ≠ '(' :: rest) (hskip : skipOperand? back = none) :
    Blames s (.expectedOperand position) := by
  refine ⟨_, _, opened.length, h.splitsAt hs, ?_, h.lacks, h.check_closed⟩
  rw [String.toList_ofList]
  intro c hc
  obtain ⟨rest, rfl⟩ := List.head?_eq_some_iff.mp hc
  have hhead := skipOperand?_cons_eq_none_iff.mp hskip
  exact ⟨fun heq => hopen rest (heq ▸ rfl), hhead⟩

/-- If no longer beginning of the text has a property, those that have it end where the check stands, or
before. -/
theorem Passed.le_position (h : Passed opened position front) (hs : s.toList = front ++ back)
    {P : String → Prop} (hlonger : ∀ c more, c :: more <+: back → ¬ P (String.ofList (front ++ c :: more)))
    {position' : Nat} {front' back' : String} (hsplit : SplitsAt s position' front' back')
    (hfront' : P front') : position' ≤ position := by
  have happend : front'.toList ++ back'.toList = front ++ back := by
    rw [← String.toList_append, hsplit.append_eq, hs]
  rcases List.append_eq_append_iff.mp happend with ⟨more, hfront, -⟩ | ⟨more, hfront, hback⟩
  · have hascii := h.isAscii
    rw [hfront] at hascii
    rw [hsplit.position_eq_length (isAscii_append.mp hascii).1, ← h.length_eq, hfront,
      List.length_append]
    omega
  · cases more with
    | nil =>
      rw [List.append_nil] at hfront
      rw [hsplit.position_eq_length (hfront ▸ h.isAscii), hfront, h.length_eq]
    | cons c more =>
      rw [← String.ofList_toList (s := front'), hfront] at hfront'
      exact absurd hfront' (hlonger c more ⟨_, hback.symm⟩)

/-- Whatever of the text the check is given behind where it stops, it stops there. -/
theorem AtOperator.stop_eq (h : AtOperator opened position front back)
    (hoperator : ∀ c ∈ back.head?, ¬ isOperator c) (hclose : ∀ c ∈ back.head?, opened ≠ [] → c ≠ ')')
    {c : Char} {more tail : List Char} (hmore : c :: more <+: back) (htail : ∀ c ∈ tail.head?, ¬ c.isDigit) :
    checkChars (front ++ (c :: more ++ tail)) = stop opened position (c :: more ++ tail) := by
  have hhead : c ∈ back.head? := by
    obtain ⟨rest, rfl⟩ := hmore
    rfl
  rw [h.resume _ tail hmore htail fun hnil => absurd hnil (List.cons_ne_nil c more)]
  refine checkOperator_stop (hoperator c hhead) fun _ _ hc hopened => ?_
  exact hclose c hhead (hopened ▸ List.cons_ne_nil _ _) hc

theorem AtOperator.blames (h : AtOperator opened position front back) (hs : s.toList = front ++ back)
    (hoperator : ∀ c ∈ back.head?, ¬ isOperator c)
    (hclose : ∀ c ∈ back.head?, opened ≠ [] → c ≠ ')')
    (hstop : stop opened position back = .error cause) : Blames s cause := by
  unfold stop at hstop
  split at hstop
  · cases hstop
    obtain ⟨hlt, hparen⟩ := h.exists_innermost
    refine ⟨position, _, _, _, h.splitsAt hs, hlt, ?_, h.lacks, Nat.succ_pos _, h.check_closed, hparen⟩
    rw [String.toList_ofList]
    exact fun c hc => ⟨hoperator c hc, hclose c hc (List.cons_ne_nil _ _)⟩
  · split at hstop
    · cases hstop
    · rename_i hne
      cases hstop
      refine ⟨_, _, h.splitsAt hs, ?_, h.check_front,
        fun _ _ _ => h.le_position hs (P := (check · = .ok ())) ?_⟩
      · intro hempty
        rw [String.ofList_eq_empty_iff.mp hempty] at hne
        exact hne rfl
      · intro c more hmore hcheck
        have hstop := h.stop_eq hoperator hclose hmore Delimited.nil.not_isDigit
        rw [List.append_nil] at hstop
        rw [check, String.toList_ofList, hstop] at hcheck
        cases hcheck

/-- Where the check stands when it refuses the text. -/
inductive Refused (s : String) : CheckError → Prop where
  | operand {opened : List Nat} {position : Nat} {front back : List Char}
      (hs : s.toList = front ++ back) (hat : AtOperand opened position front)
      (hopen : ∀ rest, back ≠ '(' :: rest) (hskip : skipOperand? back = none) :
      Refused s (.expectedOperand position)
  | operator {opened : List Nat} {position : Nat} {front back : List Char} {cause : CheckError}
      (hs : s.toList = front ++ back) (hat : AtOperator opened position front back)
      (hoperator : ∀ c ∈ back.head?, ¬ isOperator c)
      (hclose : ∀ c ∈ back.head?, opened ≠ [] → c ≠ ')')
      (hstop : stop opened position back = .error cause) : Refused s cause

/-- The check refuses a text where it stands, wherever that is. -/
theorem refused_of_check :
    (∀ (opened : List Nat) (position : Nat) (back : List Char) {s : String} {front : List Char}
      {cause : CheckError}, s.toList = front ++ back → AtOperand opened position front →
        checkOperand opened position back = .error cause → Refused s cause) ∧
    ∀ (opened : List Nat) (position : Nat) (back : List Char) {s : String} {front : List Char}
      {cause : CheckError}, s.toList = front ++ back → AtOperator opened position front back →
        checkOperator opened position back = .error cause → Refused s cause := by
  refine checkOperand.mutual_induct _ _ ?openParen ?operand ?refused ?last ?operator ?closeParen
    ?stopped
  case openParen =>
    intro opened position rest ih s front cause hs hat h
    rw [checkOperand_openParen] at h
    exact ih (by rw [hs, List.append_assoc]; rfl) hat.openParen h
  case operand =>
    intro opened position cs _ length rest hskip ih s front cause hs hat h
    rw [checkOperand_of_skipOperand? hskip] at h
    obtain ⟨lexeme, rfl, rfl, hlexeme⟩ := exists_of_skipOperand? hskip
    exact ih (by rw [hs, List.append_assoc]) (hat.operand hskip hlexeme) h
  case refused =>
    intro opened position cs hopen hskip s front cause hs hat h
    rw [checkOperand_of_skipOperand?_none hopen hskip] at h
    cases h
    exact .operand hs hat hopen hskip
  case last =>
    intro opened position s front cause hs hat h
    rw [checkOperator] at h
    have hnone (c : Char) : c ∉ ([] : List Char).head? := Option.not_mem_none c
    exact .operator hs hat (fun c hc => absurd hc (hnone c)) (fun c hc => absurd hc (hnone c)) h
  case operator =>
    intro opened position c cs hc ih s front cause hs hat h
    obtain ⟨op, rfl⟩ := exists_symbol_of_isOperator hc
    rw [checkOperator_symbol] at h
    exact ih (by rw [hs, List.append_assoc]; rfl) hat.operator h
  case closeParen =>
    intro position cs innermost outer _ ih s front cause hs hat h
    rw [checkOperator_closeParen] at h
    exact ih (by rw [hs, List.append_assoc]; rfl) hat.closeParen h
  case stopped =>
    intro opened position c cs hc hclose s front cause hs hat h
    rw [checkOperator_stop hc hclose] at h
    refine .operator hs hat ?_ ?_ h
    · intro d hd
      obtain rfl := Option.some.inj hd
      exact hc
    · rintro d hd hopened rfl
      obtain rfl := Option.some.inj hd
      obtain ⟨innermost, outer, rfl⟩ := List.exists_cons_of_ne_nil hopened
      exact hclose _ _ rfl rfl

theorem Refused.blames (h : Refused s cause) : Blames s cause := by
  cases h with
  | operand hs hat hopen hskip => exact hat.blames hs hopen hskip
  | operator hs hat hoperator hclose hstop => exact hat.blames hs hoperator hclose hstop

theorem refused_of_check_error (h : check s = .error cause) :
    cause = .missingEquals ∧ s.toList.head? ≠ some '=' ∨ Refused s cause := by
  rw [check] at h
  by_cases hequals : s.toList.head? = some '='
  · obtain ⟨body, hbody⟩ := List.head?_eq_some_iff.mp hequals
    rw [hbody] at h
    exact .inr (refused_of_check.1 [] 1 body hbody atOperand_start h)
  · cases (checkChars_eq_missingEquals_iff.mpr hequals).symm.trans h
    exact .inl ⟨rfl, hequals⟩

/-- A text is refused for what its beginning says. -/
theorem check_error_blames {s : String} {cause : CheckError} (h : check s = .error cause) :
    Blames s cause := by
  obtain ⟨rfl, hequals⟩ | hrefused := refused_of_check_error h
  · exact hequals
  · exact hrefused.blames

theorem check_error_blames_of_each :
    (check "=2*(A1+é" = .error (.expectedOperand 7) ∧ Blames "=2*(A1+é" (.expectedOperand 7)) ∧
      (check "=1.5.é" = .error (.expectedOperator 4) ∧ Blames "=1.5.é" (.expectedOperator 4)) ∧
      check "=(1)+((2)é)" = .error (.unclosedParen 5) ∧ Blames "=(1)+((2)é)" (.unclosedParen 5) := by
  have hoperand : check "=2*(A1+é" = .error (.expectedOperand 7) := by decide +kernel
  have hoperator : check "=1.5.é" = .error (.expectedOperator 4) := by decide +kernel
  have hunclosed : check "=(1)+((2)é)" = .error (.unclosedParen 5) := by decide +kernel
  exact ⟨⟨hoperand, check_error_blames hoperand⟩, ⟨hoperator, check_error_blames hoperator⟩,
    hunclosed, check_error_blames hunclosed⟩

end Spreadsheet.Formula
