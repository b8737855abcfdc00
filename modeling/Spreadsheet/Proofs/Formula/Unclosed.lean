import Spreadsheet.Proofs.Formula.Reject

/-!
# Reports of unclosed parentheses

A refused text offends where its longest beginning ends that could still become a formula. Of what
stands there the check says that an operand or an operator is missing, unless a parenthesis is open:
then it reports the parenthesis, and does not look for what would close it in the rest of the text. So
the report is right exactly if nothing in the rest does.
-/

namespace Spreadsheet.Formula

open Text

/-! ### Where a text offends -/

/-- The text is a formula but for closing parentheses. -/
def IsWhole (front : String) : Prop := ∃ missing, check (closed front missing) = .ok ()

/-- The text is a formula but for an operand, in parentheses of its own, and closing parentheses. -/
def WantsOperand (front : String) : Prop := ∃ missing, check (closed (front ++ "(1") missing) = .ok ()

/-- The text is what a formula begins with, up to the end of an operand or the place of one. -/
def Begins (front : String) : Prop := IsWhole front ∨ WantsOperand front

/-- The text begins a formula up to the position, and no further. -/
structure Offence (s : String) (position : Nat) (front back : String) : Prop
    extends SplitsAt s position front back where
  begins : Begins front
  longest : ∀ {position' front' back'}, SplitsAt s position' front' back' → Begins front' →
    position' ≤ position

/-- A text offends at one place only. -/
theorem Offence.unique {s front front' back back' : String} {position position' : Nat}
    (h : Offence s position front back) (h' : Offence s position' front' back') :
    position = position' ∧ front = front' ∧ back = back' := by
  have hposition : position = position' :=
    Nat.le_antisymm (h'.longest h.toSplitsAt h.begins) (h.longest h'.toSplitsAt h'.begins)
  subst hposition
  exact ⟨rfl, h.toSplitsAt.unique h'.toSplitsAt⟩

/-! ### What is reported -/

/-- What can be reported of a text that offends behind the front: what is missing there, or else a
parenthesis that is open there. -/
inductive Reported (position : Nat) (front : String) : CheckError → Prop where
  | operand (h : WantsOperand front) : Reported position front (.expectedOperand position)
  | operator (h : check front = .ok ()) : Reported position front (.expectedOperator position)
  | unclosed {paren : Nat} {before inside : String} (h : IsWhole front)
      (hparen : SplitsAt front paren before ("(" ++ inside)) (hinside : Balanced inside.toList) :
      Reported position front (.unclosedParen paren)

/-- A parenthesis is opened at the position. -/
def IsOpenParen (s : String) (position : Nat) : Prop :=
  ∃ before after, SplitsAt s position before ("(" ++ after)

/-- The parenthesis at the position is closed in the text. -/
def IsClosed (s : String) (position : Nat) : Prop :=
  ∃ before inside after, SplitsAt s position before ("(" ++ (inside ++ (")" ++ after))) ∧
    Balanced inside.toList

/-- The position is within parentheses that are closed in the text. -/
def Enclosed (s : String) (position : Nat) : Prop :=
  ∃ before inside more after,
    SplitsAt s position (before ++ ("(" ++ inside)) (more ++ (")" ++ after)) ∧
      Balanced (inside.toList ++ more.toList)

/-- The report says of a text that offends at the position what is wrong there: a parenthesis that is
reported is not closed, and what offends within parentheses that are is reported itself. -/
structure Truthful (s : String) (position : Nat) (cause : CheckError) : Prop where
  unclosed : ∀ paren, cause = .unclosedParen paren → IsOpenParen s paren ∧ ¬ IsClosed s paren
  own : Enclosed s position → cause = .expectedOperand position ∨ cause = .expectedOperator position

variable {s front back before inside after : String} {position paren : Nat} {cause : CheckError}

theorem isClosed_iff (h : SplitsAt s position before ("(" ++ after)) :
    IsClosed s position ↔ ClosesOne after.toList := by
  constructor
  · intro ⟨before', inside, rest, hsplit, hinside⟩
    have hafter := congrArg String.toList (h.unique hsplit).2
    simp only [String.toList_append] at hafter
    exact ⟨inside.toList, rest.toList, List.append_cancel_left hafter, hinside⟩
  · intro ⟨inside, rest, hafter, hinside⟩
    have heq : after = String.ofList inside ++ (")" ++ String.ofList rest) :=
      String.toList_injective (by simp [hafter])
    exact ⟨before, _, _, heq ▸ h, by rwa [String.toList_ofList]⟩

/-- What closes parentheses around a position stands behind it. -/
theorem Enclosed.closesOne (h : Enclosed s position) (hsplit : SplitsAt s position front back) :
    ClosesOne back.toList := by
  obtain ⟨before, inside, more, after, hsplit', hbalanced⟩ := h
  obtain ⟨-, rfl⟩ := hsplit.unique hsplit'
  -- The parentheses that are opened before the position and closed behind it are balanced.
  have hcount := hbalanced.count_eq
  have hle := hbalanced.count_le (List.prefix_append _ _)
  rw [List.count_append, List.count_append] at hcount
  refine closesOne_iff.mpr ⟨more.toList ++ [')'], ⟨after.toList, by simp⟩, ?_⟩
  simp [List.count_append]
  omega

/-- A parenthesis that is open where the text is refused is reported rightly if the rest does not close
one. -/
theorem truthful_unclosed_iff (hsplit : SplitsAt s position front back)
    (hparen : SplitsAt front paren before ("(" ++ inside)) (hinside : Balanced inside.toList) :
    Truthful s position (.unclosedParen paren) ↔ ¬ ClosesOne back.toList := by
  have hs : SplitsAt s paren before ("(" ++ (inside ++ back)) := by
    rw [← String.append_assoc]
    exact hsplit.trans hparen
  have hclosed : IsClosed s paren ↔ ClosesOne back.toList := by
    rw [isClosed_iff hs, String.toList_append, closesOne_append_iff hinside]
  constructor
  · intro h hrest
    exact (h.unclosed paren rfl).2 (hclosed.mpr hrest)
  · intro hrest
    constructor
    · intro paren' heq
      obtain rfl := CheckError.unclosedParen.inj heq
      exact ⟨⟨_, _, hs⟩, fun h => hrest (hclosed.mp h)⟩
    · intro henclosed
      exact absurd (henclosed.closesOne hsplit) hrest

/-- What is reported is right unless it is a parenthesis that the rest of the text closes. -/
theorem Reported.truthful_iff (h : Reported position front cause)
    (hsplit : SplitsAt s position front back) :
    Truthful s position cause ↔ ∀ paren, cause = .unclosedParen paren → ¬ ClosesOne back.toList := by
  cases h with
  | operand _ => exact ⟨nofun, fun _ => ⟨nofun, fun _ => .inl rfl⟩⟩
  | operator _ => exact ⟨nofun, fun _ => ⟨nofun, fun _ => .inr rfl⟩⟩
  | @unclosed paren _ _ _ hparen hinside =>
    rw [truthful_unclosed_iff hsplit hparen hinside]
    exact ⟨fun h _ _ => h, fun h => h paren rfl⟩

/-! ### Where the check stops -/

section Stop

variable {opened : List Nat} {cs front back : List Char}

theorem not_begins
    (h : ∀ tail : List Char, (∀ c ∈ tail.head?, ¬ c.isDigit) → checkChars (cs ++ tail) ≠ .ok ()) :
    ¬ Begins (String.ofList cs) := by
  intro hbegins
  obtain ⟨missing, hok⟩ | ⟨missing, hok⟩ := hbegins
  · rw [check, toList_closed, String.toList_ofList] at hok
    exact h _ (delimited_closeParens missing).not_isDigit hok
  · rw [check, toList_closed, String.toList_append, String.toList_ofList, List.append_assoc] at hok
    refine h _ ?_ hok
    intro c hc
    obtain rfl := Option.some.inj hc
    decide

/-- The text offends where the check stands if the check goes no further into it, whatever comes behind
what it is given. -/
theorem Passed.offence (h : Passed opened position front) (hs : s.toList = front ++ back)
    (hbegins : Begins (String.ofList front))
    (hstuck : ∀ c more tail, c :: more <+: back → (∀ c ∈ tail.head?, ¬ c.isDigit) →
      checkChars (front ++ (c :: more ++ tail)) ≠ .ok ()) :
    Offence s position (String.ofList front) (String.ofList back) where
  toSplitsAt := h.splitsAt hs
  begins := hbegins
  longest := by
    refine h.le_position hs (P := Begins) fun c more hmore => not_begins fun tail htail => ?_
    rw [List.append_assoc]
    exact hstuck c more tail hmore htail

theorem AtOperand.wantsOperand (h : AtOperand opened position front) :
    WantsOperand (String.ofList front) := by
  have hone := h.openParen.check_closed
  rw [String.ofList_append, String.append_assoc] at hone
  exact ⟨_, hone⟩

theorem AtOperand.offence (h : AtOperand opened position front) (hs : s.toList = front ++ back)
    (hopen : ∀ rest, back ≠ '(' :: rest) (hskip : skipOperand? back = none) :
    Offence s position (String.ofList front) (String.ofList back) := by
  refine h.toPassed.offence hs (.inr h.wantsOperand) fun c more tail hmore _ => ?_
  obtain ⟨rest, rfl⟩ := hmore
  have hnone : skipOperand? (c :: more ++ tail) = none :=
    skipOperand?_cons_eq_none_iff.mpr (skipOperand?_cons_eq_none_iff.mp hskip)
  have hparen : ∀ rest', c :: more ++ tail ≠ '(' :: rest' := by
    intro rest' heq
    obtain ⟨rfl, -⟩ := List.cons.inj heq
    exact hopen _ rfl
  rw [h.resume, checkOperand_of_skipOperand?_none hparen hnone]
  exact nofun

theorem AtOperator.isWhole (h : AtOperator opened position front back) :
    IsWhole (String.ofList front) :=
  ⟨opened.length, h.check_closed⟩

theorem AtOperator.offence (h : AtOperator opened position front back) (hs : s.toList = front ++ back)
    (hoperator : ∀ c ∈ back.head?, ¬ isOperator c) (hclose : ∀ c ∈ back.head?, opened ≠ [] → c ≠ ')') :
    Offence s position (String.ofList front) (String.ofList back) := by
  refine h.toPassed.offence hs (.inl h.isWhole) fun c more tail hmore htail => ?_
  rw [h.stop_eq hoperator hclose hmore htail]
  cases opened with
  | nil => exact nofun
  | cons innermost outer => exact nofun

theorem AtOperator.reported (h : AtOperator opened position front back)
    (hstop : stop opened position back = .error cause) :
    Reported position (String.ofList front) cause := by
  unfold stop at hstop
  split at hstop
  · cases hstop
    obtain ⟨-, before, inside, hparen, hinside⟩ := h.exists_innermost
    exact .unclosed h.isWhole hparen hinside
  · split at hstop
    · cases hstop
    · cases hstop
      exact .operator h.check_front

theorem Refused.exists_offence (h : Refused s cause) :
    ∃ position front back, Offence s position front back ∧ Reported position front cause := by
  cases h with
  | operand hs hat hopen hskip =>
    exact ⟨_, _, _, hat.offence hs hopen hskip, .operand hat.wantsOperand⟩
  | operator hs hat hoperator hclose hstop =>
    exact ⟨_, _, _, hat.offence hs hoperator hclose, hat.reported hstop⟩

end Stop

/-- A text that is refused offends somewhere. What is reported is missing there or is a parenthesis open
there, and the report is right unless the rest of the text closes that parenthesis. -/
theorem check_error_truthful_iff (h : check s = .error cause) (hequals : cause ≠ .missingEquals) :
    ∃ position front back, Offence s position front back ∧ Reported position front cause ∧
      (Truthful s position cause ↔
        ∀ paren, cause = .unclosedParen paren → ¬ ClosesOne back.toList) := by
  obtain ⟨hmissing, -⟩ | hrefused := refused_of_check_error h
  · exact absurd hmissing hequals
  obtain ⟨position, front, back, hoffence, hreported⟩ := hrefused.exists_offence
  exact ⟨position, front, back, hoffence, hreported, hreported.truthful_iff hoffence.toSplitsAt⟩

theorem check_error_truthful_iff_of_nested :
    check "=1+(2*(3-4)" = .error (.unclosedParen 3) ∧ ∃ position front back,
      Offence "=1+(2*(3-4)" position front back ∧ Reported position front (.unclosedParen 3) ∧
        (Truthful "=1+(2*(3-4)" position (.unclosedParen 3) ↔
          ∀ paren, CheckError.unclosedParen 3 = .unclosedParen paren → ¬ ClosesOne back.toList) := by
  have hcheck : check "=1+(2*(3-4)" = .error (.unclosedParen 3) := by decide +kernel
  exact ⟨hcheck, check_error_truthful_iff hcheck nofun⟩

/-- What offends at position 3 is within parentheses that are closed, yet these are reported. -/
theorem check_blames_closedParen :
    check "=(1$)" = .error (.unclosedParen 1) ∧ IsClosed "=(1$)" 1 ∧
      Offence "=(1$)" 3 "=(1" "$)" ∧ Enclosed "=(1$)" 3 := by
  have hone : IsNumber ['1'] := .whole (List.cons_ne_nil _ _) (List.forall_mem_singleton.mpr rfl)
  have hplain : Balanced ['1', '$'] := .other (by decide) (by decide) (.other (by decide) (by decide) .nil)
  have hskip : skipOperand? (['1'] ++ ['$', ')']) = some (1, ['$', ')']) := by decide
  have hat := atOperand_start.openParen.operand hskip (.inl hone)
  refine ⟨by decide +kernel, ⟨"=", "1$", "", ⟨by decide +kernel, rfl⟩, hplain⟩,
    hat.offence rfl ?_ ?_, ⟨"=", "1", "$", "", ⟨by decide +kernel, rfl⟩, hplain⟩⟩
  · intro c hc
    obtain rfl := Option.some.inj hc
    decide
  · intro c hc _
    obtain rfl := Option.some.inj hc
    decide

end Spreadsheet.Formula
