import Mathlib.Data.List.Forall2
import Spreadsheet.Proofs.Text

/-!
# Words and lines

A text is cut at its blanks into words, and at its line feeds into pieces. The pieces are the lines of
the text but for the ends: a piece may still end with the carriage return of its line ending, and after
a last line feed there is one more piece, which is empty. Neither matters to who trims the lines.
-/

namespace Spreadsheet.Text

/-! ### Words -/

def IsBlanks (cs : List Char) : Prop := ∀ c ∈ cs, isBlank c

def IsWord (cs : List Char) : Prop := cs ≠ [] ∧ ∀ c ∈ cs, ¬ isBlank c

/-- Exactly two words, with blanks between them and maybe around them. -/
def IsPair (cs first second : List Char) : Prop :=
  IsWord first ∧ IsWord second ∧ ∃ before between after, IsBlanks before ∧ IsBlanks between ∧
    between ≠ [] ∧ IsBlanks after ∧ cs = before ++ first ++ between ++ second ++ after

variable {cs rest word : List Char}

theorem words_nil : words [] = [] := rfl

theorem words_cons_of_isBlank {c : Char} (h : isBlank c) (cs : List Char) :
    words (c :: cs) = words cs := by
  rw [words, List.splitOnP_cons_eq_if_modifyHead, if_pos h]
  rfl

theorem words_append_of_isBlanks {blanks : List Char} (h : IsBlanks blanks) (cs : List Char) :
    words (blanks ++ cs) = words cs := by
  induction blanks with
  | nil => rfl
  | cons c blanks ih =>
    rw [List.cons_append, words_cons_of_isBlank (h c List.mem_cons_self),
      ih fun d hd => h d (List.mem_cons_of_mem c hd)]

theorem words_append_of_isWord (hword : IsWord word) (hrest : ∀ c ∈ rest.head?, isBlank c) :
    words (word ++ rest) = word :: words rest := by
  have hnot : ∀ c ∈ word, isBlank c = false := fun c hc => Bool.eq_false_iff.mpr (hword.2 c hc)
  have hkeep : ∀ pieces : List (List Char), (word :: pieces).filter (!·.isEmpty) =
      word :: pieces.filter (!·.isEmpty) :=
    fun _ => List.filter_cons_of_pos (by simpa using hword.1)
  cases rest with
  | nil => rw [List.append_nil, words, List.splitOnP_eq_singleton hnot, hkeep, List.filter_nil, words_nil]
  | cons c rest =>
    have hc : isBlank c = true := hrest c rfl
    rw [words_cons_of_isBlank hc, words, List.splitOnP_append_cons_of_forall_mem hnot c hc, hkeep, words]

/-- A text has nothing but blanks, or a first word. -/
theorem isBlanks_or_exists_isWord (cs : List Char) : IsBlanks cs ∨
    ∃ before word rest, IsBlanks before ∧ IsWord word ∧ (∀ c ∈ rest.head?, isBlank c) ∧
      cs = before ++ word ++ rest := by
  cases htail : cs.dropWhile isBlank with
  | nil => exact Or.inl (List.dropWhile_eq_nil_iff.mp htail)
  | cons c tail =>
    have hc : ¬ isBlank c = true := not_of_mem_head?_dropWhile c (by rw [htail]; rfl)
    refine Or.inr ⟨cs.takeWhile isBlank, (c :: tail).takeWhile (!isBlank ·),
      (c :: tail).dropWhile (!isBlank ·), of_mem_takeWhile, ⟨?_, fun d hd => ?_⟩, fun d hd => ?_, ?_⟩
    · rw [List.takeWhile_cons_of_pos (by simpa using hc)]
      exact List.cons_ne_nil _ _
    · simpa using of_mem_takeWhile d hd
    · simpa using not_of_mem_head?_dropWhile d hd
    · rw [List.append_assoc, List.takeWhile_append_dropWhile, ← htail, List.takeWhile_append_dropWhile]

theorem words_eq_nil_iff : words cs = [] ↔ IsBlanks cs := by
  constructor
  · intro h
    rcases isBlanks_or_exists_isWord cs with hblanks | ⟨before, word, rest, hbefore, hword, hrest, rfl⟩
    · exact hblanks
    · rw [List.append_assoc, words_append_of_isBlanks hbefore, words_append_of_isWord hword hrest] at h
      cases h
  · intro h
    rw [← List.append_nil cs, words_append_of_isBlanks h, words_nil]

theorem words_eq_cons_iff {others : List (List Char)} : words cs = word :: others ↔
    IsWord word ∧ ∃ before rest, IsBlanks before ∧ (∀ c ∈ rest.head?, isBlank c) ∧
      cs = before ++ word ++ rest ∧ words rest = others := by
  constructor
  · intro h
    rcases isBlanks_or_exists_isWord cs with hblanks | ⟨before, first, rest, hbefore, hfirst, hrest, rfl⟩
    · rw [words_eq_nil_iff.mpr hblanks] at h
      cases h
    · rw [List.append_assoc, words_append_of_isBlanks hbefore, words_append_of_isWord hfirst hrest] at h
      obtain ⟨rfl, hothers⟩ := List.cons.inj h
      exact ⟨hfirst, before, rest, hbefore, hrest, rfl, hothers⟩
  · rintro ⟨hword, before, rest, hbefore, hrest, rfl, rfl⟩
    rw [List.append_assoc, words_append_of_isBlanks hbefore, words_append_of_isWord hword hrest]

theorem words_eq_pair_iff {first second : List Char} :
    words cs = [first, second] ↔ IsPair cs first second := by
  simp only [words_eq_cons_iff, words_eq_nil_iff]
  constructor
  · rintro ⟨hfirst, before, rest, hbefore, hrest, rfl, hsecond, between, after, hbetween, -, rfl, hafter⟩
    refine ⟨hfirst, hsecond, before, between, after, hbefore, hbetween, ?_, hafter, ?_⟩
    · -- Without blanks between them the second word would continue the first one.
      rintro rfl
      obtain ⟨c, tail, rfl⟩ := List.exists_cons_of_ne_nil hsecond.1
      exact hsecond.2 c List.mem_cons_self (hrest c rfl)
    · simp only [List.append_assoc]
  · rintro ⟨hfirst, hsecond, before, between, after, hbefore, hbetween, hne, hafter, rfl⟩
    refine ⟨hfirst, before, between ++ second ++ after, hbefore, ?_, by simp only [List.append_assoc],
      hsecond, between, after, hbetween, fun c hc => hafter c (List.mem_of_mem_head? hc), rfl, hafter⟩
    obtain ⟨c, tail, rfl⟩ := List.exists_cons_of_ne_nil hne
    intro d hd
    obtain rfl := Option.some.inj hd
    exact hbetween c List.mem_cons_self

/-! ### Lines -/

/-- The lines of a text. A line ends with a line feed, with a carriage return and a line feed, or with
the text. -/
def physicalLines : List Char → List (List Char)
  | [] => []
  | '\n' :: cs => [] :: physicalLines cs
  | '\r' :: '\n' :: cs => [] :: physicalLines cs
  | c :: cs =>
    match physicalLines cs with
    | [] => [[c]]
    | line :: rest => (c :: line) :: rest

/-- A line as it stands between line feeds. -/
def IsPiece (piece line : List Char) : Prop := piece = line ∨ piece = line ++ ['\r']

theorem IsPiece.cons {piece line : List Char} (h : IsPiece piece line) (c : Char) :
    IsPiece (c :: piece) (c :: line) :=
  h.imp (congrArg (c :: ·)) (congrArg (c :: ·))

theorem IsPiece.trimmed_eq {piece line : List Char} (h : IsPiece piece line) :
    trimmed piece = trimmed line := by
  rcases h with rfl | rfl
  · rfl
  · exact trimmed_append_blanks (List.forall_mem_singleton.mpr (by decide))

theorem lines_cons_of_ne {c : Char} (h : c ≠ '\n') (cs : List Char) :
    lines (c :: cs) = (lines cs).modifyHead (c :: ·) := by
  rw [lines, List.splitOn_cons_eq_if_modifyHead, if_neg (by simpa using h), lines]

theorem lines_lineFeed (cs : List Char) : lines ('\n' :: cs) = [] :: lines cs :=
  List.splitOn_append_cons_self [] cs

theorem forall₂_isPiece (cs : List Char) : ∃ last, (last = [] ∨ last = [[]]) ∧
    List.Forall₂ IsPiece (lines cs) (physicalLines cs ++ last) := by
  fun_induction physicalLines cs with
  | case1 => exact ⟨[[]], Or.inr rfl, .cons (Or.inl rfl) .nil⟩
  | case2 cs ih =>
    obtain ⟨last, hlast, hpieces⟩ := ih
    exact ⟨last, hlast, lines_lineFeed cs ▸ .cons (Or.inl rfl) hpieces⟩
  | case3 cs ih =>
    obtain ⟨last, hlast, hpieces⟩ := ih
    refine ⟨last, hlast, ?_⟩
    rw [lines_cons_of_ne (by decide), lines_lineFeed]
    exact .cons (Or.inr rfl) hpieces
  | case4 c cs hfeed _ hnone ih =>
    obtain ⟨last, hlast, hpieces⟩ := ih
    rw [hnone, List.nil_append] at hpieces
    rw [lines_cons_of_ne hfeed]
    -- The character begins the last line, which has no line feed after it.
    rcases hlast with rfl | rfl
    · exact absurd (List.forall₂_nil_right_iff.mp hpieces) (List.splitOn_ne_nil '\n' cs)
    · obtain ⟨piece, pieces, hpiece, hrest, heq⟩ := List.forall₂_cons_right_iff.mp hpieces
      rw [heq]
      exact ⟨[], Or.inl rfl, .cons (hpiece.cons c) hrest⟩
  | case5 c cs hfeed _ line rest hsome ih =>
    obtain ⟨last, hlast, hpieces⟩ := ih
    rw [hsome] at hpieces
    rw [lines_cons_of_ne hfeed]
    obtain ⟨piece, pieces, hpiece, hrest, heq⟩ := List.forall₂_cons_right_iff.mp hpieces
    rw [heq]
    exact ⟨last, hlast, .cons (hpiece.cons c) hrest⟩

/-- Trimmed, the pieces between line feeds are the lines of a text and at most one empty line more. -/
theorem map_trimmed_lines (cs : List Char) : ∃ last, (last = [] ∨ last = [[]]) ∧
    (lines cs).map trimmed = (physicalLines cs).map trimmed ++ last := by
  obtain ⟨last, hlast, hpieces⟩ := forall₂_isPiece cs
  have hmap : ∀ {pieces lines : List (List Char)}, List.Forall₂ IsPiece pieces lines →
      pieces.map trimmed = lines.map trimmed := by
    intro pieces lines h
    induction h with
    | nil => rfl
    | cons hpiece _ ih => rw [List.map_cons, List.map_cons, hpiece.trimmed_eq, ih]
  refine ⟨last.map trimmed, hlast.imp (fun h => ?_) fun h => ?_, ?_⟩
  · rw [h, List.map_nil]
  · rw [h]
    rfl
  · rw [hmap hpieces, List.map_append]

end Spreadsheet.Text
