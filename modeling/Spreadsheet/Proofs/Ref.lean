import Spreadsheet.Proofs.Column
import Spreadsheet.Ref

/-!
# Names and coordinates of cells

A name is letters with digits after them. Which cell it denotes does not depend on the case of its
letters. A reference to a cell is determined by its column and its row.

A text denotes a column, and a row or a header. `parse?` accepts exactly the texts that denote one, and
gives the one reference to it: what else the text has, such as blanks, zeros in front or the case of its
letters, is lost.
-/

namespace Spreadsheet

open Text

namespace Ref

theorem takeWhile_isAlpha_name {letters digits : List Char} (hletters : ∀ c ∈ letters, c.isAlpha)
    (hdigits : ∀ c ∈ digits, c.isDigit) : (letters ++ digits).takeWhile Char.isAlpha = letters :=
  takeWhile_append_run hletters fun c hc =>
    not_isAlpha_of_isDigit (hdigits c (List.mem_of_mem_head? hc))

theorem dropWhile_isAlpha_name {letters digits : List Char} (hletters : ∀ c ∈ letters, c.isAlpha)
    (hdigits : ∀ c ∈ digits, c.isDigit) : (letters ++ digits).dropWhile Char.isAlpha = digits :=
  dropWhile_append_run hletters fun c hc =>
    not_isAlpha_of_isDigit (hdigits c (List.mem_of_mem_head? hc))

theorem ofChars?_name {letters digits : List Char} (hletters : ∀ c ∈ letters, c.isAlpha)
    (hdigits : ∀ c ∈ digits, c.isDigit) : ofChars? (letters ++ digits) =
      if (Column.index? letters).isNone then none
      else (parseRow? digits).map (ofParts letters hletters) := by
  have htake := takeWhile_isAlpha_name hletters hdigits
  have hparts {cs : List Char} (hcs : cs = letters) (h : ∀ c ∈ cs, c.isAlpha) :
      ofParts cs h = ofParts letters hletters := by
    subst hcs
    rfl
  rw [ofChars?, hparts htake, htake, dropWhile_isAlpha_name hletters hdigits]

theorem ofParts_upper {letters : List Char} (h : ∀ c ∈ letters, c.isAlpha) (row : Option Nat) :
    ofParts (upper letters) (isAlpha_of_mem_upper h) row = ofParts letters h row := by
  apply eq_of_text_eq
  simp only [ofParts, upper_upper h]

theorem ofChars?_upper {letters digits : List Char} (hletters : ∀ c ∈ letters, c.isAlpha)
    (hdigits : ∀ c ∈ digits, c.isDigit) :
    ofChars? (upper (letters ++ digits)) = ofChars? (letters ++ digits) := by
  rw [upper_append, upper_of_isDigit hdigits, ofChars?_name (isAlpha_of_mem_upper hletters) hdigits,
    ofChars?_name hletters hdigits, Column.index?_upper hletters]
  congr 2
  exact funext (ofParts_upper hletters)

/-- No blanks are dropped from a name. -/
theorem parse?_name {letters digits : List Char} (hletters : ∀ c ∈ letters, c.isAlpha)
    (hdigits : ∀ c ∈ digits, c.isDigit) :
    parse? (String.ofList (letters ++ digits)) = ofChars? (letters ++ digits) := by
  have hblank : ∀ c ∈ letters ++ digits, ¬ isBlank c := by
    intro c hc
    rcases List.mem_append.mp hc with hc | hc
    · exact not_isBlank_of_isAlpha (hletters c hc)
    · exact not_isBlank_of_isDigit (hdigits c hc)
  rw [parse?, String.toList_ofList, trimmed_eq_self hblank]

/-- A name in upper case denotes the cell that it denotes as it was written. -/
theorem parse?_upper {letters digits : List Char} (hletters : ∀ c ∈ letters, c.isAlpha)
    (hdigits : ∀ c ∈ digits, c.isDigit) :
    parse? (String.ofList (upper (letters ++ digits))) = ofChars? (letters ++ digits) := by
  rw [← ofChars?_upper hletters hdigits, upper_append, upper_of_isDigit hdigits,
    parse?_name (isAlpha_of_mem_upper hletters) hdigits]

/-! ### Coordinates -/

theorem isDigit_of_mem_rowDigits {row : Option Nat} {c : Char} (h : c ∈ rowDigits row) : c.isDigit := by
  cases row with
  | none => cases h
  | some n => exact Nat.isDigit_of_mem_toDigits (by decide) (by decide) h

/-- The text of a reference falls apart into the letters of its column and the digits of its row. -/
theorem split_of_text {r : Ref} {letters : List Char} {row : Option Nat}
    (hupper : ∀ c ∈ letters, c.isUpper) (htext : r.text.toList = letters ++ rowDigits row) :
    r.letters = letters ∧ r.digits = rowDigits row := by
  have hletters : ∀ c ∈ letters, (!c.isDigit) = true := by
    intro c hc
    rw [Bool.not_eq_true', Bool.eq_false_iff]
    exact fun hdigit => not_isAlpha_of_isDigit hdigit (isAlpha_of_isUpper (hupper c hc))
  have hdigits : ∀ c ∈ (rowDigits row).head?, ¬ (!c.isDigit) = true := by
    intro c hc
    rw [isDigit_of_mem_rowDigits (List.mem_of_mem_head? hc)]
    exact Bool.false_ne_true
  rw [Ref.letters, Ref.digits, htext]
  exact ⟨takeWhile_append_run hletters hdigits, dropWhile_append_run hletters hdigits⟩

theorem number?_eq_some_iff {cs : List Char} {n : Nat} : number? cs = some n ↔
    cs ≠ [] ∧ (∀ c ∈ cs, c.isDigit) ∧ Nat.ofDigitChars 10 cs 0 = n ∧ n ≤ maxIndex := by
  have hmono : ∀ (n : Nat) (c : Char), n ≤ n * 10 + (c.toNat - '0'.toNat) := fun n c => by omega
  have hread : cs.foldlM shift? 0 = some n ↔ (∀ c ∈ cs, c.isDigit) ∧
      cs.foldl (fun n c => n * 10 + (c.toNat - '0'.toNat)) 0 = n ∧ n ≤ maxIndex :=
    foldlM_place_eq_some_iff hmono (Nat.zero_le maxIndex)
  have hvalue : Nat.ofDigitChars 10 cs 0 = cs.foldl (fun n c => n * 10 + (c.toNat - '0'.toNat)) 0 := by
    simp only [Nat.ofDigitChars_eq_foldl, Nat.mul_comm]
  rw [number?, hvalue]
  split
  · rename_i hnone
    exact iff_of_false (fun h => nomatch h) fun h => h.1 (List.isEmpty_iff.mp hnone)
  · rename_i hsome
    rw [List.isEmpty_iff] at hsome
    exact hread.trans (and_iff_right hsome).symm

/-- The number that decimal digits write is read from them, unless it is too large. -/
theorem number?_toDigits (n : Nat) :
    number? (Nat.toDigits 10 n) = if n ≤ maxIndex then some n else none := by
  have hvalue : Nat.ofDigitChars 10 (Nat.toDigits 10 n) 0 = n :=
    Nat.ofDigitChars_toDigits (by decide) (by decide)
  split
  · rename_i hn
    refine number?_eq_some_iff.mpr ⟨Nat.toDigits_ne_nil, fun c hc => ?_, hvalue, hn⟩
    exact Nat.isDigit_of_mem_toDigits (by decide) (by decide) hc
  · rename_i hn
    rw [Option.eq_none_iff_forall_ne_some]
    intro m hm
    obtain ⟨-, -, heq, hle⟩ := number?_eq_some_iff.mp hm
    exact hn (hvalue.symm.trans heq ▸ hle)

/-! ### References to a column and a row -/

/-- The reference to a column and a row, or to the header of the column. -/
def ofNumbers (column : Nat) (row : Option Nat) : Ref where
  text := String.ofList (Column.letters column ++ rowDigits row)
  isRefText := ⟨Column.letters column, row, fun _ => Column.isUpper_of_mem_letters,
    String.toList_ofList⟩

theorem ofNumbers_some (column row : Nat) : ofNumbers column (some row) = ofCoordinates column row :=
  rfl

theorem split_ofNumbers (column : Nat) (row : Option Nat) :
    (ofNumbers column row).letters = Column.letters column ∧
      (ofNumbers column row).digits = rowDigits row :=
  split_of_text (fun _ => Column.isUpper_of_mem_letters) String.toList_ofList

theorem column_ofNumbers (column : Nat) (row : Option Nat) : (ofNumbers column row).column =
    if column ≠ 0 ∧ column ≤ maxIndex then some column else none := by
  rw [Ref.column, (split_ofNumbers column row).1, Column.index?_letters]

theorem row_ofNumbers (column : Nat) (row : Option Nat) :
    (ofNumbers column row).row = row.filter (· ≤ maxIndex) := by
  rw [Ref.row, (split_ofNumbers column row).2]
  cases row with
  | none => rfl
  | some n =>
    rw [rowDigits, number?_toDigits, Option.filter_some]
    simp only [decide_eq_true_eq]

theorem column_ofCoordinates (column row : Nat) : (ofCoordinates column row).column =
    if column ≠ 0 ∧ column ≤ maxIndex then some column else none :=
  column_ofNumbers column (some row)

theorem row_ofCoordinates (column row : Nat) : (ofCoordinates column row).row =
    if row ≤ maxIndex then some row else none := by
  rw [← ofNumbers_some, row_ofNumbers, Option.filter_some]
  simp only [decide_eq_true_eq]

/-- A reference is determined by its column and its row. -/
theorem eq_ofCoordinates {r : Ref} {column row : Nat} (hcolumn : r.column = some column)
    (hrow : r.row = some row) : r = ofCoordinates column row := by
  obtain ⟨letters, row', hupper, htext⟩ := r.isRefText
  obtain ⟨hletters, hdigits⟩ := split_of_text hupper htext
  have hlabel : letters = Column.letters column := by
    rw [Ref.column, hletters] at hcolumn
    exact Column.eq_letters_of_index? hupper hcolumn
  have hrow' : row' = some row := by
    rw [Ref.row, hdigits] at hrow
    cases row' with
    | none => cases hrow
    | some n =>
      rw [rowDigits, number?_toDigits] at hrow
      split at hrow
      · exact hrow
      · cases hrow
  apply eq_of_text_eq
  apply String.toList_injective
  rw [htext, hlabel, hrow', ofCoordinates, String.toList_ofList]

/-! ### What a text denotes -/

/-- One or more letters are the label of a column. -/
def DenotesColumn (letters : List Char) (column : Nat) : Prop :=
  letters ≠ [] ∧ (∀ c ∈ letters, c.isAlpha) ∧ Column.value letters = column ∧ column ≤ maxIndex

/-- Digits are the number of a row, counted from one; a header has none. -/
def DenotesRow (digits : List Char) : Option Nat → Prop
  | none => digits = []
  | some n => digits ≠ [] ∧ (∀ c ∈ digits, c.isDigit) ∧ Nat.ofDigitChars 10 digits 0 = n ∧
      1 ≤ n ∧ n ≤ maxIndex

/-- Between blanks a text has the letters of a column, and then the digits of a row if any. -/
def Denotes (text : String) (column : Nat) (row : Option Nat) : Prop :=
  ∃ letters digits, trimmed text.toList = letters ++ digits ∧ DenotesColumn letters column ∧
    DenotesRow digits row

variable {text text' : String} {letters digits : List Char} {column : Nat} {row : Option Nat}
  {r r' : Ref}

theorem parseRow?_eq_some_iff : parseRow? digits = some row ↔ DenotesRow digits row := by
  rw [parseRow?]
  by_cases hnone : digits = []
  · subst hnone
    cases row <;> simp [DenotesRow]
  · rw [if_neg (mt List.isEmpty_iff.mp hnone)]
    cases row with
    | none =>
      refine iff_of_false (fun h => ?_) hnone
      split at h <;> cases h
    | some n =>
      have hread : number? digits = some n ∧ n ≠ 0 ↔ DenotesRow digits (some n) := by
        rw [number?_eq_some_iff, DenotesRow]
        constructor
        · rintro ⟨⟨hne, hdigits, hvalue, hle⟩, hzero⟩
          exact ⟨hne, hdigits, hvalue, Nat.pos_of_ne_zero hzero, hle⟩
        · rintro ⟨hne, hdigits, hvalue, hpos, hle⟩
          exact ⟨⟨hne, hdigits, hvalue, hle⟩, Nat.ne_of_gt hpos⟩
      rw [← hread]
      split
      · rename_i hnumber
        simp [hnumber]
      · rename_i hnumber
        simpa [hnumber] using Eq.symm
      · rename_i m hzero hnumber
        have hm : m ≠ 0 := hzero
        simp only [hnumber, Option.some.injEq]
        exact ⟨fun h => ⟨h, h ▸ hm⟩, fun h => h.1⟩

theorem DenotesRow.isDigit (h : DenotesRow digits row) : ∀ c ∈ digits, c.isDigit := by
  cases row with
  | none =>
    obtain rfl : digits = [] := h
    exact fun _ hc => absurd hc List.not_mem_nil
  | some n => exact h.2.1

theorem DenotesColumn.upper_eq (h : DenotesColumn letters column) :
    upper letters = Column.letters column := by
  refine Column.eq_letters_of_index? (fun _ => isUpper_of_mem_upper h.2.1) ?_
  rw [Column.index?_upper h.2.1]
  exact Column.index?_eq_some_iff.mpr h

/-- Letters and digits that denote a column and a row are read as the reference to these. -/
theorem ofChars?_of_denotes (hcolumn : DenotesColumn letters column) (hrow : DenotesRow digits row) :
    ofChars? (letters ++ digits) = some (ofNumbers column row) := by
  have hletters := hcolumn.2.1
  have htext : (ofParts letters hletters row).text = (ofNumbers column row).text :=
    congrArg (fun cs => String.ofList (cs ++ rowDigits row)) hcolumn.upper_eq
  rw [ofChars?_name hletters hrow.isDigit, Column.index?_eq_some_iff.mpr hcolumn,
    parseRow?_eq_some_iff.mpr hrow]
  exact congrArg some (eq_of_text_eq htext)

theorem parse?_eq_some_iff :
    parse? text = some r ↔ ∃ column row, Denotes text column row ∧ ofNumbers column row = r := by
  constructor
  · intro h
    have hparse := h
    rw [parse?, ofChars?] at h
    split at h
    · cases h
    · rename_i hindex
      obtain ⟨row, hrow, -⟩ := Option.map_eq_some_iff.mp h
      obtain ⟨column, hcolumn⟩ := Option.ne_none_iff_exists'.mp (mt Option.isNone_iff_eq_none.mpr hindex)
      have hcolumn' := Column.index?_eq_some_iff.mp hcolumn
      have hrow' := parseRow?_eq_some_iff.mp hrow
      have hsplit := (List.takeWhile_append_dropWhile (p := Char.isAlpha)
        (l := trimmed text.toList)).symm
      refine ⟨column, row, ⟨_, _, hsplit, hcolumn', hrow'⟩, ?_⟩
      rw [parse?, hsplit, ofChars?_of_denotes hcolumn' hrow'] at hparse
      exact Option.some.inj hparse
  · rintro ⟨column, row, ⟨letters, digits, htext, hcolumn, hrow⟩, rfl⟩
    rw [parse?, htext, ofChars?_of_denotes hcolumn hrow]

/-! ### Coordinates of what was read -/

theorem denotesColumn_letters (hcolumn : column ≠ 0) (hle : column ≤ maxIndex) :
    DenotesColumn (Column.letters column) column := by
  refine Column.index?_eq_some_iff.mp ?_
  rw [Column.index?_letters, if_pos ⟨hcolumn, hle⟩]

theorem denotesRow_rowDigits (h : ∀ n ∈ row, 1 ≤ n ∧ n ≤ maxIndex) : DenotesRow (rowDigits row) row := by
  cases row with
  | none => rfl
  | some n =>
    obtain ⟨hpos, hle⟩ := h n rfl
    exact ⟨Nat.toDigits_ne_nil, fun _ => isDigit_of_mem_rowDigits,
      Nat.ofDigitChars_toDigits (by decide) (by decide), hpos, hle⟩

theorem denotes_text (hcolumn : column ≠ 0) (hle : column ≤ maxIndex)
    (hrow : ∀ n ∈ row, 1 ≤ n ∧ n ≤ maxIndex) : Denotes (ofNumbers column row).text column row := by
  refine ⟨Column.letters column, rowDigits row, ?_, denotesColumn_letters hcolumn hle,
    denotesRow_rowDigits hrow⟩
  rw [ofNumbers, String.toList_ofList]
  refine trimmed_eq_self fun c hc => ?_
  rcases List.mem_append.mp hc with hc | hc
  · exact not_isBlank_of_isAlpha (isAlpha_of_isUpper (Column.isUpper_of_mem_letters hc))
  · exact not_isBlank_of_isDigit (isDigit_of_mem_rowDigits hc)

theorem Denotes.column_ne_zero (h : Denotes text column row) : column ≠ 0 := by
  obtain ⟨letters, digits, -, hcolumn, -⟩ := h
  rintro rfl
  have hnone := hcolumn.upper_eq
  rw [Column.letters_zero, upper, List.map_eq_nil_iff] at hnone
  exact hcolumn.1 hnone

theorem Denotes.column_le (h : Denotes text column row) : column ≤ maxIndex := by
  obtain ⟨letters, digits, -, hcolumn, -⟩ := h
  exact hcolumn.2.2.2

theorem Denotes.row_mem (h : Denotes text column row) : ∀ n ∈ row, 1 ≤ n ∧ n ≤ maxIndex := by
  obtain ⟨letters, digits, -, -, hrow⟩ := h
  rintro n rfl
  exact hrow.2.2.2

theorem Denotes.column_ofNumbers (h : Denotes text column row) :
    (ofNumbers column row).column = some column := by
  rw [Ref.column_ofNumbers, if_pos ⟨h.column_ne_zero, h.column_le⟩]

theorem Denotes.row_ofNumbers (h : Denotes text column row) : (ofNumbers column row).row = row := by
  rw [Ref.row_ofNumbers]
  cases row with
  | none => rfl
  | some n => rw [Option.filter_some, if_pos (decide_eq_true (h.row_mem n rfl).2)]

theorem Denotes.sortKey_ofNumbers (h : Denotes text column row) :
    (ofNumbers column row).sortKey = (row.getD 0, column) := by
  rw [sortKey, h.column_ofNumbers, h.row_ofNumbers, Option.getD_some]

theorem parse?_text (h : parse? text = some r) : parse? r.text = some r := by
  obtain ⟨column, row, hdenotes, rfl⟩ := parse?_eq_some_iff.mp h
  refine parse?_eq_some_iff.mpr ⟨column, row, ?_, rfl⟩
  exact denotes_text hdenotes.column_ne_zero hdenotes.column_le hdenotes.row_mem

theorem denotes_iff (h : parse? text = some r) :
    Denotes text column row ↔ r.column = some column ∧ r.row = row := by
  constructor
  · intro hdenotes
    obtain rfl := Option.some.inj (h.symm.trans (parse?_eq_some_iff.mpr ⟨column, row, hdenotes, rfl⟩))
    exact ⟨hdenotes.column_ofNumbers, hdenotes.row_ofNumbers⟩
  · rintro ⟨hcolumn, hrow⟩
    obtain ⟨column', row', hdenotes, rfl⟩ := parse?_eq_some_iff.mp h
    rw [hdenotes.column_ofNumbers] at hcolumn
    rw [hdenotes.row_ofNumbers] at hrow
    obtain rfl := Option.some.inj hcolumn
    exact hrow ▸ hdenotes

theorem eq_iff_denotes (h : parse? text = some r) (h' : parse? text' = some r') :
    r = r' ↔ ∃ column row, Denotes text column row ∧ Denotes text' column row := by
  constructor
  · rintro rfl
    obtain ⟨column, row, hdenotes, -⟩ := parse?_eq_some_iff.mp h
    exact ⟨column, row, hdenotes, (denotes_iff h').mpr ((denotes_iff h).mp hdenotes)⟩
  · rintro ⟨column, row, hdenotes, hdenotes'⟩
    have hr := parse?_eq_some_iff.mpr ⟨column, row, hdenotes, rfl⟩
    have hr' := parse?_eq_some_iff.mpr ⟨column, row, hdenotes', rfl⟩
    exact (Option.some.inj (h.symm.trans hr)).trans (Option.some.inj (hr'.symm.trans h'))

/-- No two references that were read from texts have the same place in the order of reading. -/
theorem eq_of_sortKey_eq (h : parse? text = some r) (h' : parse? text' = some r')
    (hkey : r.sortKey = r'.sortKey) : r = r' := by
  obtain ⟨column, row, hdenotes, rfl⟩ := parse?_eq_some_iff.mp h
  obtain ⟨column', row', hdenotes', rfl⟩ := parse?_eq_some_iff.mp h'
  rw [hdenotes.sortKey_ofNumbers, hdenotes'.sortKey_ofNumbers, Prod.mk.injEq] at hkey
  obtain ⟨hrow, rfl⟩ := hkey
  -- Rows are counted from one, so that no row has the key of a header.
  have hpos := hdenotes.row_mem
  have hpos' := hdenotes'.row_mem
  suffices row = row' by rw [this]
  cases row with
  | none =>
    cases row' with
    | none => rfl
    | some n => exact absurd hrow (Nat.ne_of_lt (hpos' n rfl).1)
  | some m =>
    cases row' with
    | none => exact absurd hrow.symm (Nat.ne_of_lt (hpos m rfl).1)
    | some n => exact congrArg some hrow

theorem ofLabel?_label {column row : Nat} (hcolumn : column ≠ 0) (hrow : row ≠ 0) :
    ofLabel? (Column.label column) row = some (ofCoordinates column row) := by
  have hletters : (Column.label column).toList = Column.letters column := String.toList_ofList
  have halpha : ∀ c ∈ (Column.label column).toList, c.isAlpha := by
    rw [hletters]
    exact fun c hc => isAlpha_of_isUpper (Column.isUpper_of_mem_letters hc)
  have hnonempty : (Column.label column).isEmpty = false := by
    rw [Bool.eq_false_iff, Ne, String.isEmpty_iff, ← String.toList_eq_nil_iff, hletters]
    exact Column.letters_ne_nil hcolumn
  have hupper : upper (Column.label column).toList = Column.letters column := by
    rw [hletters, upper_of_isUpper fun _ => Column.isUpper_of_mem_letters]
  rw [ofLabel?, dif_pos (List.all_eq_true.mpr halpha), hnonempty]
  rw [if_neg (by simpa using hrow)]
  refine congrArg some (eq_of_text_eq ?_)
  exact congrArg (fun cs => String.ofList (cs ++ rowDigits (some row))) hupper

end Ref

end Spreadsheet
