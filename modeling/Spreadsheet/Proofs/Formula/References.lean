import Spreadsheet.Proofs.Formula.Agreement

/-!
# The cells that a formula refers to

A formula is searched for cells as a text, without regard to its tokens. `Found` says what the search
is meant to find: from left to right, letters and then digits, each time as many as there are. On a
text that can be cut into tokens these are the reference tokens that have digits, in the case in
which they were written, so the search and the tokens name the same cells.
-/

namespace Spreadsheet.Formula

open Text

/-! ### What the search finds -/

/-- Letters and then digits, one or more of each. -/
inductive IsCellName : List Char → Prop where
  | mk {letters digits : List Char} (hne : letters ≠ []) (hletters : ∀ c ∈ letters, c.isAlpha)
      (hdne : digits ≠ []) (hdigits : ∀ c ∈ digits, c.isDigit) : IsCellName (letters ++ digits)

/-- The names in a text from left to right. Where one begins, the longest one is taken and the search
goes on behind it; where none begins, a character is passed over. -/
inductive Found : List Char → List (List Char) → Prop where
  | nil : Found [] []
  | skip {c : Char} {cs : List Char} {found : List (List Char)}
      (hnone : ∀ name rest, c :: cs = name ++ rest → ¬ IsCellName name) (hrest : Found cs found) :
      Found (c :: cs) found
  | next {name rest : List Char} {found : List (List Char)} (hname : IsCellName name)
      (hlongest : ∀ name' rest', name ++ rest = name' ++ rest' → IsCellName name' →
        name'.length ≤ name.length)
      (hrest : Found rest found) : Found (name ++ rest) (name :: found)

theorem IsCellName.ne_nil {name : List Char} (h : IsCellName name) : name ≠ [] := by
  obtain ⟨hne, -, -, -⟩ := h
  exact List.append_ne_nil_of_left_ne_nil hne _

/-- Where a name begins, the letters of the text are followed by a digit. -/
theorem IsCellName.exists_digit {name : List Char} (h : IsCellName name) (rest : List Char) :
    ∃ d ∈ ((name ++ rest).dropWhile Char.isAlpha).head?, d.isDigit := by
  cases h with
  | @mk letters digits _ hletters hdne hdigits =>
    obtain ⟨d, ds, rfl⟩ := List.exists_cons_of_ne_nil hdne
    have hd := hdigits d List.mem_cons_self
    refine ⟨d, ?_, hd⟩
    rw [List.append_assoc, dropWhile_append_run hletters]
    · rfl
    · intro c hc
      obtain rfl : d = c := Option.some.inj hc
      exact not_isAlpha_of_isDigit hd

theorem not_isCellName_of_not_isAlpha {c : Char} {cs name rest : List Char} (hc : ¬ c.isAlpha)
    (h : c :: cs = name ++ rest) : ¬ IsCellName name := by
  intro hname
  cases hname with
  | @mk letters digits hne hletters _ _ =>
    obtain ⟨l, ls, rfl⟩ := List.exists_cons_of_ne_nil hne
    obtain rfl : c = l := (List.cons.inj h).1
    exact hc (hletters c List.mem_cons_self)

theorem Found.skip_letters {letters rest : List Char} {found : List (List Char)}
    (hletters : ∀ c ∈ letters, c.isAlpha) (halpha : ∀ c ∈ rest.head?, ¬ c.isAlpha)
    (hdigit : ∀ c ∈ rest.head?, ¬ c.isDigit) (h : Found rest found) : Found (letters ++ rest) found := by
  induction letters with
  | nil => exact h
  | cons l ls ih =>
    show Found (l :: (ls ++ rest)) found
    refine .skip (fun name after heq hname => ?_)
      (ih fun c hc => hletters c (List.mem_cons_of_mem l hc))
    obtain ⟨d, hd, hisDigit⟩ := hname.exists_digit after
    rw [← heq, ← List.cons_append, dropWhile_append_run hletters halpha] at hd
    exact hdigit d hd hisDigit

theorem length_le_of_isCellName {letters after name rest : List Char}
    (hletters : ∀ c ∈ letters, c.isAlpha) (halpha : ∀ c ∈ after.head?, ¬ c.isAlpha)
    (h : letters ++ after = name ++ rest) (hname : IsCellName name) :
    name.length ≤ (letters ++ after.takeWhile Char.isDigit).length := by
  cases hname with
  | @mk letters' digits' _ hletters' hdne hdigits' =>
    obtain ⟨d, ds, rfl⟩ := List.exists_cons_of_ne_nil hdne
    have hd : ∀ c ∈ (d :: ds ++ rest).head?, ¬ c.isAlpha := by
      intro c hc
      obtain rfl : d = c := Option.some.inj hc
      exact not_isAlpha_of_isDigit (hdigits' d List.mem_cons_self)
    rw [List.append_assoc] at h
    have hsame : letters = letters' := by
      rw [← takeWhile_append_run hletters halpha, h, takeWhile_append_run hletters' hd]
    subst hsame
    rw [List.append_cancel_left h, List.takeWhile_append_of_pos hdigits']
    simp only [List.length_append]
    omega

theorem found_names (cs : List Char) : Found cs (names cs) := by
  fun_induction names cs with
  | case1 => exact .nil
  | case2 c rest hc after digits others hempty ih =>
    have hletters : ∀ l ∈ c :: rest.takeWhile Char.isAlpha, l.isAlpha :=
      List.forall_mem_cons.mpr ⟨hc, of_mem_takeWhile⟩
    have hafter : after.dropWhile Char.isDigit = after := by
      have hsplit := List.takeWhile_append_dropWhile (p := Char.isDigit) (l := after)
      rwa [show after.takeWhile Char.isDigit = [] from List.isEmpty_iff.mp hempty] at hsplit
    have hdigit : ∀ d ∈ after.head?, ¬ d.isDigit := hafter ▸ not_of_mem_head?_dropWhile
    rw [hafter] at ih
    have hfound := Found.skip_letters hletters not_of_mem_head?_dropWhile hdigit ih
    rw [List.cons_append, List.takeWhile_append_dropWhile] at hfound
    rwa [show others = names after from congrArg names hafter]
  | case3 c rest hc letters after digits others hne ih =>
    have hletters : ∀ l ∈ letters, l.isAlpha := List.forall_mem_cons.mpr ⟨hc, of_mem_takeWhile⟩
    have hname : IsCellName (letters ++ digits) :=
      .mk (List.cons_ne_nil _ _) hletters (mt List.isEmpty_iff.mpr hne) of_mem_takeWhile
    have htext : letters ++ digits ++ after.dropWhile Char.isDigit = letters ++ after := by
      rw [List.append_assoc, List.takeWhile_append_dropWhile]
    have hfound : Found (letters ++ digits ++ after.dropWhile Char.isDigit) _ :=
      .next hname (fun name rest' heq => length_le_of_isCellName hletters
        not_of_mem_head?_dropWhile (htext ▸ heq)) ih
    rw [htext] at hfound
    rwa [show letters ++ after = c :: rest from
      congrArg (c :: ·) List.takeWhile_append_dropWhile] at hfound
  | case4 c rest hc ih => exact .skip (fun _ _ h => not_isCellName_of_not_isAlpha hc h) ih

theorem Found.unique {cs : List Char} {found found' : List (List Char)} (h : Found cs found)
    (h' : Found cs found') : found = found' := by
  induction h generalizing found' with
  | nil =>
    generalize hcs : ([] : List Char) = cs at h'
    cases h' with
    | nil => rfl
    | skip => cases hcs
    | next hname => exact absurd (List.append_eq_nil_iff.mp hcs.symm).1 hname.ne_nil
  | @skip c rest _ hnone _ ih =>
    generalize hcs : c :: rest = cs at h'
    cases h' with
    | nil => cases hcs
    | skip _ hrest =>
      obtain ⟨rfl, rfl⟩ := List.cons.inj hcs
      exact ih hrest
    | next hname => exact absurd hname (hnone _ _ hcs)
  | @next name rest _ hname hlongest _ ih =>
    generalize hcs : name ++ rest = cs at h'
    cases h' with
    | nil => exact absurd (List.append_eq_nil_iff.mp hcs).1 hname.ne_nil
    | skip hnone => exact absurd hname (hnone _ _ hcs.symm)
    | next hname' hlongest' hrest' =>
      have hlength := Nat.le_antisymm (hlongest' _ _ hcs.symm hname) (hlongest _ _ hcs hname')
      obtain ⟨rfl, rfl⟩ := List.append_inj hcs hlength
      rw [ih hrest']

/-- The search finds what it is meant to find. -/
theorem found_iff {cs : List Char} {found : List (List Char)} : Found cs found ↔ found = names cs := by
  constructor
  · intro h
    exact h.unique (found_names cs)
  · rintro rfl
    exact found_names cs

theorem Found.isCellName {cs : List Char} {found : List (List Char)} (h : Found cs found) :
    ∀ name ∈ found, IsCellName name := by
  induction h with
  | nil => exact fun _ hname => nomatch hname
  | skip _ _ ih => exact ih
  | next hname _ _ ih => exact List.forall_mem_cons.mpr ⟨hname, ih⟩

/-! ### What is found among the tokens -/

theorem mem_of_scan {position : Nat} {before tokens : List Token} {cs : List Char}
    (h : scan position before cs = .ok tokens) {token : Token} (hmem : token ∈ before) :
    token ∈ tokens := by
  fun_induction scan position before cs with
  | case1 position before =>
    cases h
    exact List.mem_reverse.mpr hmem
  | case2 position before c cs first length rest hfront ih =>
    exact ih h (List.mem_cons_of_mem first hmem)
  | case3 => cases h
  | case4 => cases h

/-- Every name in the text is a reference among the tokens, in upper case. -/
theorem reference_mem_of_scan {position : Nat} {before tokens : List Token} {cs n : List Char}
    (h : scan position before cs = .ok tokens) (hn : n ∈ names cs) :
    .reference (String.ofList (upper n)) ∈ tokens := by
  fun_induction scan position before cs with
  | case1 position before => simp [names] at hn
  | case2 position before c cs token length rest hfront ih =>
    rcases names_of_front hfront with ⟨hnames, -⟩ | ⟨m, htoken, hnames⟩
    · exact ih h (hnames ▸ hn)
    · rw [hnames] at hn
      rcases List.mem_cons.mp hn with rfl | hn
      · exact mem_of_scan h (htoken ▸ List.mem_cons_self)
      · exact ih h hn
  | case3 => cases h
  | case4 => cases h

theorem reference_mem_of_tokenize {text : String} {tokens : List Token} {n : List Char}
    (h : tokenize text = .ok tokens) (hn : n ∈ names text.toList) :
    .reference (String.ofList (upper n)) ∈ tokens := by
  unfold tokenize tokenizeChars at h
  split at h
  · rename_i body htext
    rw [htext, names_cons_of_not_isAlpha (by decide)] at hn
    exact reference_mem_of_scan h hn
  · exact reference_mem_of_scan h hn

theorem IsCellName.not_isBareLabel_upper {name : List Char} (h : IsCellName name) :
    ¬ IsBareLabel (String.ofList (upper name)) := by
  intro hbare
  cases h with
  | @mk letters digits _ _ hdne hdigits =>
    obtain ⟨d, ds, rfl⟩ := List.exists_cons_of_ne_nil hdne
    refine hbare d ?_ (hdigits d List.mem_cons_self)
    rw [String.toList_ofList, upper_append, upper_of_isDigit hdigits]
    exact List.mem_append_right _ List.mem_cons_self

theorem mem_references_iff_of_tokenize {text : String} {tokens : List Token}
    (h : tokenize text = .ok tokens) {r : Ref} : r ∈ references text ↔
      ∃ name, .reference name ∈ tokens ∧ ¬ IsBareLabel name ∧ Ref.parse? name = some r := by
  constructor
  · intro hr
    obtain ⟨n, hn, hparse⟩ := mem_references_iff.mp hr
    have hname := (found_names text.toList).isCellName n hn
    refine ⟨_, reference_mem_of_tokenize h hn, hname.not_isBareLabel_upper, ?_⟩
    obtain ⟨-, hletters, -, hdigits⟩ := hname
    rw [Ref.parse?_upper hletters hdigits, hparse]
  · intro hname
    obtain ⟨name, hmem, hlabel, hparse⟩ := hname
    exact mem_references_of_tokenize h hmem hlabel hparse

/-- A formula depends on the cells that its reference tokens with digits denote, and on no others. So
without bare labels its references become the same numbers wherever these cells have the same
values. -/
theorem references_eq_reference_tokens {formula : String} (hcheck : check formula = .ok ()) :
    ∃ tokens, tokenize formula = .ok tokens ∧
      (∀ r, r ∈ references formula ↔
        ∃ name, .reference name ∈ tokens ∧ ¬ IsBareLabel name ∧ Ref.parse? name = some r) ∧
      ((∀ name, .reference name ∈ tokens → ¬ IsBareLabel name) →
        ∀ l l' : Lookup, (∀ r ∈ references formula, l r = l' r) →
          resolve l tokens = resolve l' tokens) := by
  obtain ⟨e, he⟩ := check_eq_ok_iff_derives.mp hcheck
  refine ⟨e.tokens, he.tokenize_eq, fun r => mem_references_iff_of_tokenize he.tokenize_eq, ?_⟩
  intro hlabels l l' hl
  exact resolve_congr he.tokenize_eq hlabels hl

/-- A formula with a cell in two spellings and a name that denotes none, and two lookups that differ on
another cell. -/
theorem references_eq_reference_tokens_of_spellings : check "=a01+A0*(b2-A1)" = .ok () ∧
    ∃ tokens, tokenize "=a01+A0*(b2-A1)" = .ok tokens ∧
      (∀ r, r ∈ references "=a01+A0*(b2-A1)" ↔
        ∃ name, .reference name ∈ tokens ∧ ¬ IsBareLabel name ∧ Ref.parse? name = some r) ∧
      resolve (fun _ => some 2.0) tokens =
        resolve (fun r => if r.text = "A2" then none else some 2.0) tokens := by
  have hcheck : check "=a01+A0*(b2-A1)" = .ok () := isValid_iff.mp (by decide +kernel)
  have hlabel : ¬ HasBareLabel "=a01+A0*(b2-A1)" := by decide +kernel
  have hother : ∀ r ∈ (references "=a01+A0*(b2-A1)").toList, r.text ≠ "A2" := by decide +kernel
  obtain ⟨tokens, htokens, hmem, hresolve⟩ := references_eq_reference_tokens hcheck
  refine ⟨hcheck, tokens, htokens, hmem, hresolve (fun name hname hbare => hlabel ?_) _ _ ?_⟩
  · exact ⟨tokens, Cell.tokens?_eq_some_iff.mpr ⟨hcheck, htokens⟩, name, hname, hbare⟩
  · intro r hr
    exact (if_neg (hother r (Std.ExtTreeSet.mem_toList.mpr hr))).symm

end Spreadsheet.Formula
