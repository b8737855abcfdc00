import Spreadsheet.Proofs.Format
import Spreadsheet.Proofs.Lines
import Spreadsheet.Script.Basic

/-!
# Which texts are scripts

A line, trimmed, is empty, a comment, a toggle or a set line, or else no line of a script. A script is
read if all its lines are of these kinds. It has one entry for each toggle and each set line, with the
number of the line counted over all lines. If not, the first line of another kind is blamed.
-/

namespace Spreadsheet.Script

/-! ### Kinds of lines -/

/-- An exclamation mark, and then exactly two words: a kind, in any ASCII case, and a reference. -/
def IsToggle (line : List Char) (kind : FormatKind) (r : Ref) : Prop :=
  ∃ rest word name, line = '!' :: rest ∧ Text.IsPair rest word name ∧
    String.ofList (Text.lower word) = kind.name ∧ Ref.parse? (String.ofList name) = some r

/-- A reference up to the first colon, and after it a text, of which the blanks at the ends do not
count. -/
def IsSet (line : List Char) (r : Ref) (text : String) : Prop :=
  line.head? ≠ some '#' ∧ line.head? ≠ some '!' ∧ ∃ before after, line = before ++ ':' :: after ∧
    ':' ∉ before ∧ Ref.parse? (String.ofList before) = some r ∧ text = Text.trim (String.ofList after)

/-- What a trimmed line of a script says. -/
inductive Says (line : List Char) : Option Edit → Prop
  | blank (h : line = []) : Says line none
  | comment (h : line.head? = some '#') : Says line none
  | toggle {kind : FormatKind} {r : Ref} (h : IsToggle line kind r) : Says line (some (.toggle kind r))
  | set {r : Ref} {text : String} (h : IsSet line r text) : Says line (some (.set r text))

variable {cs line : List Char} {edit : Edit}

theorem map_eq_ok_iff {ε α β : Type} {f : α → β} {result : Except ε α} {b : β} :
    result.map f = .ok b ↔ ∃ a, result = .ok a ∧ f a = b := by
  cases result with
  | error e => exact iff_of_false (fun h => nomatch h) fun ⟨_, h, _⟩ => nomatch h
  | ok a => simp [Except.map]

theorem parseRef_eq_ok_iff {r : Ref} : parseRef cs = .ok r ↔ Ref.parse? (String.ofList cs) = some r := by
  rw [parseRef, Ref.parse?, String.toList_ofList]
  cases Ref.ofChars? (Text.trimmed cs) with
  | none => exact iff_of_false (fun h => nomatch h) fun h => nomatch h
  | some found => rw [Except.ok.injEq, Option.some.injEq]

theorem parseToggle_eq_ok_iff : parseToggle cs = .ok edit ↔ ∃ word name kind r,
    Text.IsPair cs word name ∧ String.ofList (Text.lower word) = kind.name ∧
      Ref.parse? (String.ofList name) = some r ∧ edit = .toggle kind r := by
  constructor
  · intro h
    rw [parseToggle] at h
    split at h
    · rename_i word name hwords
      dsimp only at h
      split at h
      · rename_i kind hkind
        obtain ⟨r, hr, rfl⟩ := map_eq_ok_iff.mp h
        exact ⟨word, name, kind, r, Text.words_eq_pair_iff.mp hwords,
          (FormatKind.ofName?_eq_some_iff.mp hkind).symm, parseRef_eq_ok_iff.mp hr, rfl⟩
      · cases h
    · cases h
  · rintro ⟨word, name, kind, r, hpair, hkind, hr, rfl⟩
    rw [parseToggle, Text.words_eq_pair_iff.mpr hpair]
    dsimp only
    rw [FormatKind.ofName?_eq_some_iff.mpr hkind.symm]
    exact map_eq_ok_iff.mpr ⟨r, parseRef_eq_ok_iff.mpr hr, rfl⟩

theorem parseSet_eq_ok_iff : parseSet cs = .ok edit ↔ ∃ before after r, cs = before ++ ':' :: after ∧
    ':' ∉ before ∧ Ref.parse? (String.ofList before) = some r ∧
      edit = .set r (Text.trim (String.ofList after)) := by
  constructor
  · intro h
    rw [parseSet] at h
    split at h
    · cases h
    · rename_i c after hafter
      obtain ⟨r, hr, rfl⟩ := map_eq_ok_iff.mp h
      -- What ends the part before the colon is the colon.
      have hcolon : c = ':' := by
        have hnot := Text.not_of_mem_head?_dropWhile c (by rw [hafter]; rfl)
        simpa using hnot
      subst hcolon
      refine ⟨cs.takeWhile (· != ':'), after, r, ?_, fun hmem => ?_, parseRef_eq_ok_iff.mp hr, ?_⟩
      · rw [← hafter, List.takeWhile_append_dropWhile]
      · simpa using Text.of_mem_takeWhile _ hmem
      · rw [Text.trim, String.toList_ofList]
  · rintro ⟨before, after, r, rfl, hbefore, hr, rfl⟩
    have hrun : ∀ c ∈ before, (c != ':') = true := by
      intro c hc
      exact bne_iff_ne.mpr fun heq => hbefore (heq ▸ hc)
    have hfirst : ∀ c ∈ (':' :: after).head?, ¬ (c != ':') = true := by simp
    rw [parseSet, Text.takeWhile_append_run hrun hfirst, Text.dropWhile_append_run hrun hfirst, Text.trim,
      String.toList_ofList]
    exact map_eq_ok_iff.mpr ⟨r, parseRef_eq_ok_iff.mpr hr, rfl⟩

/-- A line is read exactly if it is of one of the four kinds. -/
theorem parseLine_eq_ok_iff {said : Option Edit} :
    parseLine line = .ok said ↔ Says (Text.trimmed line) said := by
  rw [parseLine]
  generalize Text.trimmed line = cs
  constructor
  · intro h
    split at h
    · obtain rfl := Except.ok.inj h
      exact .blank rfl
    · obtain rfl := Except.ok.inj h
      exact .comment rfl
    · rename_i rest
      obtain ⟨edit, hedit, rfl⟩ := map_eq_ok_iff.mp h
      obtain ⟨word, name, kind, r, hpair, hkind, hr, rfl⟩ := parseToggle_eq_ok_iff.mp hedit
      exact .toggle ⟨rest, word, name, rfl, hpair, hkind, hr⟩
    · rename_i hblank hhash hbang
      obtain ⟨edit, hedit, rfl⟩ := map_eq_ok_iff.mp h
      obtain ⟨before, after, r, heq, hbefore, hr, rfl⟩ := parseSet_eq_ok_iff.mp hedit
      refine .set ⟨fun hfirst => ?_, fun hfirst => ?_, before, after, heq, hbefore, hr, rfl⟩
      · obtain ⟨rest, hcs⟩ := List.head?_eq_some_iff.mp hfirst
        exact hhash rest hcs
      · obtain ⟨rest, hcs⟩ := List.head?_eq_some_iff.mp hfirst
        exact hbang rest hcs
  · intro h
    cases h with
    | blank hcs => rw [hcs]
    | comment hfirst =>
      obtain ⟨rest, rfl⟩ := List.head?_eq_some_iff.mp hfirst
      rfl
    | toggle htoggle =>
      obtain ⟨rest, word, name, hcs, hpair, hkind, hr⟩ := htoggle
      rw [hcs]
      exact map_eq_ok_iff.mpr ⟨_, parseToggle_eq_ok_iff.mpr ⟨word, name, _, _, hpair, hkind, hr, rfl⟩, rfl⟩
    | set hset =>
      obtain ⟨hhash, hbang, before, after, hcs, hbefore, hr, rfl⟩ := hset
      split
      · simp at hcs
      · exact absurd rfl hhash
      · exact absurd rfl hbang
      · exact map_eq_ok_iff.mpr ⟨_, parseSet_eq_ok_iff.mpr ⟨before, after, _, hcs, hbefore, hr, rfl⟩, rfl⟩

/-! ### All lines -/

/-- The entries of lines that are numbered from `start` on, given what each of them says. -/
def numbered (start : Nat) (said : List (Option Edit)) : List Entry :=
  (said.zipIdx start).filterMap fun (edit, line) => edit.map (Entry.mk line)

/-- All lines are lines of a script, and this is what they say. -/
def AllSay (lines : List (List Char)) (said : List (Option Edit)) : Prop :=
  List.Forall₂ (fun line edit => Says (Text.trimmed line) edit) lines said

/-- The `n`-th line, counted from `start`, is the first one that is no line of a script. -/
def FirstUnread (lines : List (List Char)) (start n : Nat) : Prop :=
  ∃ before line after, lines = before ++ line :: after ∧ n = start + before.length ∧
    (∀ earlier ∈ before, ∃ said, Says (Text.trimmed earlier) said) ∧
    ¬ ∃ said, Says (Text.trimmed line) said

variable {lines : List (List Char)} {said : List (Option Edit)}

theorem addLine_of_says {edit : Option Edit} (h : Says (Text.trimmed line) edit) (n : Nat)
    (entries : List Entry) :
    addLine entries (line, n) = .ok ((numbered n [edit]).reverse ++ entries) := by
  rw [addLine, parseLine_eq_ok_iff.mpr h]
  cases edit <;> rfl

theorem addLine_of_not_says (h : ¬ ∃ edit, Says (Text.trimmed line) edit) (n : Nat)
    (entries : List Entry) : ∃ cause, addLine entries (line, n) = .error ⟨n, cause⟩ := by
  cases hline : parseLine line with
  | error cause => exact ⟨cause, by rw [addLine, hline]⟩
  | ok edit => exact absurd ⟨edit, parseLine_eq_ok_iff.mp hline⟩ h

theorem numbered_cons (start : Nat) (edit : Option Edit) (rest : List (Option Edit)) :
    numbered start (edit :: rest) = numbered start [edit] ++ numbered (start + 1) rest := by
  rw [numbered, List.zipIdx_cons, ← List.singleton_append, List.filterMap_append]
  rfl

theorem foldlM_addLine_of_allSay (h : AllSay lines said) (start : Nat) (entries : List Entry) :
    (lines.zipIdx start).foldlM addLine entries =
      .ok ((numbered start said).reverse ++ entries) := by
  induction h generalizing start entries with
  | nil => rfl
  | @cons line edit lines said hline _ ih =>
    rw [List.zipIdx_cons, List.foldlM_cons, addLine_of_says hline, numbered_cons start edit said,
      List.reverse_append, List.append_assoc]
    exact ih (start + 1) _

theorem exists_says_of_mem_numbered (h : AllSay lines said) {start : Nat} {entry : Entry}
    (hmem : entry ∈ numbered start said) : ∃ line, Says line (some entry.edit) := by
  induction h generalizing start with
  | nil => cases hmem
  | @cons line edit lines said hline _ ih =>
    rw [numbered_cons, List.mem_append] at hmem
    rcases hmem with hmem | hmem
    · cases edit with
      | none => cases hmem
      | some edit =>
        obtain rfl := List.mem_singleton.mp hmem
        exact ⟨_, hline⟩
    · exact ih hmem

theorem exists_allSay (h : ∀ line ∈ lines, ∃ edit, Says (Text.trimmed line) edit) :
    ∃ said, AllSay lines said := by
  induction lines with
  | nil => exact ⟨[], .nil⟩
  | cons line rest ih =>
    obtain ⟨edit, hedit⟩ := h line List.mem_cons_self
    obtain ⟨said, hsaid⟩ := ih fun l hl => h l (List.mem_cons_of_mem line hl)
    exact ⟨edit :: said, .cons hedit hsaid⟩

theorem foldlM_addLine_of_firstUnread {start n : Nat} (h : FirstUnread lines start n)
    (entries : List Entry) :
    ∃ cause, (lines.zipIdx start).foldlM addLine entries = .error ⟨n, cause⟩ := by
  obtain ⟨before, line, after, rfl, rfl, hbefore, hline⟩ := h
  obtain ⟨said, hsaid⟩ := exists_allSay hbefore
  obtain ⟨cause, hcause⟩ := addLine_of_not_says hline (start + before.length)
    ((numbered start said).reverse ++ entries)
  refine ⟨cause, ?_⟩
  rw [List.zipIdx_append, List.zipIdx_cons, List.foldlM_append, foldlM_addLine_of_allSay hsaid]
  show List.foldlM addLine _ _ = _
  rw [List.foldlM_cons, hcause]
  rfl

theorem allSay_or_firstUnread (lines : List (List Char)) (start : Nat) :
    (∃ said, AllSay lines said) ∨ ∃ n, FirstUnread lines start n := by
  induction lines generalizing start with
  | nil => exact Or.inl ⟨[], .nil⟩
  | cons line rest ih =>
    by_cases hline : ∃ edit, Says (Text.trimmed line) edit
    · obtain ⟨edit, hedit⟩ := hline
      rcases ih (start + 1) with ⟨said, hsaid⟩ | ⟨n, before, bad, after, rfl, hn, hbefore, hbad⟩
      · exact Or.inl ⟨edit :: said, .cons hedit hsaid⟩
      · refine Or.inr ⟨n, line :: before, bad, after, rfl, ?_, ?_, hbad⟩
        · rw [hn, List.length_cons]
          omega
        · exact List.forall_mem_cons.mpr ⟨⟨edit, hedit⟩, hbefore⟩
    · exact Or.inr ⟨start, [], line, rest, rfl, rfl, List.forall_mem_nil _, hline⟩

/-! ### Whole texts -/

/-- An edit script is read line by line as the lines stand in the text: the further empty piece after
the last line feed and the carriage returns before line feeds do not matter. -/
theorem foldlM_addLine_lines (cs : List Char) :
    ((Text.lines cs).zipIdx 1).foldlM addLine [] =
      ((Text.physicalLines cs).zipIdx 1).foldlM addLine [] := by
  have htrimmed : ∀ lines : List (List Char), (lines.zipIdx 1).foldlM addLine [] =
      ((lines.map Text.trimmed).zipIdx 1).foldlM addLine [] := by
    intro lines
    rw [List.zipIdx_map, List.foldlM_map]
    congr 1
    funext entries numberedLine
    rw [addLine, addLine, parseLine, parseLine]
    simp only [Prod.map, Text.trimmed_trimmed, id]
  obtain ⟨last, hlast, hmap⟩ := Text.map_trimmed_lines cs
  rw [htrimmed (Text.lines cs), hmap, htrimmed (Text.physicalLines cs)]
  rcases hlast with rfl | rfl
  · rw [List.append_nil]
  · -- The further piece is a blank line and has no entry.
    have hskip : ∀ n, (fun entries => [(([] : List Char), n)].foldlM addLine entries) = Except.ok := by
      intro n
      funext entries
      rw [List.foldlM_cons, addLine_of_says (.blank rfl)]
      rfl
    rw [List.zipIdx_append, List.foldlM_append, List.zipIdx_singleton, hskip]
    exact bind_pure _

theorem parse_of_allSay {content : String} (h : AllSay (Text.physicalLines content.toList) said) :
    parse content = .ok (numbered 1 said) := by
  rw [parse, foldlM_addLine_lines, foldlM_addLine_of_allSay h]
  show Except.ok _ = _
  rw [List.append_nil, List.reverse_reverse]

theorem parse_of_firstUnread {content : String} {n : Nat}
    (h : FirstUnread (Text.physicalLines content.toList) 1 n) :
    ∃ cause, parse content = .error ⟨n, cause⟩ := by
  obtain ⟨cause, hcause⟩ := foldlM_addLine_of_firstUnread h []
  refine ⟨cause, ?_⟩
  rw [parse, foldlM_addLine_lines, hcause]
  rfl

theorem exists_allSay_of_parse {content : String} {entries : List Entry}
    (h : parse content = .ok entries) :
    ∃ said, AllSay (Text.physicalLines content.toList) said ∧ entries = numbered 1 said := by
  rcases allSay_or_firstUnread (Text.physicalLines content.toList) 1 with ⟨said, hsaid⟩ | ⟨n, hn⟩
  · exact ⟨said, hsaid, Except.ok.inj (h.symm.trans (parse_of_allSay hsaid))⟩
  · obtain ⟨cause, hcause⟩ := parse_of_firstUnread hn
    exact nomatch h.symm.trans hcause

end Spreadsheet.Script
