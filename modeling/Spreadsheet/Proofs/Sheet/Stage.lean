import Spreadsheet.Proofs.Graph.Edges
import Spreadsheet.Proofs.Sheet.Recalc
import Spreadsheet.Sheet.Edit

/-!
# Stages of an edit

A call either does nothing or changes one cell and then recalculates what reads it. `Call.stage` says
which, and what there is to recalculate; neither the policy on cycles nor the observer matters for
it. Other cells stay as they are, and the graph changes only in what the edited cell depends on. So a
graph that fitted the cells before fits them again when the recalculation begins.
-/

namespace Spreadsheet

/-- A call that edits a sheet. -/
inductive Call where
  | set (r : Ref) (text : String)
  | setAt (reference text : String)
  | toggleAt (kind reference : String)

/-- What a call comes to before anything is recalculated. -/
inductive Stage where
  | idle (result : Except SheetError (List Change))
  | edited (g : Graph) (p : Progress) (origin : Ref)

namespace Graph

/-- Moving the edited cell to what it reads now makes a graph fit the new grid. -/
theorem Coherent.relink {g : Graph} {cells cells' : Grid} {r : Ref} (h : g.Coherent cells)
    (hsame : ∀ x, x ≠ r → cells'[x]? = cells[x]?) :
    (g.relink r (cells.precedents r) (cells'.precedents r)).graph.Coherent cells' := by
  intro q x
  rw [edge_relink_of_exact fun q => (h q r).trans Grid.reads_iff_mem_precedents]
  by_cases hx : x = r
  · subst hx
    rw [if_pos rfl, Grid.reads_iff_mem_precedents]
  · rw [if_neg hx, h, Grid.Reads, Grid.Reads, hsame x hx]

theorem coherent_empty : empty.Coherent ∅ := by
  intro q r
  refine iff_of_false (not_edge_empty q r) ?_
  intro hreads
  obtain ⟨c, hc, -⟩ := hreads
  simp at hc

end Graph

namespace Call

/-- The text that a call sets, without the blanks at its ends. -/
def written? : Call → Option String
  | set _ text => some (Text.trim text)
  | setAt _ text => some (Text.trim text)
  | toggleAt _ _ => none

/-- The reference that a call edits, unless its text denotes none. -/
def target? : Call → Option Ref
  | set r _ => some r
  | setAt reference _ => Ref.parse? reference
  | toggleAt _ reference => Ref.parse? reference

/-- Whether the reference that a call is given can be parsed. -/
def parses : Call → Bool
  | set _ _ => true
  | setAt reference _ => (Ref.parse? reference).isSome
  | toggleAt _ reference => (Ref.parse? reference).isSome

end Call

namespace Sheet

/-- The outcome of a call. -/
def call (s : Sheet) : Call → Outcome
  | .set r text => s.set r text
  | .setAt reference text => s.setAt reference text
  | .toggleAt kind reference => s.toggleAt kind reference

/-- The sheet after some calls, whatever each of them returned. -/
def run (s : Sheet) (calls : List Call) : Sheet := calls.foldl (fun s e => (s.call e).sheet) s

def stageSet (s : Sheet) (r : Ref) (text : String) : Stage :=
  if s.cells[r]?.any (·.raw == text) then .idle (.ok [])
  else if text.isEmpty then
    match s.cells[r]? with
    | none => .idle (.ok [])
    | some c => .edited (s.erase r c).1.graph (s.erase r c).2 r
  else .edited (s.write r (Text.trim text)).1.graph (s.write r (Text.trim text)).2 r

def stageToggle (s : Sheet) (kind : FormatKind) (r : Ref) : Stage :=
  .edited s.graph (Progress.store ⟨s.cells, []⟩ r ((s.cells[r]?.getD (.ofFormat {})).toggle kind)) r

def stage (s : Sheet) : Call → Stage
  | .set r text => s.stageSet r text
  | .setAt reference text =>
    match SheetError.parseRef reference with
    | .error e => .idle (.error e)
    | .ok r => s.stageSet r text
  | .toggleAt kind reference =>
    match SheetError.parseRef reference with
    | .error e => .idle (.error e)
    | .ok r =>
      match FormatKind.ofName? kind with
      | none => .idle (.ok [])
      | some kind => s.stageToggle kind r

/-! ### Before the recalculation -/

/-- Neither the policy on cycles nor the observer matters before a recalculation. -/
theorem stage_congr {s s' : Sheet} (hcells : s.cells = s'.cells) (hgraph : s.graph = s'.graph)
    (hkeep : s.config.keepFormatOnClear = s'.config.keepFormatOnClear) (e : Call) :
    s.stage e = s'.stage e := by
  have hset : ∀ r text, s.stageSet r text = s'.stageSet r text := by
    intro r text
    simp only [stageSet, erase, write, hcells, hgraph, hkeep]
  cases e with
  | set r text => exact hset r text
  | setAt reference text => simp only [stage, hset]
  | toggleAt kind reference => simp only [stage, stageToggle, hcells, hgraph]

variable {s : Sheet} {e : Call} {g : Graph} {p : Progress} {r : Ref}

theorem stageSet_cases {origin : Ref} {text : String}
    (h : s.stageSet r text = .edited g p origin) :
    (g = (s.write origin (Text.trim text)).1.graph ∧ p = (s.write origin (Text.trim text)).2) ∨
      (text = "" ∧ ∃ c, s.cells[origin]? = some c ∧ g = (s.erase origin c).1.graph ∧
        p = (s.erase origin c).2) := by
  unfold stageSet at h
  split at h
  · cases h
  · split at h
    · rename_i hempty
      split at h
      · cases h
      · rename_i c hc
        obtain ⟨rfl, rfl, rfl⟩ := Stage.edited.inj h
        exact Or.inr ⟨String.isEmpty_iff.mp hempty, c, hc, rfl, rfl⟩
    · obtain ⟨rfl, rfl, rfl⟩ := Stage.edited.inj h
      exact Or.inl ⟨rfl, rfl⟩

/-- All that a call can do before the recalculation: write, erase or toggle a flag. -/
theorem stage_cases (h : s.stage e = .edited g p r) :
    (∃ raw, e.written? = some raw ∧ g = (s.write r raw).1.graph ∧ p = (s.write r raw).2) ∨
      (∃ c, s.cells[r]? = some c ∧ g = (s.erase r c).1.graph ∧ p = (s.erase r c).2) ∨
      ∃ kind, g = s.graph ∧
        p = Progress.store ⟨s.cells, []⟩ r ((s.cells[r]?.getD (.ofFormat {})).toggle kind) := by
  cases e with
  | set x text =>
    rcases stageSet_cases h with hwrite | ⟨-, herase⟩
    · exact Or.inl ⟨Text.trim text, rfl, hwrite⟩
    · exact Or.inr (Or.inl herase)
  | setAt reference text =>
    simp only [stage] at h
    split at h
    · cases h
    · rcases stageSet_cases h with hwrite | ⟨-, herase⟩
      · exact Or.inl ⟨Text.trim text, rfl, hwrite⟩
      · exact Or.inr (Or.inl herase)
  | toggleAt kind reference =>
    simp only [stage] at h
    split at h
    · cases h
    · split at h
      · cases h
      · rename_i kind _
        obtain ⟨rfl, rfl, rfl⟩ := Stage.edited.inj h
        exact Or.inr (Or.inr ⟨kind, rfl, rfl⟩)

theorem exists_snd_write (s : Sheet) (r : Ref) (raw : String) : ∃ format, (s.write r raw).2 =
    Progress.store ⟨s.cells, []⟩ r
      (s.cells.spread { Cell.ofText raw s.cells.lookup with format }) := by
  unfold write
  cases s.cells[r]? with
  | none => exact ⟨{}, rfl⟩
  | some c => exact ⟨c.format, rfl⟩

theorem touched_of_stage (h : s.stage e = .edited g p r) : p.touched = [r] := by
  rcases stage_cases h with ⟨raw, -, -, rfl⟩ | ⟨c, -, -, rfl⟩ | ⟨kind, -, rfl⟩
  · obtain ⟨format, hwrite⟩ := exists_snd_write s r raw
    rw [hwrite]
    rfl
  · rfl
  · rfl

theorem getElem?_of_stage (h : s.stage e = .edited g p r) {x : Ref} (hx : x ≠ r) :
    p.cells[x]? = s.cells[x]? := by
  have hinsert : ∀ (cells : Grid) (c : Cell), (cells.insert r c)[x]? = cells[x]? := by
    intro cells c
    rw [Std.ExtTreeMap.getElem?_insert, if_neg (by simpa using Ne.symm hx)]
  have herase : (s.cells.erase r)[x]? = s.cells[x]? := by
    rw [Std.ExtTreeMap.getElem?_erase, if_neg (by simpa using Ne.symm hx)]
  rcases stage_cases h with ⟨raw, -, -, rfl⟩ | ⟨c, -, -, rfl⟩ | ⟨kind, -, rfl⟩
  · obtain ⟨format, hwrite⟩ := exists_snd_write s r raw
    rw [hwrite]
    exact hinsert _ _
  · dsimp only [erase]
    split
    · rw [hinsert, herase]
    · exact herase
  · exact hinsert _ _

/-- The edited cell before the recalculation: it is written, or empty but for its format, or has a
new format only. -/
theorem cell_of_stage (h : s.stage e = .edited g p r) {c : Cell} (hc : p.cells[r]? = some c) :
    (∃ raw format, e.written? = some raw ∧
        c = s.cells.spread (Cell.recompute { Cell.ofFormat format with raw } s.cells.lookup)) ∨
      (∃ format, c = Cell.ofFormat format) ∨
      ∃ old format, s.cells[r]? = some old ∧ c = { old with format } := by
  have hinsert : ∀ {cells : Grid} {c' : Cell}, (cells.insert r c')[r]? = some c → c = c' := by
    intro cells c' hget
    rw [Std.ExtTreeMap.getElem?_insert_self] at hget
    exact (Option.some.inj hget).symm
  rcases stage_cases h with ⟨raw, hwrites, -, rfl⟩ | ⟨old, -, -, rfl⟩ | ⟨kind, -, rfl⟩
  · obtain ⟨format, hwrite⟩ := exists_snd_write s r raw
    rw [hwrite] at hc
    refine Or.inl ⟨raw, format, hwrites, (hinsert hc).trans (congrArg s.cells.spread ?_)⟩
    rw [Cell.ofText, Cell.recompute_eq, Cell.recompute_eq]
    rfl
  · dsimp only [erase] at hc
    split at hc
    · exact Or.inr (Or.inl ⟨old.format, hinsert hc⟩)
    · rw [Std.ExtTreeMap.getElem?_erase_self] at hc
      cases hc
  · obtain rfl := hinsert hc
    cases hold : s.cells[r]? with
    | none => exact Or.inr (Or.inl ⟨_, rfl⟩)
    | some old => exact Or.inr (Or.inr ⟨old, _, rfl, rfl⟩)

/-- What is stored when a text was set, if anything is, is that text without the blanks at its ends. -/
theorem raw_of_stageSet {text : String} (h : s.stageSet r text = .edited g p r) {c : Cell}
    (hc : p.cells[r]? = some c) : c.raw = Text.trim text := by
  rcases stageSet_cases h with ⟨-, rfl⟩ | ⟨rfl, old, -, -, rfl⟩
  · obtain ⟨format, hwrite⟩ := exists_snd_write s r (Text.trim text)
    rw [hwrite, Progress.store, Std.ExtTreeMap.getElem?_insert_self] at hc
    rw [← Option.some.inj hc, Grid.raw_spread, Cell.ofText, Cell.recompute_eq]
  · dsimp only [erase] at hc
    split at hc
    · rw [Std.ExtTreeMap.getElem?_insert_self] at hc
      rw [← Option.some.inj hc]
      rfl
    · rw [Std.ExtTreeMap.getElem?_erase_self] at hc
      cases hc

/-- In the graph a call moves the edited cell from what it depended on to what it depends on now. -/
theorem graph_of_stage (h : s.stage e = .edited g p r) :
    g = (s.graph.relink r (s.cells.precedents r) (p.cells.precedents r)).graph := by
  rcases stage_cases h with ⟨raw, -, rfl, rfl⟩ | ⟨c, hc, rfl, rfl⟩ | ⟨kind, rfl, rfl⟩
  · unfold write
    cases hc : s.cells[r]? with
    | none => simp [Grid.precedents, Progress.store, hc]
    | some c => simp [Grid.precedents, Progress.store, hc]
  · dsimp only [erase]
    split <;> simp [Grid.precedents, hc, Cell.ofFormat]
  · have hsame : (Progress.store ⟨s.cells, []⟩ r
        ((s.cells[r]?.getD (.ofFormat {})).toggle kind)).cells.precedents r = s.cells.precedents r := by
      cases hc : s.cells[r]? <;>
        simp [Grid.precedents, Progress.store, hc, Cell.toggle, Cell.ofFormat]
    rw [hsame, Graph.relink_self]

/-- A stored text was stored before, or is empty, or is the one that the call writes. -/
theorem raw_of_stage (h : s.stage e = .edited g p r) {x : Ref} {c : Cell}
    (hc : p.cells[x]? = some c) :
    (∃ c', s.cells[x]? = some c' ∧ c.raw = c'.raw) ∨ c.raw = "" ∨ e.written? = some c.raw := by
  by_cases hx : x = r
  · subst hx
    rcases cell_of_stage h hc with ⟨raw, format, hwrites, rfl⟩ | ⟨format, rfl⟩ |
      ⟨old, format, hold, rfl⟩
    · rw [Grid.raw_spread, Cell.recompute_eq]
      exact Or.inr (Or.inr hwrites)
    · exact Or.inr (Or.inl rfl)
    · exact Or.inl ⟨old, hold, rfl⟩
  · rw [getElem?_of_stage h hx] at hc
    exact Or.inl ⟨c, hc, rfl⟩

theorem coherent_of_stage (hcoherent : s.graph.Coherent s.cells) (h : s.stage e = .edited g p r) :
    g.Coherent p.cells := by
  rw [graph_of_stage h]
  exact hcoherent.relink fun x hx => getElem?_of_stage h hx

/-- A call with a reference that parses is idle only in that it changes nothing. -/
theorem idle_of_parses (hparses : e.parses = true) {result : Except SheetError (List Change)}
    (h : s.stage e = .idle result) : result = .ok [] := by
  have hset : ∀ r text, s.stageSet r text = .idle result → result = .ok [] := by
    intro r text h
    unfold stageSet at h
    split at h
    · exact (Stage.idle.inj h).symm
    · split at h
      · split at h
        · exact (Stage.idle.inj h).symm
        · cases h
      · cases h
  cases e with
  | set r text => exact hset r text h
  | setAt reference text =>
    obtain ⟨r, hr⟩ := Option.isSome_iff_exists.mp hparses
    rw [stage, SheetError.parseRef, hr] at h
    exact hset r text h
  | toggleAt kind reference =>
    obtain ⟨r, hr⟩ := Option.isSome_iff_exists.mp hparses
    rw [stage, SheetError.parseRef, hr] at h
    dsimp only at h
    split at h
    · exact (Stage.idle.inj h).symm
    · cases h

/-! ### From a stage to the outcome -/

theorem set_of_idle {text : String} {result : Except SheetError (List Change)}
    (h : s.stageSet r text = .idle result) : s.set r text = s.unchanged result := by
  rw [stageSet] at h
  rw [set]
  by_cases hsame : s.cells[r]?.any (·.raw == text) = true
  · rw [if_pos hsame] at h
    obtain rfl := Stage.idle.inj h
    exact if_pos hsame
  · rw [if_neg hsame] at h
    dsimp only
    rw [if_neg hsame]
    by_cases hempty : text.isEmpty = true
    · rw [if_pos hempty] at h
      rw [if_pos hempty]
      cases hold : s.cells[r]? with
      | none =>
        rw [hold] at h
        obtain rfl := Stage.idle.inj h
        rfl
      | some c =>
        rw [hold] at h
        cases h
    · rw [if_neg hempty] at h
      cases h

theorem fst_write (s : Sheet) (r : Ref) (raw : String) :
    (s.write r raw).1 = { s with graph := (s.write r raw).1.graph } := by
  unfold write
  cases s.cells[r]? <;> rfl

theorem set_of_edited {text : String} {origin : Ref} (h : s.stageSet r text = .edited g p origin) :
    s.set r text = { s with graph := g }.finish p origin := by
  rw [stageSet] at h
  rw [set]
  by_cases hsame : s.cells[r]?.any (·.raw == text) = true
  · rw [if_pos hsame] at h
    cases h
  · rw [if_neg hsame] at h
    dsimp only
    rw [if_neg hsame]
    by_cases hempty : text.isEmpty = true
    · rw [if_pos hempty] at h
      rw [if_pos hempty]
      cases hold : s.cells[r]? with
      | none =>
        rw [hold] at h
        cases h
      | some c =>
        rw [hold] at h
        obtain ⟨rfl, rfl, rfl⟩ := Stage.edited.inj h
        rfl
    · rw [if_neg hempty] at h
      rw [if_neg hempty]
      obtain ⟨rfl, rfl, rfl⟩ := Stage.edited.inj h
      rw [← fst_write]

theorem call_of_idle {result : Except SheetError (List Change)} (h : s.stage e = .idle result) :
    s.call e = s.unchanged result := by
  cases e with
  | set r text => exact set_of_idle h
  | setAt reference text =>
    cases hparse : SheetError.parseRef reference with
    | error cause =>
      simp only [stage, hparse] at h
      obtain rfl := Stage.idle.inj h
      simp only [call, setAt, hparse]
    | ok r =>
      simp only [stage, hparse] at h
      simp only [call, setAt, hparse]
      exact set_of_idle h
  | toggleAt kind reference =>
    cases hparse : SheetError.parseRef reference with
    | error cause =>
      simp only [stage, hparse] at h
      obtain rfl := Stage.idle.inj h
      simp only [call, toggleAt, hparse]
    | ok r =>
      cases hkind : FormatKind.ofName? kind with
      | none =>
        simp only [stage, hparse, hkind] at h
        obtain rfl := Stage.idle.inj h
        simp only [call, toggleAt, hparse, hkind]
      | some kind =>
        simp only [stage, hparse, hkind, stageToggle] at h
        cases h

/-- A toggle that is recalculated forgives a cycle, and that is all that it does after that. -/
theorem toggle_of_edited {kind : FormatKind} {origin : Ref}
    (h : s.stageToggle kind r = .edited g p origin) :
    s.toggle kind r = { s with graph := g }.finish p origin ∨
      ∃ path changes, ({ s with graph := g }.finish p origin).result = .error (.cyclic path changes) ∧
        s.toggle kind r = { { s with graph := g }.finish p origin with result := .ok changes } := by
  obtain ⟨rfl, rfl, rfl⟩ := Stage.edited.inj h
  rw [toggle]
  split
  · rename_i path changes hresult
    exact Or.inr ⟨path, changes, hresult, rfl⟩
  · exact Or.inl rfl

/-- A call that is not idle ends with a recalculation, of which a toggle forgives a cycle. -/
theorem call_eq_of_edited (h : s.stage e = .edited g p r) :
    s.call e = { s with graph := g }.finish p r ∨
      ∃ path changes, ({ s with graph := g }.finish p r).result = .error (.cyclic path changes) ∧
        s.call e = { { s with graph := g }.finish p r with result := .ok changes } := by
  cases e with
  | set r text =>
    exact Or.inl (set_of_edited h)
  | setAt reference text =>
    cases hparse : SheetError.parseRef reference with
    | error cause =>
      simp only [stage, hparse] at h
      cases h
    | ok r =>
      simp only [stage, hparse] at h
      simp only [call, setAt, hparse]
      exact Or.inl (set_of_edited h)
  | toggleAt kind reference =>
    cases hparse : SheetError.parseRef reference with
    | error cause =>
      simp only [stage, hparse] at h
      cases h
    | ok r =>
      cases hkind : FormatKind.ofName? kind with
      | none =>
        simp only [stage, hparse, hkind] at h
        cases h
      | some kind =>
        simp only [stage, hparse, hkind] at h
        simp only [call, toggleAt, hparse, hkind]
        exact toggle_of_edited h

theorem call_of_edited (h : s.stage e = .edited g p r) :
    (s.call e).sheet = ({ s with graph := g }.finish p r).sheet ∧
      ∀ changes, ({ s with graph := g }.finish p r).result = .ok changes →
        (s.call e).result = .ok changes := by
  rcases call_eq_of_edited h with heq | ⟨path, changes, hresult, heq⟩
  · rw [heq]
    exact ⟨rfl, fun _ hok => hok⟩
  · rw [heq]
    refine ⟨rfl, fun changes' hok => ?_⟩
    rw [hresult] at hok
    cases hok

/-! ### Calls without effect -/

/-- Setting this text does nothing: it is stored already, or it would clear what is not stored. -/
def HasText (s : Sheet) (r : Ref) (text : String) : Prop :=
  (∃ c, s.cells[r]? = some c ∧ c.raw = text) ∨ (s.cells[r]? = none ∧ text = "")

/-- A call does nothing to a reference: it sets the text that is there, or toggles no known kind. -/
def Ignores (s : Sheet) (r : Ref) : Call → Prop
  | .set _ text => s.HasText r text
  | .setAt _ text => s.HasText r text
  | .toggleAt kind _ => FormatKind.ofName? kind = none

instance (s : Sheet) (r : Ref) (text : String) : Decidable (s.HasText r text) :=
  match hr : s.cells[r]? with
  | some c => decidable_of_iff (c.raw = text) (by simp [HasText, hr])
  | none => decidable_of_iff (text = "") (by simp [HasText, hr])

instance (s : Sheet) (r : Ref) : (e : Call) → Decidable (s.Ignores r e)
  | .set _ text => inferInstanceAs (Decidable (s.HasText r text))
  | .setAt _ text => inferInstanceAs (Decidable (s.HasText r text))
  | .toggleAt kind _ => inferInstanceAs (Decidable (FormatKind.ofName? kind = none))

theorem stageSet_of_hasText {text : String} (h : s.HasText r text) :
    s.stageSet r text = .idle (.ok []) := by
  rw [stageSet]
  rcases h with ⟨c, hc, rfl⟩ | ⟨hnone, rfl⟩
  · rw [if_pos (by simp [hc])]
  · rw [if_neg (by simp [hnone]), if_pos (by decide), hnone]

theorem stageSet_of_not_hasText {text : String} (h : ¬ s.HasText r text) :
    ∃ g p, s.stageSet r text = .edited g p r := by
  rw [stageSet]
  split
  · rename_i hsame
    obtain ⟨c, hc, hraw⟩ := (Option.any_eq_true _ _).mp hsame
    exact absurd (Or.inl ⟨c, hc, eq_of_beq hraw⟩) h
  · split
    · rename_i hempty
      split
      · rename_i hnone
        exact absurd (Or.inr ⟨hnone, String.isEmpty_iff.mp hempty⟩) h
      · exact ⟨_, _, rfl⟩
    · exact ⟨_, _, rfl⟩

theorem stage_of_ignores (htarget : e.target? = some r) (h : s.Ignores r e) :
    s.stage e = .idle (.ok []) := by
  cases e with
  | set x text =>
    obtain rfl := Option.some.inj htarget
    exact stageSet_of_hasText h
  | setAt reference text =>
    rw [stage, SheetError.parseRef, show Ref.parse? reference = some r from htarget]
    exact stageSet_of_hasText h
  | toggleAt kind reference =>
    rw [stage, SheetError.parseRef, show Ref.parse? reference = some r from htarget]
    dsimp only
    rw [show FormatKind.ofName? kind = none from h]

theorem exists_stage_of_not_ignores (htarget : e.target? = some r) (h : ¬ s.Ignores r e) :
    ∃ g p, s.stage e = .edited g p r := by
  cases e with
  | set x text =>
    obtain rfl := Option.some.inj htarget
    exact stageSet_of_not_hasText h
  | setAt reference text =>
    rw [stage, SheetError.parseRef, show Ref.parse? reference = some r from htarget]
    exact stageSet_of_not_hasText h
  | toggleAt kind reference =>
    rw [stage, SheetError.parseRef, show Ref.parse? reference = some r from htarget]
    obtain ⟨known, hknown⟩ := Option.ne_none_iff_exists'.mp h
    dsimp only
    rw [hknown]
    exact ⟨_, _, rfl⟩

/-- Only the reference that a call is given is edited. -/
theorem target_of_stage (h : s.stage e = .edited g p r) : e.target? = some r := by
  cases htarget : e.target? with
  | none =>
    cases e with
    | set x text => cases htarget
    | setAt reference text =>
      rw [stage, SheetError.parseRef, show Ref.parse? reference = none from htarget] at h
      cases h
    | toggleAt kind reference =>
      rw [stage, SheetError.parseRef, show Ref.parse? reference = none from htarget] at h
      cases h
  | some x =>
    by_cases hignores : s.Ignores x e
    · rw [stage_of_ignores htarget hignores] at h
      cases h
    · obtain ⟨g', p', hstage⟩ := exists_stage_of_not_ignores htarget hignores
      rw [hstage] at h
      rw [(Stage.edited.inj h).2.2]

end Sheet

end Spreadsheet
