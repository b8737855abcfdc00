import Mathlib.Algebra.GroupWithZero.Nat
import Mathlib.Data.List.Chain
import Spreadsheet.Grid.Cycle
import Spreadsheet.Proofs.Grid.Settled

/-!
# The search finds the cycles

`findCycle` gives a path exactly for the cells that lie on a cycle, in any grid. `Ends` tells the course
of a search that may take any number of steps, and the number that it is given suffices, as `work` is
one less after each of them. Two invariants are carried along that course. `Trail` is about the current
path: it leads from the start along what cells read and passes no cell twice, so closing it gives a
cycle. `Covers` is about what was entered: all that an entered cell reads is entered as well and is not
the start, unless it is still to be followed. When nothing is left to follow, the entered cells are
closed under reading and none of them reads the start.
-/

namespace Spreadsheet.Grid

open Relation

/-- A path from a cell along what cells read and back to it that passes no cell twice. -/
def IsCycle (cells : Grid) (start : Ref) (path : List Ref) : Prop :=
  ∃ inner, path = start :: inner ++ [start] ∧ (start :: inner).Nodup ∧ path.IsChain cells.Reads

variable {cells : Grid} {start r next : Ref} {rest : List Ref} {path : List Visit} {entered : RefSet}
  {c : Cell}

theorem IsCycle.transGen {found : List Ref} (h : cells.IsCycle start found) :
    TransGen cells.Reads start start := by
  obtain ⟨inner, rfl, -, hchain⟩ := h
  rw [List.isChain_append] at hchain
  obtain ⟨hinner, -, hback⟩ := hchain
  have hlast : (start :: inner).getLast? = some ((start :: inner).getLast (List.cons_ne_nil _ _)) :=
    List.getLast?_eq_some_getLast _
  exact TransGen.tail' (List.relationReflTransGen_of_exists_isChain_cons inner hinner rfl)
    (hback _ hlast start rfl)

/-! ### The course of a search -/

/-- A search that may take as many steps as it likes comes to an end with this answer. -/
inductive Ends (cells : Grid) (start : Ref) : List Visit → RefSet → Option (List Ref) → Prop where
  | done {entered : RefSet} : Ends cells start [] entered none
  | leave {r : Ref} {path : List Visit} {entered : RefSet} {answer : Option (List Ref)}
      (h : Ends cells start path entered answer) : Ends cells start (⟨r, []⟩ :: path) entered answer
  | back {r : Ref} {rest : List Ref} {path : List Visit} {entered : RefSet} :
      Ends cells start (⟨r, start :: rest⟩ :: path) entered
        (some (((⟨r, rest⟩ :: path).map (·.ref)).reverse ++ [start]))
  | skip {r next : Ref} {rest : List Ref} {path : List Visit} {entered : RefSet}
      {answer : Option (List Ref)} (hback : next ≠ start) (hnext : next ∈ cells → next ∈ entered)
      (h : Ends cells start (⟨r, rest⟩ :: path) entered answer) :
      Ends cells start (⟨r, next :: rest⟩ :: path) entered answer
  | enter {r next : Ref} {rest : List Ref} {path : List Visit} {entered : RefSet}
      {answer : Option (List Ref)} {c : Cell} (hback : next ≠ start) (hnew : next ∉ entered)
      (hc : cells[next]? = some c)
      (h : Ends cells start (⟨next, c.dependencies.toList⟩ :: ⟨r, rest⟩ :: path)
        (entered.insert next) answer) :
      Ends cells start (⟨r, next :: rest⟩ :: path) entered answer

/-! ### The current path -/

/-- The cells of a path, the last one first, lead from the start along what they read. None of them
is there twice, and what is still to be followed is read by its cell. -/
structure Trail (cells : Grid) (start : Ref) (path : List Visit) (entered : RefSet) : Prop where
  first : ∀ x ∈ (path.map (·.ref)).getLast?, x = start
  chain : (path.map (·.ref)).IsChain (flip cells.Reads)
  nodup : (path.map (·.ref)).Nodup
  entered : ∀ v ∈ path, v.ref ∈ entered
  rest : ∀ v ∈ path, ∀ d ∈ v.rest, cells.Reads v.ref d

theorem trail_start (hc : cells[start]? = some c) :
    cells.Trail start [⟨start, c.dependencies.toList⟩] {start} := by
  refine ⟨?_, List.isChain_singleton start, List.nodup_singleton start, ?_, ?_⟩
  · intro x hx
    exact (Option.some.inj hx).symm
  · exact List.forall_mem_singleton.mpr (by simp)
  · refine List.forall_mem_singleton.mpr fun d hd => ⟨c, hc, ?_⟩
    exact Std.ExtTreeSet.mem_toList.mp hd

theorem Trail.pop {v : Visit} (h : cells.Trail start (v :: path) entered) :
    cells.Trail start path entered := by
  refine ⟨fun x hx => h.first x ?_, h.chain.tail, (List.nodup_cons.mp h.nodup).2,
    (List.forall_mem_cons.mp h.entered).2, (List.forall_mem_cons.mp h.rest).2⟩
  rw [List.map_cons, List.getLast?_cons, hx]
  rfl

theorem Trail.reads (h : cells.Trail start (⟨r, next :: rest⟩ :: path) entered) :
    cells.Reads r next :=
  h.rest _ List.mem_cons_self next List.mem_cons_self

theorem Trail.skip (h : cells.Trail start (⟨r, next :: rest⟩ :: path) entered) :
    cells.Trail start (⟨r, rest⟩ :: path) entered := by
  obtain ⟨hr, hothers⟩ := List.forall_mem_cons.mp h.entered
  obtain ⟨hrest, hrests⟩ := List.forall_mem_cons.mp h.rest
  refine ⟨h.first, h.chain, h.nodup, List.forall_mem_cons.mpr ⟨hr, hothers⟩,
    List.forall_mem_cons.mpr ⟨fun d hd => ?_, hrests⟩⟩
  exact hrest d (List.mem_cons_of_mem next hd)

theorem Trail.push (h : cells.Trail start (⟨r, next :: rest⟩ :: path) entered)
    (hnew : next ∉ entered) (hc : cells[next]? = some c) :
    cells.Trail start (⟨next, c.dependencies.toList⟩ :: ⟨r, rest⟩ :: path) (entered.insert next) := by
  have hskip := h.skip
  refine ⟨hskip.first, ?_, ?_, ?_, ?_⟩
  · exact List.isChain_cons_cons.mpr ⟨h.reads, hskip.chain⟩
  · refine List.nodup_cons.mpr ⟨fun hmem => hnew ?_, hskip.nodup⟩
    obtain ⟨v, hv, rfl⟩ := List.mem_map.mp hmem
    exact hskip.entered v hv
  · refine List.forall_mem_cons.mpr ⟨Std.ExtTreeSet.mem_insert_self, fun v hv => ?_⟩
    exact Std.ExtTreeSet.mem_insert.mpr (Or.inr (hskip.entered v hv))
  · refine List.forall_mem_cons.mpr ⟨fun d hd => ⟨c, hc, ?_⟩, hskip.rest⟩
    exact Std.ExtTreeSet.mem_toList.mp hd

/-- A path that comes back to the start is a cycle. -/
theorem Trail.isCycle (h : cells.Trail start (⟨r, start :: rest⟩ :: path) entered) :
    cells.IsCycle start (((⟨r, rest⟩ :: path).map (·.ref)).reverse ++ [start]) := by
  have hskip := h.skip
  obtain ⟨inner, hinner⟩ : ∃ inner, ((⟨r, rest⟩ :: path).map (·.ref)).reverse = start :: inner := by
    have hlast := List.getLast?_eq_some_getLast (List.cons_ne_nil r (path.map (·.ref)))
    obtain ⟨inner, hinner⟩ := List.getLast?_eq_some_iff.mp (hskip.first _ hlast ▸ hlast)
    refine ⟨inner.reverse, ?_⟩
    rw [List.map_cons, hinner, List.reverse_concat]
  refine ⟨inner, by rw [hinner], hinner ▸ List.nodup_reverse.mpr hskip.nodup, ?_⟩
  rw [← List.reverse_cons, List.isChain_reverse]
  exact List.isChain_cons_cons.mpr ⟨h.reads, hskip.chain⟩

theorem Ends.isCycle {found : List Ref} (h : cells.Ends start path entered (some found))
    (htrail : cells.Trail start path entered) : cells.IsCycle start found := by
  generalize hanswer : some found = answer at h
  induction h with
  | done => cases hanswer
  | leave _ ih => exact ih htrail.pop hanswer
  | back =>
    obtain rfl := Option.some.inj hanswer
    exact htrail.isCycle
  | skip _ _ _ ih => exact ih htrail.skip hanswer
  | enter _ hnew hc _ ih => exact ih (htrail.push hnew hc) hanswer

/-! ### What was entered -/

/-- What an entered cell reads is not the start, and is entered if it is stored, unless it is still to
be followed. -/
def Covers (cells : Grid) (start : Ref) (path : List Visit) (entered : RefSet) : Prop :=
  ∀ x ∈ entered, ∀ d, cells.Reads x d →
    (d ≠ start ∧ (d ∈ cells → d ∈ entered)) ∨ ∃ v ∈ path, v.ref = x ∧ d ∈ v.rest

theorem covers_start (hc : cells[start]? = some c) :
    cells.Covers start [⟨start, c.dependencies.toList⟩] {start} := by
  intro x hx d hd
  obtain rfl : start = x := by simpa using hx
  refine Or.inr ⟨_, List.mem_cons_self, rfl, ?_⟩
  exact Std.ExtTreeSet.mem_toList.mpr ((reads_iff_of_some hc).mp hd)

theorem Covers.pop (h : cells.Covers start (⟨r, []⟩ :: path) entered) :
    cells.Covers start path entered := by
  intro x hx d hd
  refine (h x hx d hd).imp_right fun hleft => ?_
  obtain ⟨v, hv, hvx, hdv⟩ := hleft
  rcases List.mem_cons.mp hv with rfl | hv
  · cases hdv
  · exact ⟨v, hv, hvx, hdv⟩

theorem Covers.skip (h : cells.Covers start (⟨r, next :: rest⟩ :: path) entered)
    (hback : next ≠ start) (hnext : next ∈ cells → next ∈ entered) :
    cells.Covers start (⟨r, rest⟩ :: path) entered := by
  intro x hx d hd
  by_cases hdn : d = next
  · subst hdn
    exact Or.inl ⟨hback, hnext⟩
  · refine (h x hx d hd).imp_right fun hleft => ?_
    obtain ⟨v, hv, hvx, hdv⟩ := hleft
    rcases List.mem_cons.mp hv with rfl | hv
    · exact ⟨_, List.mem_cons_self, hvx, (List.mem_cons.mp hdv).resolve_left hdn⟩
    · exact ⟨v, List.mem_cons_of_mem _ hv, hvx, hdv⟩

theorem Covers.push (h : cells.Covers start (⟨r, next :: rest⟩ :: path) entered)
    (hback : next ≠ start) (hc : cells[next]? = some c) :
    cells.Covers start (⟨next, c.dependencies.toList⟩ :: ⟨r, rest⟩ :: path) (entered.insert next) := by
  have hinsert : ∀ x, x ∈ entered.insert next ↔ next = x ∨ x ∈ entered := by
    simp
  intro x hx d hd
  rcases (hinsert x).mp hx with rfl | hx
  · refine Or.inr ⟨_, List.mem_cons_self, rfl, ?_⟩
    exact Std.ExtTreeSet.mem_toList.mpr ((reads_iff_of_some hc).mp hd)
  · by_cases hdn : d = next
    · exact Or.inl ⟨hdn ▸ hback, fun _ => (hinsert d).mpr (Or.inl hdn.symm)⟩
    · rcases h x hx d hd with ⟨hne, hmem⟩ | ⟨v, hv, hvx, hdv⟩
      · exact Or.inl ⟨hne, fun hstored => (hinsert d).mpr (Or.inr (hmem hstored))⟩
      · refine Or.inr ?_
        rcases List.mem_cons.mp hv with rfl | hv
        · have hdr := (List.mem_cons.mp hdv).resolve_left hdn
          exact ⟨_, List.mem_cons_of_mem _ List.mem_cons_self, hvx, hdr⟩
        · exact ⟨v, List.mem_cons_of_mem _ (List.mem_cons_of_mem _ hv), hvx, hdv⟩

/-- When nothing is left to follow, no entered start lies on a cycle. -/
theorem Covers.not_transGen (h : cells.Covers start [] entered) (hstart : start ∈ entered) :
    ¬ TransGen cells.Reads start start := by
  have hnext : ∀ x ∈ entered, ∀ d, cells.Reads x d → d ≠ start ∧ (d ∈ cells → d ∈ entered) := by
    intro x hx d hd
    refine (h x hx d hd).resolve_right fun hleft => ?_
    obtain ⟨v, hv, -⟩ := hleft
    cases hv
  have hwalk : ∀ y, ReflTransGen cells.Reads start y → y ∈ cells → y ∈ entered := by
    intro y hy
    induction hy with
    | refl => exact fun _ => hstart
    | tail _ hreads ih => exact (hnext _ (ih hreads.mem) _ hreads).2
  intro hcycle
  obtain ⟨y, hy, hreads⟩ := TransGen.tail'_iff.mp hcycle
  exact (hnext y (hwalk y hy hreads.mem) start hreads).1 rfl

/-- A search that finds nothing has entered all that it could, and covers it. -/
theorem Ends.exists_covers (h : cells.Ends start path entered none)
    (hcovers : cells.Covers start path entered) :
    ∃ final, (∀ x ∈ entered, x ∈ final) ∧ cells.Covers start [] final := by
  generalize hanswer : none = answer at h
  induction h with
  | done => exact ⟨_, fun _ hx => hx, hcovers⟩
  | leave _ ih => exact ih hcovers.pop hanswer
  | back => cases hanswer
  | skip hback hnext _ ih => exact ih (hcovers.skip hback hnext) hanswer
  | enter hback _ hc _ ih =>
    obtain ⟨final, hfinal, hfinished⟩ := ih (hcovers.push hback hc) hanswer
    exact ⟨final, fun x hx => hfinal x (Std.ExtTreeSet.mem_insert.mpr (Or.inr hx)), hfinished⟩

/-! ### The number of steps -/

/-- The steps that go to stored cells which are not entered yet. -/
def unentered (cells : Grid) (entered : RefSet) : Nat :=
  ((cells.toList.filter fun e => e.1 ∉ entered).map fun e => e.2.dependencies.size + 1).sum

/-- The steps that are still to be done. -/
def work (cells : Grid) (path : List Visit) (entered : RefSet) : Nat :=
  (path.map fun v => v.rest.length + 1).sum + cells.unentered entered

theorem unentered_eq_insert (hc : cells[next]? = some c) (hnew : next ∉ entered) :
    cells.unentered entered = cells.unentered (entered.insert next) + (c.dependencies.size + 1) := by
  obtain ⟨before, after, hlist⟩ :=
    List.append_of_mem (Std.ExtTreeMap.mem_toList_iff_getElem?_eq_some.mpr hc)
  have hdistinct := cells.distinct_keys_toList
  rw [hlist, List.pairwise_append, List.pairwise_cons] at hdistinct
  obtain ⟨-, ⟨hafter, -⟩, hbefore⟩ := hdistinct
  have hsame : ∀ l : List (Ref × Cell), (∀ e ∈ l, e.1 ≠ next) →
      l.filter (fun e => e.1 ∉ entered) = l.filter fun e => e.1 ∉ entered.insert next := by
    intro l hl
    apply List.filter_congr
    intro e he
    simp [(hl e he).symm]
  have hfilter : cells.toList.filter (fun e => e.1 ∉ entered) =
      before.filter (fun e => e.1 ∉ entered.insert next) ++
        (next, c) :: after.filter fun e => e.1 ∉ entered.insert next := by
    rw [hlist, List.filter_append, List.filter_cons_of_pos (by simpa using hnew), hsame before,
      hsame after]
    · exact fun e he heq => hafter e he (by simp [heq])
    · exact fun e he heq => hbefore e he _ List.mem_cons_self (by simp [heq])
  have hfilter' : cells.toList.filter (fun e => e.1 ∉ entered.insert next) =
      before.filter (fun e => e.1 ∉ entered.insert next) ++
        after.filter fun e => e.1 ∉ entered.insert next := by
    rw [hlist, List.filter_append, List.filter_cons_of_neg (by simp)]
  rw [unentered, unentered, hfilter, hfilter']
  simp only [List.map_append, List.map_cons, List.sum_append, List.sum_cons]
  omega

/-- The search ends by itself when it may take more steps than there is work. -/
theorem ends_search {steps : Nat} (hwork : cells.work path entered < steps) :
    cells.Ends start path entered (cells.search start steps path entered) := by
  fun_induction search cells start steps path entered with
  | case1 => exact absurd hwork (Nat.not_lt_zero _)
  | case2 => exact .done
  | case3 steps r path entered ih =>
    refine .leave (ih ?_)
    simp only [work, List.map_cons, List.sum_cons, List.length_nil] at hwork ⊢
    omega
  | case4 => exact .back
  | case5 steps r next rest path entered shorter hback hentered ih =>
    refine .skip hback (fun _ => Std.ExtTreeSet.contains_iff_mem.mp hentered) (ih ?_)
    simp only [work, shorter, List.map_cons, List.sum_cons, List.length_cons] at hwork ⊢
    omega
  | case6 steps r next rest path entered shorter hback hentered hmissing ih =>
    refine .skip hback (fun hstored => ?_) (ih ?_)
    · obtain ⟨c, hc⟩ := exists_of_mem hstored
      cases hmissing.symm.trans hc
    · simp only [work, shorter, List.map_cons, List.sum_cons, List.length_cons] at hwork ⊢
      omega
  | case7 steps r next rest path entered shorter hback hentered c hc ih =>
    have hnew : next ∉ entered := mt Std.ExtTreeSet.contains_iff_mem.mpr hentered
    have hless := unentered_eq_insert hc hnew
    refine .enter hback hnew hc (ih ?_)
    simp only [work, shorter, List.map_cons, List.sum_cons, List.length_cons,
      Std.ExtTreeSet.length_toList] at hwork ⊢
    omega

theorem searchSteps_eq (cells : Grid) : cells.searchSteps = cells.unentered ∅ + 1 := by
  have hsteps : cells.searchSteps =
      cells.toList.foldl (fun n e => n + e.2.dependencies.size + 1) 1 := rfl
  have hfold : ∀ (l : List (Ref × Cell)) (n : Nat),
      l.foldl (fun n e => n + e.2.dependencies.size + 1) n =
        (l.map fun e => e.2.dependencies.size + 1).sum + n := by
    intro l
    induction l with
    | nil => simp
    | cons e rest ih =>
      intro n
      rw [List.foldl_cons, ih, List.map_cons, List.sum_cons]
      omega
  rw [hsteps, hfold, unentered, List.filter_eq_self.mpr (by simp)]

/-! ### The search from a cell -/

theorem ends_findCycle (hc : cells[start]? = some c) :
    cells.Ends start [⟨start, c.dependencies.toList⟩] {start} (cells.findCycle start) := by
  have hless : cells.unentered ∅ = cells.unentered {start} + (c.dependencies.size + 1) :=
    unentered_eq_insert hc Std.ExtTreeSet.not_mem_empty
  rw [findCycle, hc, Option.bind_some]
  apply ends_search
  rw [searchSteps_eq, work, hless]
  simp only [List.map_cons, List.map_nil, List.sum_cons, List.sum_nil, Std.ExtTreeSet.length_toList]
  omega

theorem isCycle_of_findCycle {found : List Ref} (h : cells.findCycle start = some found) :
    cells.IsCycle start found := by
  obtain ⟨c, hc, -⟩ := Option.bind_eq_some_iff.mp h
  have hends := ends_findCycle hc
  rw [h] at hends
  exact hends.isCycle (trail_start hc)

theorem isSome_findCycle_iff : (cells.findCycle start).isSome ↔ TransGen cells.Reads start start := by
  constructor
  · intro hsome
    obtain ⟨found, hfound⟩ := Option.isSome_iff_exists.mp hsome
    exact (isCycle_of_findCycle hfound).transGen
  · intro hcycle
    obtain ⟨y, hreads, -⟩ := TransGen.head'_iff.mp hcycle
    obtain ⟨c, hc, -⟩ := hreads
    by_contra hnone
    have hends := ends_findCycle hc
    rw [Option.not_isSome_iff_eq_none.mp hnone] at hends
    obtain ⟨final, hfinal, hcovers⟩ := hends.exists_covers (covers_start hc)
    exact hcovers.not_transGen (hfinal start (by simp)) hcycle

/-- The search for a cycle comes to an end in every grid. It gives a path exactly for a cell from
which a walk along what stored cells read leads back to it, and the path is such a walk, on which no
other cell occurs twice. -/
theorem findCycle_sound_complete (cells : Grid) (start : Ref) :
    (∀ c, cells[start]? = some c →
      cells.Ends start [⟨start, c.dependencies.toList⟩] {start} (cells.findCycle start)) ∧
    ((∃ path, cells.findCycle start = some path) ↔ TransGen cells.Reads start start) ∧
    ∀ path, cells.findCycle start = some path → 2 ≤ path.length ∧ path.head? = some start ∧
      path.getLast? = some start ∧ path.IsChain cells.Reads ∧ ∀ x ≠ start, path.count x ≤ 1 := by
  refine ⟨fun c hc => ends_findCycle hc, ?_, fun path hpath => ?_⟩
  · rw [← Option.isSome_iff_exists, isSome_findCycle_iff]
  · obtain ⟨inner, rfl, hnodup, hchain⟩ := isCycle_of_findCycle hpath
    refine ⟨by simp, rfl, List.getLast?_concat, hchain, fun x hx => ?_⟩
    rw [List.count_append, List.count_singleton, if_neg (by simpa using hx.symm), Nat.add_zero]
    exact List.nodup_iff_count_le_one.mp hnodup x

end Spreadsheet.Grid
