import Spreadsheet.Proofs.Text

/-!
# Positions in a text

A position counts bytes, and the characters of a formula are ASCII up to where anything is wrong with
it. So there a position counts characters too.
-/

namespace Spreadsheet.Text

/-- The position is a character boundary of the text, with `front` before it and `back` behind it. -/
structure SplitsAt (s : String) (position : Nat) (front back : String) : Prop where
  append_eq : front ++ back = s
  utf8ByteSize_eq : front.utf8ByteSize = position

theorem SplitsAt.position_unique {s front front' back : String} {position position' : Nat}
    (h : SplitsAt s position front back) (h' : SplitsAt s position' front' back) :
    position = position' := by
  have hfront : front.toList = front'.toList := by
    have heq : front.toList ++ back.toList = front'.toList ++ back.toList := by
      rw [← String.toList_append, ← String.toList_append, h.append_eq, h'.append_eq]
    exact List.append_cancel_right heq
  rw [← h.utf8ByteSize_eq, ← h'.utf8ByteSize_eq, String.toList_injective hfront]

/-- A beginning of a text that takes as many bytes is the text. -/
theorem eq_of_toList_eq_append {front front' : String} {more : List Char}
    (h : front'.toList = front.toList ++ more) (hsize : front.utf8ByteSize = front'.utf8ByteSize) :
    front = front' := by
  have heq : front' = front ++ String.ofList more := String.toList_injective (by simp [h])
  rw [heq, String.utf8ByteSize_append] at hsize
  have hzero : (String.ofList more).utf8ByteSize = 0 := by omega
  rw [heq, String.utf8ByteSize_eq_zero_iff.mp hzero, String.append_empty]

theorem SplitsAt.unique {s front front' back back' : String} {position : Nat}
    (h : SplitsAt s position front back) (h' : SplitsAt s position front' back') :
    front = front' ∧ back = back' := by
  have happend : front.toList ++ back.toList = front'.toList ++ back'.toList := by
    rw [← String.toList_append, ← String.toList_append, h.append_eq, h'.append_eq]
  have hsize : front.utf8ByteSize = front'.utf8ByteSize :=
    h.utf8ByteSize_eq.trans h'.utf8ByteSize_eq.symm
  have hfront : front = front' := by
    obtain ⟨more, hmore, -⟩ | ⟨more, hmore, -⟩ := List.append_eq_append_iff.mp happend
    · exact eq_of_toList_eq_append hmore hsize
    · exact (eq_of_toList_eq_append hmore hsize.symm).symm
  rw [hfront] at happend
  exact ⟨hfront, String.toList_injective (List.append_cancel_left happend)⟩

/-- A position in the front of a text is one in the text. -/
theorem SplitsAt.trans {s front back before after : String} {position position' : Nat}
    (h : SplitsAt s position front back) (h' : SplitsAt front position' before after) :
    SplitsAt s position' before (after ++ back) where
  append_eq := by rw [← String.append_assoc, h'.append_eq, h.append_eq]
  utf8ByteSize_eq := h'.utf8ByteSize_eq

/-- Every character takes one byte. -/
def IsAscii (cs : List Char) : Prop := ∀ c ∈ cs, c.utf8Size = 1

theorem isAscii_nil : IsAscii [] := fun _ h => absurd h List.not_mem_nil

theorem isAscii_cons {c : Char} {cs : List Char} :
    IsAscii (c :: cs) ↔ c.utf8Size = 1 ∧ IsAscii cs :=
  List.forall_mem_cons

theorem isAscii_append {as bs : List Char} : IsAscii (as ++ bs) ↔ IsAscii as ∧ IsAscii bs :=
  List.forall_mem_append

theorem utf8ByteSize_ofList {cs : List Char} (h : IsAscii cs) :
    (String.ofList cs).utf8ByteSize = cs.length := by
  induction cs with
  | nil => rfl
  | cons c cs ih =>
    obtain ⟨hc, hcs⟩ := isAscii_cons.mp h
    rw [String.ofList_cons, String.utf8ByteSize_append, String.utf8ByteSize_singleton, hc, ih hcs,
      List.length_cons, Nat.add_comm]

theorem SplitsAt.position_eq_length {s front back : String} {position : Nat}
    (h : SplitsAt s position front back) (hfront : IsAscii front.toList) :
    position = front.toList.length := by
  rw [← h.utf8ByteSize_eq, ← utf8ByteSize_ofList hfront, String.ofList_toList]

theorem splitsAt_of_isAscii {s : String} {front back : List Char} (hs : s.toList = front ++ back)
    (h : IsAscii front) : SplitsAt s front.length (String.ofList front) (String.ofList back) := by
  refine ⟨String.toList_injective ?_, utf8ByteSize_ofList h⟩
  rw [String.toList_append, String.toList_ofList, String.toList_ofList, hs]

theorem utf8Size_of_isDigit {c : Char} (h : c.isDigit) : c.utf8Size = 1 := by
  have hcode := toNat_of_isDigit h
  rw [Char.utf8Size_eq_one_iff, UInt32.le_iff_toNat_le]
  show c.toNat ≤ 127
  omega

theorem utf8Size_of_isAlpha {c : Char} (h : c.isAlpha) : c.utf8Size = 1 := by
  have hcode := toNat_of_isAlpha h
  rw [Char.utf8Size_eq_one_iff, UInt32.le_iff_toNat_le]
  show c.toNat ≤ 127
  omega

end Spreadsheet.Text
