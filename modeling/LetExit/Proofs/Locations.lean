import Mathlib.Data.List.GetD
import Mathlib.Order.Monotone.Basic
import LetExit.Source
import LetExit.Proofs.CleanPaths

/-!
# Lines and columns

A text is cut into lines at its newlines. The newline that ends a line, or the
end of the text, is the column behind the last byte of the line. So every
offset of a text stands in one column of one line, and lines and columns are
ordered as the offsets are.
-/

set_option autoImplicit false

namespace LetExit

open Bytes

theorem Bytes.flatMap_split (separator : UInt8) (bs : Bytes) :
    (split separator bs).flatMap (· ++ [separator]) = bs ++ [separator] := by
  induction bs with
  | nil => rfl
  | cons b bs ih =>
    rw [split]
    cases hsplit : split separator bs with
    | nil => exact absurd hsplit (split_ne_nil separator bs)
    | cons field fields =>
      rw [hsplit] at ih
      dsimp only
      by_cases hb : b = separator
      · rw [if_pos hb, List.flatMap_cons, ih, hb]
        rfl
      · rw [if_neg hb, List.flatMap_cons, List.cons_append, List.cons_append, List.cons_append, ← ih,
          List.flatMap_cons]

def Location.Before (l l' : Location) : Prop :=
  l.line < l'.line ∨ l.line = l'.line ∧ l.column < l'.column

theorem Location.before_trichotomy (l l' : Location) : l.Before l' ∨ l = l' ∨ l'.Before l := by
  obtain ⟨line, column⟩ := l
  obtain ⟨line', column'⟩ := l'
  simp only [Before, mk.injEq]
  omega

namespace Source

def lines (text : Bytes) : List Bytes := split newline text

/-- The offset at which a line starts: the lines before it, each with its newline, are so long. -/
def lineStart (text : Bytes) (line : Nat) : Nat :=
  (((lines text).take (line - 1)).flatMap (· ++ [newline])).length

def offsetOf (text : Bytes) (l : Location) : Nat := lineStart text l.line + l.column - 1

/-- The locations of a text: a line of it, and a column up to the one behind the line. -/
structure HasLocation (text : Bytes) (l : Location) : Prop where
  line_pos : 1 ≤ l.line
  line_le : l.line ≤ (lines text).length
  column_pos : 1 ≤ l.column
  column_le : l.column ≤ ((lines text).getD (l.line - 1) []).length + 1

theorem take_eq_lines (text : Bytes) (pos : Nat) :
    ∃ above before behind below, lines text = above ++ (before ++ behind) :: below ∧
      text.take pos = above.flatMap (· ++ [newline]) ++ before := by
  induction text generalizing pos with
  | nil => exact ⟨[], [], [], [], rfl, List.take_nil⟩
  | cons b text ih =>
    cases pos with
    | zero =>
      cases hlines : lines (b :: text) with
      | nil => exact absurd hlines (split_ne_nil _ _)
      | cons line below => exact ⟨[], [], line, below, rfl, rfl⟩
    | succ pos =>
      obtain ⟨above, before, behind, below, hlines, htake⟩ := ih pos
      rw [List.take_succ_cons, htake, lines, split, ← lines, hlines]
      -- a newline starts another line, and any other byte belongs to the first one
      cases above with
      | nil =>
        by_cases hb : b = newline
        · exact ⟨[[]], before, behind, below, by simp [hb], by simp [hb]⟩
        · exact ⟨[], b :: before, behind, below, by simp [hb], by simp⟩
      | cons line above =>
        by_cases hb : b = newline
        · exact ⟨[] :: line :: above, before, behind, below, by simp [hb], by simp [hb]⟩
        · exact ⟨(b :: line) :: above, before, behind, below, by simp [hb], by simp⟩

theorem count_newline_flatMap {above : List Bytes} (h : ∀ line ∈ above, newline ∉ line) :
    (above.flatMap (· ++ [newline])).count newline = above.length := by
  induction above with
  | nil => rfl
  | cons line above ih =>
    have hline : line.count newline = 0 := List.count_eq_zero.2 (h line (by simp))
    rw [List.flatMap_cons, List.count_append, List.count_append, hline,
      ih fun l hl => h l (by simp [hl])]
    simp [Nat.add_comm]

theorem takeWhile_reverse_lines {above : List Bytes} {before : Bytes} (h : newline ∉ before) :
    (above.flatMap (· ++ [newline]) ++ before).reverse.takeWhile (· != newline) =
      before.reverse := by
  have hbefore : ∀ b ∈ before.reverse, (b != newline) = true := by
    intro b hb
    have hne : b ≠ newline := fun e => h (e ▸ List.mem_reverse.1 hb)
    simpa using hne
  rw [List.reverse_append, List.takeWhile_append_of_pos hbefore]
  rcases List.eq_nil_or_concat above with rfl | ⟨above, line, rfl⟩
  · simp
  · simp [List.flatMap_append]

/-- A located offset: the line is counted by the whole lines before it, and the column by the
bytes of the line before it. -/
theorem exists_locate_eq (text : Bytes) (pos : Nat) :
    ∃ above before behind below, lines text = above ++ (before ++ behind) :: below ∧
      text.take pos = above.flatMap (· ++ [newline]) ++ before ∧ newline ∉ before ∧
      locate text pos = ⟨above.length + 1, before.length + 1⟩ := by
  obtain ⟨above, before, behind, below, hlines, htake⟩ := take_eq_lines text pos
  have hfree : ∀ line ∈ lines text, newline ∉ line := fun line => not_mem_of_mem_split
  rw [hlines] at hfree
  have hbefore : newline ∉ before := fun hmem =>
    hfree (before ++ behind) (by simp) (List.mem_append_left _ hmem)
  refine ⟨above, before, behind, below, hlines, htake, hbefore, ?_⟩
  have hcount : (text.take pos).count newline = above.length := by
    rw [htake, List.count_append, count_newline_flatMap fun l hl => hfree l (by simp [hl]),
      List.count_eq_zero.2 hbefore, Nat.add_zero]
  have hcolumn : ((text.take pos).reverse.takeWhile (· != newline)).length = before.length := by
    rw [htake, takeWhile_reverse_lines hbefore, List.length_reverse]
  rw [locate]
  simp only [hcount, hcolumn, Nat.add_comm]

theorem lineStart_of_lines {text : Bytes} {above below : List Bytes}
    (h : lines text = above ++ below) :
    lineStart text (above.length + 1) = (above.flatMap (· ++ [newline])).length := by
  rw [lineStart, h, Nat.add_sub_cancel, List.take_left]

theorem lineStart_succ {text : Bytes} {line : Nat} (hpos : 1 ≤ line)
    (hle : line ≤ (lines text).length) :
    lineStart text (line + 1) =
      lineStart text line + ((lines text).getD (line - 1) []).length + 1 := by
  obtain ⟨n, rfl⟩ : ∃ n, line = n + 1 := ⟨line - 1, by omega⟩
  have hn : n < (lines text).length := hle
  simp only [lineStart, Nat.add_sub_cancel]
  rw [List.take_succ_eq_append_getElem hn, List.getD_eq_getElem _ _ hn, List.flatMap_append,
    List.flatMap_singleton, List.length_append, List.length_append, Nat.add_assoc]
  rfl

theorem lineStart_mono (text : Bytes) : Monotone (lineStart text) := by
  apply monotone_nat_of_le_succ
  intro line
  cases line with
  | zero => exact Nat.le_refl _
  | succ n =>
    simp only [lineStart, Nat.add_sub_cancel, List.take_add_one, List.flatMap_append,
      List.length_append]
    exact Nat.le_add_right _ _

theorem lineStart_end (text : Bytes) :
    lineStart text ((lines text).length + 1) = text.length + 1 := by
  rw [lineStart, Nat.add_sub_cancel, List.take_length, lines, flatMap_split, List.length_append]
  rfl

theorem hasLocation_locate (text : Bytes) (pos : Nat) : HasLocation text (locate text pos) := by
  obtain ⟨above, before, behind, below, hlines, -, -, hlocate⟩ := exists_locate_eq text pos
  rw [hlocate]
  constructor
  · exact Nat.le_add_left 1 _
  · simp [hlines]
  · exact Nat.le_add_left 1 _
  · simp [hlines]

theorem offsetOf_locate (text : Bytes) (pos : Nat) :
    offsetOf text (locate text pos) = min pos text.length := by
  obtain ⟨above, before, behind, below, hlines, htake, -, hlocate⟩ := exists_locate_eq text pos
  calc offsetOf text (locate text pos)
      = (above.flatMap (· ++ [newline])).length + before.length := by
        rw [hlocate, offsetOf, lineStart_of_lines hlines]
        rfl
    _ = (text.take pos).length := by rw [htake, List.length_append]
    _ = min pos text.length := List.length_take

theorem newline_not_mem_of_locate (text : Bytes) (pos : Nat) :
    newline ∉ (text.take (min pos text.length)).drop (lineStart text (locate text pos).line) := by
  obtain ⟨above, before, behind, below, hlines, htake, hbefore, hlocate⟩ :=
    exists_locate_eq text pos
  rw [hlocate, lineStart_of_lines hlines, ← List.take_eq_take_min, htake, List.drop_left]
  exact hbefore

variable {text : Bytes} {l l' : Location}

theorem HasLocation.offsetOf_lt (h : HasLocation text l) :
    offsetOf text l < lineStart text (l.line + 1) := by
  have hstart := lineStart_succ h.line_pos h.line_le
  have hcolumn := h.column_le
  have hpos := h.column_pos
  rw [offsetOf]
  omega

theorem HasLocation.offsetOf_le (h : HasLocation text l) : offsetOf text l ≤ text.length := by
  have hend : lineStart text (l.line + 1) ≤ text.length + 1 :=
    lineStart_end text ▸ lineStart_mono text (Nat.succ_le_succ h.line_le)
  exact Nat.lt_succ_iff.1 (Nat.lt_of_lt_of_le h.offsetOf_lt hend)

theorem HasLocation.offsetOf_lt_of_before (h : HasLocation text l) (h' : HasLocation text l')
    (hbefore : l.Before l') : offsetOf text l < offsetOf text l' := by
  have hpos := h.column_pos
  have hpos' := h'.column_pos
  rcases hbefore with hline | ⟨hline, hcolumn⟩
  · have hstart : lineStart text (l.line + 1) ≤ lineStart text l'.line := lineStart_mono text hline
    have hlt := h.offsetOf_lt
    unfold offsetOf at hlt ⊢
    omega
  · rw [offsetOf, offsetOf, hline]
    omega

theorem HasLocation.before_of_lt (h : HasLocation text l) (h' : HasLocation text l')
    (hlt : offsetOf text l < offsetOf text l') : l.Before l' := by
  rcases l.before_trichotomy l' with hbefore | rfl | hafter
  · exact hbefore
  · exact absurd hlt (Nat.lt_irrefl _)
  · exact absurd (h'.offsetOf_lt_of_before h hafter) (Nat.lt_asymm hlt)

theorem HasLocation.eq_of_offsetOf_eq (h : HasLocation text l) (h' : HasLocation text l')
    (heq : offsetOf text l = offsetOf text l') : l = l' := by
  rcases l.before_trichotomy l' with hbefore | rfl | hafter
  · exact absurd heq (Nat.ne_of_lt (h.offsetOf_lt_of_before h' hbefore))
  · rfl
  · exact absurd heq.symm (Nat.ne_of_lt (h'.offsetOf_lt_of_before h hafter))

theorem HasLocation.locate_offsetOf (h : HasLocation text l) :
    locate text (offsetOf text l) = l := by
  apply (hasLocation_locate text _).eq_of_offsetOf_eq h
  rw [offsetOf_locate, Nat.min_eq_left h.offsetOf_le]

/-- Within a text, offsets and locations stand for each other in the same order. -/
theorem lines_and_columns_are_coordinates (text : Bytes) :
    (∀ pos : Nat, locate? text pos = .ok (locate text pos) ∧
      1 ≤ (locate text pos).line ∧ (locate text pos).line ≤ (lines text).length ∧
      1 ≤ (locate text pos).column ∧
      lineStart text (locate text pos).line + (locate text pos).column - 1 =
        min pos text.length ∧
      newline ∉ (text.take (min pos text.length)).drop (lineStart text (locate text pos).line)) ∧
    (∀ p q, p ≤ text.length → q ≤ text.length → locate text p = locate text q → p = q) ∧
    (∀ p q, p < q → q ≤ text.length → (locate text p).Before (locate text q)) ∧
    (∀ l, (∃ pos, pos ≤ text.length ∧ locate text pos = l) ↔ HasLocation text l) := by
  have hoffset : ∀ p, p ≤ text.length → offsetOf text (locate text p) = p := fun p hp => by
    rw [offsetOf_locate, Nat.min_eq_left hp]
  refine ⟨fun pos => ?_, fun p q hp hq heq => ?_, fun p q hlt hq => ?_, fun l => ?_⟩
  · have hat := hasLocation_locate text pos
    exact ⟨rfl, hat.line_pos, hat.line_le, hat.column_pos, offsetOf_locate text pos,
      newline_not_mem_of_locate text pos⟩
  · rw [← hoffset p hp, heq, hoffset q hq]
  · apply (hasLocation_locate text p).before_of_lt (hasLocation_locate text q)
    rw [hoffset p (by omega), hoffset q hq]
    exact hlt
  · constructor
    · rintro ⟨pos, -, rfl⟩
      exact hasLocation_locate text pos
    · intro hl
      exact ⟨offsetOf text l, hl.offsetOf_le, hl.locate_offsetOf⟩

theorem empty_line_has_one_column :
    locate (utf8 "ab\n\ncd") 2 ≠ locate (utf8 "ab\n\ncd") 3 ∧
    (locate (utf8 "ab\n\ncd") 2).Before (locate (utf8 "ab\n\ncd") 3) ∧
    (∃ pos, pos ≤ (utf8 "ab\n\ncd").length ∧ locate (utf8 "ab\n\ncd") pos = ⟨2, 1⟩) ∧
    (¬∃ pos, pos ≤ (utf8 "ab\n\ncd").length ∧ locate (utf8 "ab\n\ncd") pos = ⟨2, 2⟩) ∧
    (∃ pos, pos ≤ (utf8 "ab\n\ncd").length ∧ locate (utf8 "ab\n\ncd") pos = ⟨3, 3⟩) := by
  obtain ⟨-, hinjective, hbefore, himage⟩ := lines_and_columns_are_coordinates (utf8 "ab\n\ncd")
  refine ⟨fun h => ?_, hbefore 2 3 (by decide) (by decide), (himage _).2 ?_, fun h => ?_,
    (himage _).2 ?_⟩
  · exact absurd (hinjective 2 3 (by decide) (by decide) h) (by decide)
  · exact ⟨by decide, by decide, by decide, by decide⟩
  · exact absurd ((himage _).1 h).column_le (by decide)
  · exact ⟨by decide, by decide, by decide, by decide⟩

end Source

end LetExit
