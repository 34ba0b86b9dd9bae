import FlowExpr.Cursor
import FlowExpr.Proofs.Text.Lines
import FlowExpr.Proofs.Text.Trim

/-!
# Carets round trip

A place of a document is shown by its line and column, and a place that is given by line and
column is looked up again. The two agree at every place of every text, through the printed form
too:

* `Numeral.natural?_toDigits`: a number is read back from its digits;
* `Document.cursor?_ofText`: a line and a column with a colon between them are read back;
* `position_roundTrip`: the whole correspondence of offsets with lines and columns.
-/

namespace FlowExpr

open Text (byteLength splitBytes?)

/-! ## 1. Numbers are read back -/

namespace Text

theorem isBlank_of_isDigit {c : Char} (h : isDigit c = true) : isBlank c = false := by
  have hrange : 48 ≤ c.toNat ∧ c.toNat ≤ 57 := by
    simpa [isDigit, Char.le_def, UInt32.le_iff_toNat_le] using h
  exact isBlank_of_graphic (by omega) (by omega)

theorem dropWhile_isBlank {cs : List Char} (h : ∀ c ∈ cs, isBlank c = false) :
    cs.dropWhile isBlank = cs := by
  cases cs with
  | nil => rfl
  | cons c cs => rw [List.dropWhile_cons_of_neg (by simp [h c List.mem_cons_self])]

/-- A text without blanks has none to trim. -/
theorem trim_eq_self {cs : List Char} (h : ∀ c ∈ cs, isBlank c = false) : trim cs = cs := by
  unfold trim trimRight trimLeft
  rw [dropWhile_isBlank h, dropWhile_isBlank fun c hc => h c (List.mem_reverse.mp hc),
    List.reverse_reverse]

end Text

theorem isDigit_of_mem_toDigits {n : Nat} {c : Char} (h : c ∈ Nat.toDigits 10 n) :
    Text.isDigit c = true := Nat.isDigit_of_mem_toDigits (by decide) (by decide) h

namespace Numeral

theorem value_toDigits (n : Nat) : value (Nat.toDigits 10 n) = n := by
  have hvalue : ∀ cs, value cs = Nat.ofDigitChars 10 cs 0 := by
    intro cs
    simp only [value, valueFrom, digitValue, Nat.ofDigitChars_eq_foldl, Nat.mul_comm]
  rw [hvalue, Nat.ofDigitChars_ten_toDigits]

/-- **A number is read back from its digits**, up to the largest that the reader accepts. -/
theorem natural?_toDigits {n largest : Nat} (h : n ≤ largest) :
    natural? largest (Nat.toDigits 10 n) = some n := by
  have hdigits : digits? (Nat.toDigits 10 n) = some n := by
    unfold digits?
    rw [if_pos ⟨Nat.toDigits_ne_nil, List.all_eq_true.mpr fun c => isDigit_of_mem_toDigits⟩,
      value_toDigits]
  unfold natural?
  split
  · rename_i rest hsign
    -- a plus sign is no digit
    have hplus : '+' ∈ Nat.toDigits 10 n := hsign ▸ List.mem_cons_self
    exact absurd (isDigit_of_mem_toDigits hplus) (by decide)
  · rw [hdigits]
    exact if_pos h

end Numeral

/-! ## 2. Carets -/

namespace Cursor

theorem number?_toDigits {n : Nat} (h : n ≤ largest) : number? (Nat.toDigits 10 n) = some n := by
  unfold number?
  rw [Text.trim_eq_self fun c hc => Text.isBlank_of_isDigit (isDigit_of_mem_toDigits hc),
    Numeral.natural?_toDigits h]

theorem parts_toString (line column : Nat) :
    parts (toString line ++ ":" ++ toString column).toList =
      (Nat.toDigits 10 line, some (Nat.toDigits 10 column)) := by
  have htext : (toString line ++ ":" ++ toString column).toList =
      Nat.toDigits 10 line ++ ':' :: Nat.toDigits 10 column := by
    simp [Nat.toString_eq_repr, Nat.toList_repr]
  have hdigits : ∀ c ∈ Nat.toDigits 10 line, decide (c ≠ ':') = true := by
    intro c hc
    refine decide_eq_true ?_
    rintro rfl
    exact absurd (isDigit_of_mem_toDigits hc) (by decide)
  unfold parts
  rw [htext, List.dropWhile_append_of_pos hdigits, List.takeWhile_append_of_pos hdigits]
  simp

end Cursor

/-- A line and a column with a colon between them are read back. -/
theorem Document.cursor?_ofText (text : List Char) {line column : Nat}
    (hline : line ≤ Cursor.largest) (hcolumn : column ≤ Cursor.largest) :
    (ofText text).cursor? (toString line ++ ":" ++ toString column) =
      (Lines.ofText text).offset? line column := by
  unfold cursor?
  rw [Cursor.parts_toString]
  show (Cursor.number? _).bind _ = _
  rw [Cursor.number?_toDigits hline, Cursor.number?_toDigits hcolumn]
  rfl

/-- A cut of a text at an offset. -/
theorem exists_of_isSome_splitBytes? {o : Nat} {text : List Char}
    (h : (splitBytes? o text).isSome = true) :
    ∃ front rest, text = front ++ rest ∧ byteLength front = o := by
  obtain ⟨⟨front, rest⟩, hcut⟩ := Option.isSome_iff_exists.mp h
  exact ⟨front, rest, Text.splitBytes?_eq_some hcut⟩

/-- **Offsets are lines and columns.** At every character of a text, and at its end, line and
    column belong to a line of the text, and their offset is the place again; in a text whose size
    a caret can name, so is the caret printed from them. Line and column grow from place to place.
    And every column of every line is a place, where columns past the end of the line are the end
    of the line. -/
theorem position_roundTrip (text : List Char) :
    (∀ o, (splitBytes? o text).isSome = true →
      let p := (Lines.ofText text).position o
      1 ≤ p.1 ∧ p.1 ≤ (Lines.ofText text).count ∧
        (Lines.ofText text).offset? p.1 p.2 = some o ∧
        (byteLength text < Cursor.largest →
          (Document.ofText text).cursor? (toString p.1 ++ ":" ++ toString p.2) = some o)) ∧
    (∀ o o', (splitBytes? o text).isSome = true → (splitBytes? o' text).isSome = true → o < o' →
      Prod.Lex (· < ·) (· < ·) ((Lines.ofText text).position o)
        ((Lines.ofText text).position o')) ∧
    ∀ line column, 1 ≤ line → line ≤ (Lines.ofText text).count → 1 ≤ column →
      ∃ content o, (Lines.ofText text).line? line = some content ∧
        (Lines.ofText text).offset? line column = some o ∧
        (splitBytes? o text).isSome = true ∧
        (Lines.ofText text).position o = (line, min column (content.length + 1)) := by
  refine ⟨fun o ho => ?_, fun o o' ho ho' hlt => ?_, fun line column hline hcount hcolumn => ?_⟩
  · obtain ⟨front, rest, rfl, rfl⟩ := exists_of_isSome_splitBytes? ho
    obtain ⟨hpos, hcount, hoffset⟩ := Lines.offset?_position front rest
    obtain ⟨hline, hcolumn⟩ := Lines.position_le front rest
    refine ⟨hpos, hcount, hoffset, fun hsize => ?_⟩
    rw [Text.byteLength_append] at hsize
    have hfits : byteLength front + 1 ≤ Cursor.largest := by omega
    rw [Document.cursor?_ofText _ (Nat.le_trans hline hfits) (Nat.le_trans hcolumn hfits), hoffset]
  · obtain ⟨front, rest, rfl, rfl⟩ := exists_of_isSome_splitBytes? ho
    obtain ⟨front', rest', htext, rfl⟩ := exists_of_isSome_splitBytes? ho'
    rcases List.append_eq_append_iff.mp htext with ⟨middle, rfl, rfl⟩ | ⟨middle, rfl, -⟩
    · have hmiddle : middle ≠ [] := by
        rintro rfl
        simp at hlt
      exact Lines.position_lt hmiddle rest'
    · rw [Text.byteLength_append] at hlt
      omega
  · obtain ⟨content, front, rest, hcontent, rfl, hoffset, hposition⟩ :=
      Lines.exists_offset? hline hcount hcolumn
    refine ⟨content, byteLength front, hcontent, hoffset, ?_, hposition⟩
    rw [Text.splitBytes?_append]
    rfl

/-- The text `é\r\nb\n` has three lines, the last one empty. The carriage return is a character of
    the first line, after an `é` of two bytes; the end of the text is the third line; and the ninth
    column of the second line is its end. -/
theorem position_roundTrip_accent :
    let text := ['é', '\r', '\n', 'b', '\n']
    let ls := Lines.ofText text
    (splitBytes? 2 text).isSome = true ∧ byteLength text < Cursor.largest ∧
      (Document.ofText text).cursor? (toString 1 ++ ":" ++ toString 2) = some 2 ∧
      Prod.Lex (· < ·) (· < ·) (ls.position 2) (3, 1) ∧
      (∃ content o, ls.line? 2 = some content ∧ ls.offset? 2 9 = some o ∧
        ls.position o = (2, min 9 (content.length + 1))) ∧ ls.offset? 2 9 = some 5 := by
  intro text ls
  obtain ⟨hplaces, hgrow, hcolumns⟩ := position_roundTrip text
  have hreturn : (splitBytes? 2 text).isSome = true := rfl
  have hend : (splitBytes? 6 text).isSome = true := rfl
  obtain ⟨content, o, hcontent, hoffset, -, hposition⟩ :=
    hcolumns 2 9 (by decide) (by decide) (by decide)
  exact ⟨hreturn, by decide, (hplaces 2 hreturn).2.2.2 (by decide),
    hgrow 2 6 hreturn hend (by decide), ⟨content, o, hcontent, hoffset, hposition⟩, rfl⟩

end FlowExpr
