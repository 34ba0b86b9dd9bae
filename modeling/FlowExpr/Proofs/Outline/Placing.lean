import FlowExpr.Proofs.Outline.Bounds

/-!
# Scalars are found where they are spelled

The range of a scalar is looked for on the line of its mark: of the places where its text occurs,
counted from left to right and without overlap, the nearest to the mark is taken. A scalar that
is spelled at its mark is found there, unless a copy of it begins earlier and runs into it. The
line breaks, blanks, brackets and commas that set scalars apart in a document rule such copies
out. On a line of its own a scalar is found on that line in any case:

* `mem_occurrencesFrom`, `partAt_of_mem_occurrencesFrom`: the places where a text is found;
* `nearest_eq_self`: no place is nearer than the one that was asked for;
* `Spelled`: a text stands at its mark, between two offsets;
* `SpelledApart`: and no copy of it gets in its way;
* `SpelledApart.exists_scalarSpan?`: then the range that is found has the length of the text, and
  lies between the offsets.
-/

namespace FlowExpr

open Text (byteLength PartAt)
open Yaml (Mark)

/-! ## 1. Occurrences -/

theorem Text.utf8ByteSize_ofChars (cs : List Char) :
    (String.ofList cs).utf8ByteSize = byteLength cs := by
  induction cs with
  | nil => rfl
  | cons c cs ih =>
    rw [← List.singleton_append, String.ofList_append, String.utf8ByteSize_append, ih,
      byteLength_append, ← String.size_toByteArray, String.toByteArray_ofList,
      List.utf8Encode_singleton, List.size_toByteArray, String.length_utf8EncodeChar]
    rfl

theorem Text.utf8ByteSize_eq (s : String) : s.utf8ByteSize = byteLength s.toList := by
  rw [← Text.utf8ByteSize_ofChars, String.ofList_toList]

/-- A text that begins where no earlier occurrence runs into it is found. The number `taken` of
    characters that belong to an earlier occurrence leaves it untouched. -/
theorem mem_occurrencesFrom {needle front rest : List Char} {taken offset : Nat}
    (hneedle : needle ≠ []) (htaken : taken ≤ front.length)
    (hclear : ∀ i < front.length, needle <+: (front ++ needle ++ rest).drop i →
      i + needle.length ≤ front.length) :
    offset + byteLength front ∈ occurrencesFrom needle taken offset (front ++ needle ++ rest) := by
  induction front generalizing taken offset with
  | nil =>
    obtain rfl : taken = 0 := Nat.eq_zero_of_le_zero htaken
    obtain ⟨c, cs, rfl⟩ := List.exists_cons_of_ne_nil hneedle
    have hfound : (c :: cs).isPrefixOf (c :: (cs ++ rest)) = true :=
      List.isPrefixOf_iff_prefix.mpr (List.prefix_append (c :: cs) rest)
    show offset ∈ occurrencesFrom (c :: cs) 0 offset (c :: (cs ++ rest))
    rw [occurrencesFrom, if_pos hfound]
    exact List.mem_cons_self
  | cons c front ih =>
    have hlater : ∀ i < front.length, needle <+: (front ++ needle ++ rest).drop i →
        i + needle.length ≤ front.length := by
      intro i hi hoccurs
      have hlonger := hclear (i + 1) (Nat.succ_lt_succ hi) hoccurs
      rw [List.length_cons] at hlonger
      omega
    have hplace : offset + byteLength (c :: front) = offset + c.utf8Size + byteLength front := by
      rw [Text.byteLength_cons]
      omega
    rw [hplace, List.cons_append, List.cons_append]
    cases taken with
    | succ taken =>
      rw [occurrencesFrom]
      exact ih (Nat.le_of_succ_le_succ htaken) hlater
    | zero =>
      rw [occurrencesFrom]
      split
      · -- an occurrence that begins here ends before the text does begin
        rename_i hoccurs
        have hends := hclear 0 (Nat.zero_lt_succ _) (List.isPrefixOf_iff_prefix.mp hoccurs)
        have hlength := List.length_pos_iff.mpr hneedle
        rw [List.length_cons] at hends
        exact List.mem_cons_of_mem _ (ih (by omega) hlater)
      · exact ih (Nat.zero_le _) hlater

/-- The copy that begins inside another one is not found. -/
example : occurrencesFrom ['a', 'b', 'a'] 0 0 ['a', 'b', 'a', 'b', 'a'] = [0] := by decide

/-- Where a text is found, it stands. -/
theorem partAt_of_mem_occurrencesFrom {needle line : List Char} {taken offset o : Nat}
    (h : o ∈ occurrencesFrom needle taken offset line) : PartAt offset line o needle := by
  fun_induction occurrencesFrom needle taken offset line with
  | case1 => cases h
  | case2 taken offset c cs ih => exact (ih h).cons c
  | case3 offset c cs hfound ih =>
    rcases List.mem_cons.mp h with rfl | h
    · obtain ⟨rest, hrest⟩ := List.isPrefixOf_iff_prefix.mp hfound
      exact ⟨[], rest, hrest.symm, rfl⟩
    · exact (ih h).cons c
  | case4 offset c cs _ ih => exact (ih h).cons c

/-- The nearest place to one of the places is that place. -/
theorem nearest_eq_self {target best : Nat} {offsets : List Nat} (h : target ∈ best :: offsets) :
    nearest target best offsets = target := by
  have hzero : distance target target = 0 := by simp [distance]
  have hfar : ∀ {o}, o ≠ target → 0 < distance o target := by
    intro o ho
    unfold distance
    omega
  induction offsets generalizing best with
  | nil => exact (List.mem_singleton.mp h).symm
  | cons o rest ih =>
    rw [nearest]
    refine ih ?_
    rcases List.mem_cons.mp h with rfl | h
    · rw [if_neg (by rw [hzero]; exact Nat.not_lt_zero _)]
      exact List.mem_cons_self
    · rcases List.mem_cons.mp h with rfl | h
      · by_cases hbest : best = target
        · subst hbest
          rw [ite_self]
          exact List.mem_cons_self
        · rw [if_pos (by rw [hzero]; exact hfar hbest)]
          exact List.mem_cons_self
      · exact List.mem_cons_of_mem _ h

/-! ## 2. Lines -/

namespace Lines

variable {ls : Lines} {number start : Nat} {line front rest : List Char}

theorem exists_eq_append_line (hstart : ls.start? number = some start)
    (hline : ls.line? number = some line) : ∃ before after, ls.lines = before ++ line :: after ∧
      number = before.length + 1 ∧ start = bytesThrough before := by
  unfold start? at hstart
  split at hstart
  · cases hstart
  · rename_i hvalid
    have hnumber : number ≠ 0 := by
      rintro rfl
      simp at hvalid
    rw [line?, if_neg hnumber] at hline
    obtain ⟨hlength, hget⟩ := List.getElem?_eq_some_iff.mp hline
    refine ⟨ls.lines.take (number - 1), ls.lines.drop (number - 1 + 1), ?_, ?_,
      (Option.some.inj hstart).symm⟩
    · rw [← hget, List.getElem_cons_drop, List.take_append_drop]
    · rw [List.length_take]
      omega

/-- A place on a line has the number of the line, and that line ends where it does. -/
theorem stop?_position (hstart : ls.start? number = some start)
    (hline : ls.line? number = some line) (hfront : line = front ++ rest) :
    ls.stop? (ls.position (start + byteLength front)).1 = some (start + byteLength line) := by
  obtain ⟨before, after, hlines, hnumber, hbytes⟩ := exists_eq_append_line hstart hline
  have hposition : (ls.position (start + byteLength front)).1 = number := by
    rw [position, hlines, hfront, hbytes, positionFrom_append, hnumber, Nat.add_comm]
  rw [hposition, stop?, hstart, hline]
  rfl

theorem offset?_eq (hstart : ls.start? number = some start) (hline : ls.line? number = some line)
    (column : Nat) :
    ls.offset? number (column + 1) = some (start + byteLength (line.take column)) := by
  rw [offset?, hstart, hline]
  rfl

end Lines

/-! ## 3. Spelled scalars -/

/-- The text stands in a column of a line that begins at `start`, after `lo` and before `hi`. -/
structure SpelledOn (lo hi start : Nat) (line : List Char) (column : Nat) (text : List Char) :
    Prop where
  verbatim : text <+: line.drop column
  onLine : column ≤ line.length
  after : lo ≤ start + byteLength (line.take column)
  before : start + byteLength (line.take column) + byteLength text ≤ hi

instance (lo hi start : Nat) (line : List Char) (column : Nat) (text : List Char) :
    Decidable (SpelledOn lo hi start line column text) :=
  decidable_of_iff
    (text <+: line.drop column ∧ column ≤ line.length ∧
      lo ≤ start + byteLength (line.take column) ∧
      start + byteLength (line.take column) + byteLength text ≤ hi)
    ⟨fun ⟨h₁, h₂, h₃, h₄⟩ => ⟨h₁, h₂, h₃, h₄⟩, fun ⟨h₁, h₂, h₃, h₄⟩ => ⟨h₁, h₂, h₃, h₄⟩⟩

/-- No copy of the text that begins earlier on the line runs into the column. Or else the line has
    its place to itself: it begins after `lo` and ends before `hi`. -/
def ApartOn (lo hi start : Nat) (line : List Char) (column : Nat) (text : List Char) : Prop :=
  (∀ i < column, text <+: line.drop i → i + text.length ≤ column) ∨
    lo ≤ start ∧ start + byteLength line ≤ hi

instance (lo hi start : Nat) (line : List Char) (column : Nat) (text : List Char) :
    Decidable (ApartOn lo hi start line column text) := inferInstanceAs (Decidable (_ ∨ _))

/-- A text is spelled at its mark, between two offsets. -/
def Spelled (lines : Lines) (lo hi : Nat) (mark : Option Mark) (text : String) : Prop :=
  ∃ m ∈ mark, ∃ start ∈ lines.start? m.line, ∃ line ∈ lines.line? m.line,
    SpelledOn lo hi start line m.column text.toList

instance (lines : Lines) (lo hi : Nat) (mark : Option Mark) (text : String) :
    Decidable (Spelled lines lo hi mark text) := inferInstanceAs (Decidable (∃ m ∈ mark, _))

/-- A text is spelled at its mark, between two offsets and apart from its copies. -/
def SpelledApart (lines : Lines) (lo hi : Nat) (mark : Option Mark) (text : String) : Prop :=
  ∃ m ∈ mark, ∃ start ∈ lines.start? m.line, ∃ line ∈ lines.line? m.line,
    SpelledOn lo hi start line m.column text.toList ∧
      ApartOn lo hi start line m.column text.toList

instance (lines : Lines) (lo hi : Nat) (mark : Option Mark) (text : String) :
    Decidable (SpelledApart lines lo hi mark text) := inferInstanceAs (Decidable (∃ m ∈ mark, _))

section

variable {lines : Lines} {lo hi : Nat} {text : String}

/-- A scalar that is found on a line has the range of its text. -/
theorem scalarSpan?_of_partAt {mark : Option Mark} {m : Mark} {start o : Nat} {line : List Char}
    (hstart : lines.start? m.line = some start) (hline : lines.line? m.line = some line)
    (hfound : locateText? lines mark text.toList = some o)
    (hpart : PartAt start line o text.toList) :
    scalarSpan? lines mark text = some ⟨o, o + byteLength text.toList⟩ := by
  obtain ⟨front, rest, hsplit, rfl⟩ := hpart
  have hstop := Lines.stop?_position hstart hline (hsplit.trans (List.append_assoc ..))
  have hlength := congrArg byteLength hsplit
  rw [Text.byteLength_append, Text.byteLength_append] at hlength
  unfold scalarSpan?
  rw [hfound]
  show (lines.stop? (lines.position (start + byteLength front)).1).bind _ = _
  rw [hstop, Text.utf8ByteSize_eq]
  have hend : max (min (start + byteLength front + byteLength text.toList)
      (start + byteLength line)) (start + byteLength front) =
      start + byteLength front + byteLength text.toList := by omega
  show some (Span.mk _ _) = _
  rw [hend]

/-- On a line that exists a text is found at one of its places, or else at the mark. -/
theorem locateText?_eq {m : Mark} {start : Nat} {line needle : List Char}
    (hstart : lines.start? m.line = some start) (hline : lines.line? m.line = some line) :
    locateText? lines (some m) needle =
      if needle.isEmpty then some (start + byteLength (line.take m.column))
      else match occurrencesFrom needle 0 start line with
        | [] => some (start + byteLength (line.take m.column))
        | first :: rest => some (nearest (start + byteLength (line.take m.column)) first rest) := by
  unfold locateText?
  show (lines.start? m.line).bind _ = _
  rw [hstart]
  show (lines.line? m.line).bind _ = _
  rw [hline]
  show (lines.offset? m.line (m.column + 1)).bind _ = _
  rw [Lines.offset?_eq hstart hline]
  rfl

/-- A text that stands at its mark is found on that line: at the mark, if that is one of the
    places where it occurs. -/
theorem exists_locateText? {m : Mark} {start : Nat} {line needle : List Char}
    (hstart : lines.start? m.line = some start) (hline : lines.line? m.line = some line)
    (hplace : PartAt start line (start + byteLength (line.take m.column)) needle) :
    ∃ o, locateText? lines (some m) needle = some o ∧ PartAt start line o needle ∧
      ((needle ≠ [] → start + byteLength (line.take m.column) ∈
        occurrencesFrom needle 0 start line) → o = start + byteLength (line.take m.column)) := by
  rw [locateText?_eq hstart hline]
  split
  · exact ⟨_, rfl, hplace, fun _ => rfl⟩
  · rename_i hneedle
    split
    · exact ⟨_, rfl, hplace, fun _ => rfl⟩
    · rename_i first rest hoccurrences
      have hmem := nearest_mem (start + byteLength (line.take m.column)) first rest
      refine ⟨_, rfl, partAt_of_mem_occurrencesFrom (hoccurrences ▸ hmem), fun hoccurs => ?_⟩
      have hself := hoccurs fun hempty => hneedle (List.isEmpty_iff.mpr hempty)
      exact nearest_eq_self (hoccurrences ▸ hself)

/-- **A scalar that is spelled apart from its copies is found between its offsets**, with the
    length of its text. -/
theorem SpelledApart.exists_scalarSpan? {mark : Option Mark}
    (h : SpelledApart lines lo hi mark text) :
    ∃ o, scalarSpan? lines mark text = some ⟨o, o + byteLength text.toList⟩ ∧ lo ≤ o ∧
      o + byteLength text.toList ≤ hi := by
  obtain ⟨m, rfl, start, hstart, line, hline, h, hapart⟩ := h
  obtain ⟨rest, hverbatim⟩ := h.verbatim
  have hsplit : line = line.take m.column ++ text.toList ++ rest := by
    rw [List.append_assoc, hverbatim, List.take_append_drop]
  obtain ⟨o, hfound, hpart, hmark⟩ := exists_locateText? hstart hline
    ⟨line.take m.column, rest, hsplit, rfl⟩
  refine ⟨o, scalarSpan?_of_partAt hstart hline hfound hpart, ?_⟩
  rcases hapart with hclear | ⟨hafter, hbefore⟩
  · -- nothing runs into the text, so it is found at its mark
    have hlength : (line.take m.column).length = m.column :=
      List.length_take_of_le h.onLine
    obtain rfl := hmark fun hnonempty => by
      have hoccurs : start + byteLength (line.take m.column) ∈ occurrencesFrom text.toList 0 start
          (line.take m.column ++ text.toList ++ rest) :=
        mem_occurrencesFrom hnonempty (Nat.zero_le _) (by rwa [hlength, ← hsplit])
      rwa [← hsplit] at hoccurs
    exact ⟨h.after, h.before⟩
  · -- wherever it is found on the line, it lies between the offsets
    obtain ⟨front, later, hparts, rfl⟩ := hpart
    have htotal := congrArg byteLength hparts
    rw [Text.byteLength_append, Text.byteLength_append] at htotal
    omega

end

end FlowExpr
