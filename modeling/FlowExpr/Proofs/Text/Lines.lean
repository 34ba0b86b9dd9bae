import FlowExpr.Proofs.Text
import FlowExpr.Text.Lines

/-!
# Lines, columns and offsets

A line feed ends a line and belongs to none, so a place of a text is a place of exactly one line,
also at the end of a line, in an empty line, and after the last line feed. Line and column of a
place say how many lines the text before it has, and how many characters the last of them:

* `bytesThrough_split`, `line_le`, `offset?_le`: lines end in the text;
* `split_append`: the lines of a text in two parts;
* `position_append`: line and column of the place between the parts;
* `offset?_position`: the offset of that line and column is that of the place;
* `position_lt`: a later place has a greater line, or a greater column in the same line;
* `exists_offset?`: every column of every line is a place.
-/

namespace FlowExpr

open Text (byteLength)

namespace Lines

/-! ## 1. Lines end in the text -/

@[simp] theorem bytesThrough_cons (line : List Char) (rest : List (List Char)) :
    bytesThrough (line :: rest) = byteLength line + 1 + bytesThrough rest := rfl

/-- The lines of a text, each with a line feed, take one byte more than the text. -/
theorem bytesThrough_split (cs : List Char) : bytesThrough (split cs) = byteLength cs + 1 := by
  have hfeed : ('\n' : Char).utf8Size = 1 := rfl
  fun_induction split cs with
  | case1 => rfl
  | case2 cs ih =>
    rw [bytesThrough_cons, ih, Text.byteLength_cons, Text.byteLength_nil, hfeed]
    omega
  | case3 c cs _ hsplit => exact absurd hsplit (split_ne_nil cs)
  | case4 c cs _ line rest hsplit ih =>
    rw [hsplit, bytesThrough_cons] at ih
    rw [bytesThrough_cons, Text.byteLength_cons, Text.byteLength_cons]
    omega

theorem bytesThrough_take {lines : List (List Char)} {i : Nat} {line : List Char}
    (h : lines[i]? = some line) :
    bytesThrough (lines.take i) + byteLength line + 1 ≤ bytesThrough lines := by
  induction lines generalizing i with
  | nil => simp at h
  | cons first rest ih =>
    cases i with
    | zero =>
      obtain rfl : first = line := by simpa using h
      rw [bytesThrough_cons]
      simp only [List.take_zero, bytesThrough, List.foldr_nil]
      omega
    | succ i =>
      have hrest := ih (i := i) (by simpa using h)
      rw [List.take_succ_cons, bytesThrough_cons, bytesThrough_cons]
      omega

variable {text : List Char}

/-- A line ends in the text. -/
theorem line_le {number start : Nat} {line : List Char}
    (hstart : (ofText text).start? number = some start)
    (hline : (ofText text).line? number = some line) :
    start + byteLength line ≤ byteLength text := by
  unfold start? at hstart
  split at hstart
  · cases hstart
  · rename_i hvalid
    obtain rfl := Option.some.inj hstart
    have hnumber : number ≠ 0 := by
      rintro rfl
      simp at hvalid
    rw [line?, if_neg hnumber] at hline
    have hbytes := bytesThrough_take hline
    have htext : bytesThrough (ofText text).lines = byteLength text + 1 := bytesThrough_split text
    omega

theorem stop?_le {number stop : Nat} (h : (ofText text).stop? number = some stop) :
    stop ≤ byteLength text := by
  obtain ⟨start, hstart, h⟩ := Option.bind_eq_some_iff.mp h
  obtain ⟨line, hline, h⟩ := Option.bind_eq_some_iff.mp h
  obtain rfl := Option.some.inj h
  exact line_le hstart hline

theorem offset?_le {number column o : Nat} (h : (ofText text).offset? number column = some o) :
    o ≤ byteLength text := by
  obtain ⟨start, hstart, h⟩ := Option.bind_eq_some_iff.mp h
  obtain ⟨line, hline, h⟩ := Option.bind_eq_some_iff.mp h
  obtain rfl := Option.some.inj h
  have hend := line_le hstart hline
  have hcut := Text.byteLength_le_of_prefix (List.take_prefix (column - 1) line)
  omega

theorem startsFrom_le {lines : List (List Char)} {base o : Nat} {line : List Char}
    (h : (o, line) ∈ startsFrom base lines) :
    o + byteLength line + 1 ≤ base + bytesThrough lines := by
  induction lines generalizing base with
  | nil => cases h
  | cons first rest ih =>
    rw [bytesThrough_cons]
    rcases List.mem_cons.mp h with h | h
    · obtain ⟨rfl, rfl⟩ := Prod.mk.inj h
      omega
    · have hrest := ih h
      omega

theorem withStarts_le {o : Nat} {line : List Char} (h : (o, line) ∈ (ofText text).withStarts) :
    o + byteLength line ≤ byteLength text := by
  have hbytes := startsFrom_le h
  have htext : bytesThrough (ofText text).lines = byteLength text + 1 := bytesThrough_split text
  omega

/-! ## 2. A text in two parts -/

theorem split_feed (cs : List Char) : split ('\n' :: cs) = [] :: split cs := by
  rw [split, if_pos rfl]

theorem split_cons {c : Char} (hc : c ≠ '\n') {cs line : List Char} {rest : List (List Char)}
    (h : split cs = line :: rest) : split (c :: cs) = (c :: line) :: rest := by
  rw [split, if_neg hc, h]

/-- **Lines of a text in two parts**: the last line of the first part and the first line of the
    second are one line of the text. -/
theorem split_append {front rest last first : List Char} {before after : List (List Char)}
    (hfront : split front = before ++ [last]) (hrest : split rest = first :: after) :
    split (front ++ rest) = before ++ (last ++ first) :: after := by
  induction front generalizing before last with
  | nil =>
    cases before with
    | nil =>
      obtain rfl : [] = last := by simpa [split] using hfront
      exact hrest
    | cons line before => simp [split] at hfront
  | cons c front ih =>
    obtain ⟨line, more, hsplit⟩ := List.exists_cons_of_ne_nil (split_ne_nil front)
    by_cases hc : c = '\n'
    · subst hc
      rw [split_feed, hsplit] at hfront
      cases before with
      | nil => simp at hfront
      | cons line' before =>
        obtain ⟨rfl, hmore⟩ := List.cons.inj hfront
        rw [List.cons_append, split_feed, ih (hsplit.trans hmore)]
        rfl
    · rw [split_cons hc hsplit] at hfront
      cases before with
      | nil =>
        obtain ⟨rfl, rfl⟩ := List.cons.inj hfront
        have hrest := @ih line [] hsplit
        exact split_cons hc hrest
      | cons line' before =>
        obtain ⟨rfl, hmore⟩ := List.cons.inj hfront
        subst hmore
        have hrest := @ih last (line :: before) hsplit
        exact split_cons hc hrest

/-- A line in front of a line feed. -/
theorem split_line_append {line rest : List Char} {after : List (List Char)} (hline : '\n' ∉ line)
    (hrest : split rest = [] :: after) : split (line ++ rest) = line :: after := by
  induction line with
  | nil => exact hrest
  | cons c line ih =>
    have hc : c ≠ '\n' := fun e => hline (e ▸ List.mem_cons_self)
    exact split_cons hc (ih fun hmem => hline (List.mem_cons_of_mem _ hmem))

/-- Lines that are written out, each with its line feed, are the first lines of the text. -/
theorem split_flatMap_feed {lines : List (List Char)} (h : ∀ line ∈ lines, '\n' ∉ line)
    (rest : List Char) :
    split (lines.flatMap (· ++ ['\n']) ++ rest) = lines ++ split rest := by
  induction lines with
  | nil => rfl
  | cons line lines ih =>
    obtain ⟨hline, hlines⟩ := List.forall_mem_cons.mp h
    have htext : (line :: lines).flatMap (· ++ ['\n']) ++ rest =
        line ++ '\n' :: (lines.flatMap (· ++ ['\n']) ++ rest) := by simp
    rw [htext, split_line_append hline (split_feed _), ih hlines, List.cons_append]

/-- The lines of a text up to the last, and the last. -/
theorem exists_split_eq (cs : List Char) : ∃ before last, split cs = before ++ [last] :=
  ⟨_, _, (List.dropLast_concat_getLast (split_ne_nil cs)).symm⟩

theorem bytesThrough_append (xs ys : List (List Char)) :
    bytesThrough (xs ++ ys) = bytesThrough xs + bytesThrough ys := by
  induction xs with
  | nil => simp [bytesThrough]
  | cons line xs ih =>
    rw [List.cons_append, bytesThrough_cons, bytesThrough_cons, ih]
    omega

theorem byteLength_of_split {cs last : List Char} {before : List (List Char)}
    (h : split cs = before ++ [last]) : byteLength cs = bytesThrough before + byteLength last := by
  have hbytes := bytesThrough_split cs
  rw [h, bytesThrough_append, bytesThrough_cons] at hbytes
  simp only [bytesThrough, List.foldr_nil] at hbytes ⊢
  omega

theorem split_eq_splitOn (cs : List Char) : split cs = cs.splitOn '\n' := by
  induction cs with
  | nil => rw [split, List.splitOn_nil]
  | cons c cs ih =>
    rw [List.splitOn_cons_eq_if_modifyHead, ← ih]
    by_cases hc : c = '\n'
    · rw [if_pos (beq_iff_eq.mpr hc), hc, split_feed]
    · obtain ⟨line, rest, hsplit⟩ := List.exists_cons_of_ne_nil (split_ne_nil cs)
      rw [if_neg (by simpa using hc), split_cons hc hsplit, hsplit]
      rfl

/-- The lines of a text with line feeds between them are the text. -/
theorem intercalate_split (cs : List Char) : ['\n'].intercalate (split cs) = cs := by
  rw [split_eq_splitOn, List.intercalate_splitOn]

/-- A text begins with its first lines, each with its line feed, and the line after them. -/
theorem exists_eq_append {text line : List Char} {before after : List (List Char)}
    (h : split text = before ++ line :: after) :
    ∃ rest, text = before.flatMap (· ++ ['\n']) ++ line ++ rest := by
  have htext : text = ['\n'].intercalate (before ++ line :: after) := by
    rw [← h, intercalate_split]
  clear h
  induction before generalizing text with
  | nil =>
    cases after with
    | nil => exact ⟨[], by simpa using htext⟩
    | cons next after => exact ⟨_, by simpa [List.intercalate_cons_cons] using htext⟩
  | cons first before ih =>
    obtain ⟨rest, hrest⟩ := ih rfl
    refine ⟨rest, ?_⟩
    rw [htext, List.cons_append, List.intercalate_cons_of_ne_nil (by simp), hrest]
    simp

theorem byteLength_flatMap_feed (lines : List (List Char)) :
    byteLength (lines.flatMap (· ++ ['\n'])) = bytesThrough lines := by
  induction lines with
  | nil => rfl
  | cons line lines ih =>
    rw [List.flatMap_cons, Text.byteLength_append, ih, Text.byteLength_append]
    rfl

/-! ## 3. Line and column of a place -/

theorem column_append (last first : List Char) :
    column (last ++ first) (byteLength last) = last.length + 1 := by
  rw [column, Text.splitBytes?_append]

/-- A place in the line that follows some lines. -/
theorem positionFrom_append (number : Nat) (before after : List (List Char))
    (last first : List Char) :
    positionFrom number (before ++ (last ++ first) :: after)
        (bytesThrough before + byteLength last) =
      (number + before.length, last.length + 1) := by
  induction before generalizing number with
  | nil =>
    have hle : byteLength last ≤ byteLength (last ++ first) := by
      rw [Text.byteLength_append]
      omega
    have hzero : bytesThrough [] + byteLength last = byteLength last := Nat.zero_add _
    rw [List.nil_append, hzero]
    cases after with
    | nil => rw [positionFrom, Nat.min_eq_left hle, column_append]; rfl
    | cons next after => rw [positionFrom, if_pos hle, column_append]; rfl
  | cons line before ih =>
    obtain ⟨next, more, hmore⟩ : ∃ next more, before ++ (last ++ first) :: after = next :: more :=
      List.exists_cons_of_ne_nil (by simp)
    have hpast : ¬ bytesThrough (line :: before) + byteLength last ≤ byteLength line := by
      rw [bytesThrough_cons]
      omega
    have hrest : bytesThrough (line :: before) + byteLength last - (byteLength line + 1) =
        bytesThrough before + byteLength last := by
      rw [bytesThrough_cons]
      omega
    rw [List.cons_append, hmore, positionFrom, if_neg hpast, hrest, ← hmore, ih, List.length_cons]
    congr 1
    omega

/-- **Line and column of a place** are the number of lines up to it, and the characters of the last
    of these, counted from one. -/
theorem position_append {front last : List Char} {before : List (List Char)}
    (h : split front = before ++ [last]) (rest : List Char) :
    (ofText (front ++ rest)).position (byteLength front) =
      (before.length + 1, last.length + 1) := by
  obtain ⟨first, after, hrest⟩ := List.exists_cons_of_ne_nil (split_ne_nil rest)
  unfold position ofText
  rw [split_append h hrest, byteLength_of_split h, positionFrom_append, Nat.add_comm]

theorem offset?_line {ls : Lines} {line : List Char} {before after : List (List Char)}
    (h : ls.lines = before ++ line :: after) (column : Nat) :
    ls.offset? (before.length + 1) column =
      some (bytesThrough before + byteLength (line.take (column - 1))) := by
  have hvalid : ¬((before.length + 1 = 0 || ls.count < before.length + 1) = true) := by
    simp [count, h]
  have hbefore : ls.lines.take (before.length + 1 - 1) = before := by simp [h]
  have hline : ls.lines[before.length + 1 - 1]? = some line := by simp [h]
  unfold offset? start? line?
  rw [if_neg hvalid, hbefore, if_neg (Nat.succ_ne_zero _), hline]
  rfl

/-- **The offset of the line and column of a place is the place.** -/
theorem offset?_position (front rest : List Char) :
    let p := (ofText (front ++ rest)).position (byteLength front)
    1 ≤ p.1 ∧ p.1 ≤ (ofText (front ++ rest)).count ∧
      (ofText (front ++ rest)).offset? p.1 p.2 = some (byteLength front) := by
  obtain ⟨before, last, hfront⟩ := exists_split_eq front
  obtain ⟨first, after, hrest⟩ := List.exists_cons_of_ne_nil (split_ne_nil rest)
  have hlines : (ofText (front ++ rest)).lines = before ++ (last ++ first) :: after :=
    split_append hfront hrest
  rw [position_append hfront]
  refine ⟨Nat.le_add_left 1 _, by simp [count, hlines], ?_⟩
  rw [offset?_line hlines, byteLength_of_split hfront, Nat.add_sub_cancel, List.take_left]

theorem length_le_bytesThrough (lines : List (List Char)) :
    lines.length ≤ bytesThrough lines := by
  induction lines with
  | nil => exact Nat.zero_le _
  | cons line lines ih =>
    rw [bytesThrough_cons, List.length_cons]
    omega

/-- Neither line nor column is past the number of bytes, counted from one. -/
theorem position_le (front rest : List Char) :
    let p := (ofText (front ++ rest)).position (byteLength front)
    p.1 ≤ byteLength front + 1 ∧ p.2 ≤ byteLength front + 1 := by
  obtain ⟨before, last, hfront⟩ := exists_split_eq front
  have hbefore := length_le_bytesThrough before
  have hlast := Text.length_le_byteLength last
  rw [position_append hfront, byteLength_of_split hfront]
  dsimp only
  omega

/-- **A later place has a later line and column.** -/
theorem position_lt {front middle : List Char} (h : middle ≠ []) (rest : List Char) :
    Prod.Lex (· < ·) (· < ·)
      ((ofText (front ++ (middle ++ rest))).position (byteLength front))
      ((ofText (front ++ (middle ++ rest))).position (byteLength (front ++ middle))) := by
  obtain ⟨before, last, hfront⟩ := exists_split_eq front
  obtain ⟨first, after, hmiddle⟩ := List.exists_cons_of_ne_nil (split_ne_nil middle)
  have hsplit := split_append hfront hmiddle
  rw [position_append hfront, ← List.append_assoc]
  rcases List.eq_nil_or_concat after with rfl | ⟨after, final, rfl⟩
  · -- no line feed in between: the line gets longer
    have hfirst : first = middle := by
      rw [← intercalate_split middle, hmiddle, List.intercalate_singleton]
    have hlonger := List.length_pos_iff.mpr h
    rw [position_append hsplit]
    refine .right _ ?_
    rw [hfirst, List.length_append]
    omega
  · have hlines : split (front ++ middle) = (before ++ (last ++ first) :: after) ++ [final] := by
      rw [hsplit, List.append_assoc, List.concat_eq_append]
      rfl
    rw [position_append hlines]
    refine .left _ _ ?_
    rw [List.length_append, List.length_cons]
    omega

/-- **Every column of every line is a place**; beyond the end of a line it is its end. -/
theorem exists_offset? {text : List Char} {number column : Nat} (hnumber : 1 ≤ number)
    (hcount : number ≤ (ofText text).count) (hcolumn : 1 ≤ column) :
    ∃ line front rest, (ofText text).line? number = some line ∧ text = front ++ rest ∧
      (ofText text).offset? number column = some (byteLength front) ∧
      (ofText text).position (byteLength front) = (number, min column (line.length + 1)) := by
  obtain ⟨i, rfl⟩ : ∃ i, number = i + 1 := Nat.exists_eq_add_of_le' hnumber
  have hi : i < (split text).length := hcount
  obtain ⟨before, line, after, hlines, rfl⟩ : ∃ before line after,
      split text = before ++ line :: after ∧ before.length = i :=
    ⟨(split text).take i, (split text)[i], (split text).drop (i + 1), by simp, by simp; omega⟩
  obtain ⟨rest, htext⟩ := exists_eq_append hlines
  have hcut : line.take (column - 1) ++ line.drop (column - 1) = line := List.take_append_drop _ _
  have hfront : byteLength (before.flatMap (· ++ ['\n']) ++ line.take (column - 1)) =
      bytesThrough before + byteLength (line.take (column - 1)) := by
    rw [Text.byteLength_append, byteLength_flatMap_feed]
  refine ⟨line, before.flatMap (· ++ ['\n']) ++ line.take (column - 1),
    line.drop (column - 1) ++ rest, ?_, ?_, ?_, ?_⟩
  · rw [line?, if_neg (Nat.succ_ne_zero _)]
    show (split text)[before.length + 1 - 1]? = some line
    simp [hlines]
  · rw [List.append_assoc, ← List.append_assoc (line.take _), hcut, htext, List.append_assoc]
  · rw [hfront]
    exact offset?_line hlines column
  · have hplace := positionFrom_append 1 before after (line.take (column - 1))
      (line.drop (column - 1))
    rw [hcut] at hplace
    rw [hfront]
    show positionFrom 1 (split text) _ = _
    rw [hlines, hplace, List.length_take]
    congr 1 <;> omega

end Lines

end FlowExpr
