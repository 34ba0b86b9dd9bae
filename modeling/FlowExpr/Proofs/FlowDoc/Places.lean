import FlowExpr.Proofs.FlowDoc.Blocks
import FlowExpr.Proofs.Span

/-!
# Places of documentation

A block is documentation of a text, so what is read of it stands in the text. The name of a
parameter is on the line that the parameter was read from, behind the comment sign and whatever
blanks there are, and lines are read one after another:

* `Lines.IsLine`, `Lines.partAt_of_mem`: lines by their numbers, and in their text;
* `FlowParam.On`: the name of a parameter stands on a line;
* `FlowDoc.NamesOn`: names stand on lines, in order, and `FlowDoc.Progress.NamesOn.lines`: so do
  those that were read of the lines so far;
* `FlowDoc.above?_places`: the lines of a block, and the names of its parameters on them.
-/

namespace FlowExpr

open Text (byteLength PartAt)

/-! ## 1. Lines by their numbers -/

namespace Lines

theorem getElem?_startsFrom (offset : Nat) (lines : List (List Char)) (i : Nat) :
    (startsFrom offset lines)[i]? =
      lines[i]?.map fun line => (offset + bytesThrough (lines.take i), line) := by
  induction lines generalizing offset i with
  | nil => rfl
  | cons first lines ih =>
    cases i with
    | zero => rfl
    | succ i =>
      rw [startsFrom, List.getElem?_cons_succ, List.getElem?_cons_succ, ih, List.take_succ_cons,
        bytesThrough_cons]
      congr 2
      funext line
      congr 1
      omega

theorem length_startsFrom (offset : Nat) (lines : List (List Char)) :
    (startsFrom offset lines).length = lines.length := by
  rw [← List.length_map Prod.snd, map_snd_startsFrom]

/-- The line with this number begins at the offset of the entry, has its characters, and ends
    after them. -/
structure IsLine (ls : Lines) (number : Nat) (entry : Nat × List Char) : Prop where
  start : ls.start? number = some entry.1
  line : ls.line? number = some entry.2
  stop : ls.stop? number = some (entry.1 + byteLength entry.2)

/-- Lines are counted from one. -/
theorem isLine_of_take {ls : Lines} {k i : Nat} {entry : Nat × List Char}
    (h : (ls.withStarts.take k)[i]? = some entry) : ls.IsLine (i + 1) entry := by
  rw [List.getElem?_take] at h
  obtain ⟨-, h⟩ := Option.ite_none_right_eq_some.mp h
  rw [withStarts, getElem?_startsFrom] at h
  obtain ⟨line, hline, rfl⟩ := Option.map_eq_some_iff.mp h
  have hvalid : ¬((i + 1 = 0 || ls.count < i + 1) = true) := by
    have hlength : i < ls.lines.length := (List.getElem?_eq_some_iff.mp hline).1
    simp [count, Nat.not_lt.mpr (Nat.succ_le_of_lt hlength)]
  have hstart : ls.start? (i + 1) = some (0 + bytesThrough (ls.lines.take i)) := by
    rw [start?, if_neg hvalid, Nat.zero_add, Nat.add_sub_cancel]
  have hnumber : ls.line? (i + 1) = some line := by
    rw [line?, if_neg (Nat.succ_ne_zero i), Nat.add_sub_cancel, hline]
  refine ⟨hstart, hnumber, ?_⟩
  rw [stop?, hstart, hnumber]
  rfl

/-- A line stands in its text. -/
theorem partAt_of_mem {text : List Char} {entry : Nat × List Char}
    (h : entry ∈ (ofText text).withStarts) : PartAt 0 text entry.1 entry.2 := by
  obtain ⟨i, hi⟩ := List.mem_iff_getElem?.mp h
  rw [withStarts, getElem?_startsFrom] at hi
  obtain ⟨line, hline, rfl⟩ := Option.map_eq_some_iff.mp hi
  obtain ⟨hlength, hget⟩ := List.getElem?_eq_some_iff.mp hline
  have hlines : split text = (split text).take i ++ line :: (split text).drop (i + 1) := by
    rw [← hget]
    simp [ofText]
  obtain ⟨rest, htext⟩ := exists_eq_append hlines
  refine ⟨_, rest, htext, ?_⟩
  rw [byteLength_flatMap_feed]
  rfl

end Lines

/-! ## 2. Names on lines -/

namespace FlowParam

/-- The name of the parameter stands on a line that begins at an offset, where its range says. -/
structure On (p : FlowParam) (entry : Nat × List Char) : Prop where
  part : PartAt entry.1 entry.2 p.nameSpan.start p.name.toList
  stop : p.nameSpan.stop = p.nameSpan.start + byteLength p.name.toList
  nonempty : p.name.toList ≠ []

/-- The name stands behind the blanks that a parameter begins with. -/
theorem on_of_read? {offset : Nat} {cs : List Char} {p : FlowParam}
    (h : read? offset cs = some p) : p.On (offset, cs) := by
  have hsplit : cs = cs.takeWhile Text.isBlank ++ Text.trimLeft cs :=
    List.takeWhile_append_dropWhile.symm
  have hbytes : byteLength cs - byteLength (Text.trimLeft cs) =
      byteLength (cs.takeWhile Text.isBlank) := by
    have hsum := congrArg byteLength hsplit
    rw [Text.byteLength_append] at hsum
    omega
  unfold read? at h
  dsimp only at h
  split at h
  · cases h
  · rename_i hname
    split at h
    · obtain rfl := Option.some.inj h
      refine ⟨?_, ?_, ?_⟩
      · refine ⟨cs.takeWhile Text.isBlank,
          (Text.trimLeft cs).drop (nameLength false (Text.trimLeft cs)), ?_, ?_⟩
        · dsimp only
          rw [String.toList_ofList, List.append_assoc, List.take_append_drop]
          exact hsplit
        · rw [← hbytes]
      · dsimp only
        rw [String.toList_ofList]
      · dsimp only
        rw [String.toList_ofList]
        simpa using hname
    · cases h

/-- What stands on a part of a line stands on the line. -/
theorem On.trans {p : FlowParam} {entry part : Nat × List Char} (h : p.On part)
    (hpart : PartAt entry.1 entry.2 part.1 part.2) : p.On entry :=
  ⟨hpart.trans h.part, h.stop, h.nonempty⟩

/-- A name lies between the ends of its line. -/
theorem On.inside {p : FlowParam} {entry : Nat × List Char} (h : p.On entry) :
    p.nameSpan.Inside ⟨entry.1, entry.1 + byteLength entry.2⟩ := by
  obtain ⟨front, rest, hline, hstart⟩ := h.part
  have hstop := h.stop
  have hbytes := congrArg byteLength hline
  rw [Text.byteLength_append, Text.byteLength_append] at hbytes
  exact ⟨by dsimp only; omega, by omega, by dsimp only; omega⟩

/-- A name is not empty. -/
theorem On.start_lt_stop {p : FlowParam} {entry : Nat × List Char} (h : p.On entry) :
    p.nameSpan.start < p.nameSpan.stop := by
  have hstop := h.stop
  have hpos := Text.byteLength_pos h.nonempty
  omega

end FlowParam

/-! ## 3. Reading line by line -/

namespace FlowDoc

/-- The names of the parameters stand on some of the lines, in order and apart from each other. -/
structure NamesOn (entries : List (Nat × List Char)) (params : List FlowParam) : Prop where
  on : ∀ p ∈ params, ∃ entry ∈ entries, p.On entry
  inOrder : params.Pairwise fun p q => p.nameSpan.stop < q.nameSpan.start

theorem namesOn_nil : NamesOn [] [] := ⟨List.forall_mem_nil _, .nil⟩

variable {entries : List (Nat × List Char)} {entry : Nat × List Char} {params : List FlowParam}

/-- Lines without parameters. -/
theorem NamesOn.more (h : NamesOn entries params) (entry : Nat × List Char) :
    NamesOn (entries ++ [entry]) params := by
  refine ⟨fun p hp => ?_, h.inOrder⟩
  obtain ⟨line, hline, hon⟩ := h.on p hp
  exact ⟨line, List.mem_append_left _ hline, hon⟩

/-- One more parameter, on a line after the others. -/
theorem NamesOn.concat (h : NamesOn entries params) {p : FlowParam} (hp : p.On entry)
    (hafter : ∀ line ∈ entries, line.1 + byteLength line.2 < entry.1) :
    NamesOn (entries ++ [entry]) (params ++ [p]) := by
  refine ⟨List.forall_mem_append.mpr ⟨(h.more entry).on, List.forall_mem_singleton.mpr
    ⟨entry, by simp, hp⟩⟩, List.pairwise_append.mpr ⟨h.inOrder, List.pairwise_singleton _ _, ?_⟩⟩
  intro q hq p' hp'
  obtain ⟨line, hline, hon⟩ := h.on q hq
  have hstop : q.nameSpan.stop ≤ line.1 + byteLength line.2 := hon.inside.2.2
  have hstart : entry.1 ≤ p.nameSpan.start := hp.inside.1
  have hlater := hafter line hline
  rw [List.mem_singleton.mp hp']
  omega

/-- What was read so far stands on the lines read so far. -/
structure Progress.NamesOn (entries : List (Nat × List Char)) (p : Progress) : Prop where
  inputs : FlowDoc.NamesOn entries p.inputs
  outputs : FlowDoc.NamesOn entries p.outputs

/-- What follows the first comment sign of a line is a part of the line. -/
theorem on_of_read?_line {line : List Char} {start : Nat} {param : FlowParam}
    (h : FlowParam.read? (start + byteLength (line.takeWhile (· ≠ '#')) + 1)
      (line.drop ((line.takeWhile (· ≠ '#')).length + 1)) = some param) :
    param.On (start, line) := by
  have hsplit : line.takeWhile (· ≠ '#') ++ line.dropWhile (· ≠ '#') = line :=
    List.takeWhile_append_dropWhile
  cases hrest : line.dropWhile (· ≠ '#') with
  | nil =>
    -- without a comment sign nothing follows it
    have hdrop : line.drop ((line.takeWhile (· ≠ '#')).length + 1) = [] := by
      rw [hrest, List.append_nil] at hsplit
      rw [hsplit]
      exact List.drop_eq_nil_of_le (Nat.le_succ _)
    rw [hdrop] at h
    cases h
  | cons c body =>
    have hc : c = '#' := by
      have hhead := List.head?_dropWhile_not (fun c => decide (c ≠ '#')) line
      rw [hrest] at hhead
      simpa using hhead
    have hdrop : line.drop ((line.takeWhile (· ≠ '#')).length + 1) = body := by
      rw [hrest] at hsplit
      refine (congrArg (List.drop _) hsplit.symm).trans ?_
      rw [List.drop_length_add_append]
      rfl
    have hon := FlowParam.on_of_read? h
    rw [hdrop] at hon
    refine hon.trans ⟨line.takeWhile (· ≠ '#') ++ [c], [], ?_, ?_⟩
    · rw [List.append_nil, List.append_assoc, List.singleton_append, ← hrest]
      exact hsplit.symm
    · rw [Text.byteLength_append, hc]
      exact Nat.add_assoc ..

/-- **One more line** adds at most one parameter, and that stands on it. -/
theorem Progress.NamesOn.line {p : Progress} (h : p.NamesOn entries)
    (hafter : ∀ line ∈ entries, line.1 + byteLength line.2 < entry.1) :
    (p.line entry.1 entry.2).NamesOn (entries ++ [entry]) := by
  have hinputs := h.inputs.more entry
  have houtputs := h.outputs.more entry
  unfold Progress.line
  dsimp only
  split
  · exact ⟨hinputs, houtputs⟩
  split
  · exact ⟨hinputs, houtputs⟩
  split
  · exact ⟨hinputs, houtputs⟩
  split
  · exact ⟨hinputs, houtputs⟩
  · exact ⟨h.inputs.concat (on_of_read?_line (by assumption)) hafter, houtputs⟩
  · exact ⟨hinputs, h.outputs.concat (on_of_read?_line (by assumption)) hafter⟩
  · exact ⟨hinputs, houtputs⟩

/-- **All lines**: by induction on those that are left. -/
theorem Progress.NamesOn.lines {later : List (Nat × List Char)} {p : Progress}
    (h : p.NamesOn entries) (hafter : (entries ++ later).Pairwise
      fun a b => a.1 + byteLength a.2 < b.1) :
    (later.foldl (fun p entry => p.line entry.1 entry.2) p).NamesOn (entries ++ later) := by
  induction later generalizing entries p with
  | nil =>
    rw [List.append_nil]
    exact h
  | cons entry later ih =>
    have hlast : ∀ line ∈ entries, line.1 + byteLength line.2 < entry.1 := fun line hline =>
      (List.pairwise_append.mp hafter).2.2 line hline entry List.mem_cons_self
    rw [List.append_cons] at hafter ⊢
    exact ih (h.line hlast) hafter

/-! ## 4. The block above a key -/

variable {ls : Lines} {k : Nat} {opening closing : Nat × List Char}
  {earlier inner : List (Nat × List Char)}

/-- The first line of a block by its number. -/
theorem isLine_opening (h : ls.withStarts.take k = earlier ++ opening :: (inner ++ [closing])) :
    ls.IsLine (earlier.length + 1) opening := by
  refine Lines.isLine_of_take (k := k) ?_
  rw [h]
  simp

/-- The lines between the delimiters by their numbers. -/
theorem isLine_inner (h : ls.withStarts.take k = earlier ++ opening :: (inner ++ [closing]))
    {j : Nat} {entry : Nat × List Char} (hj : inner[j]? = some entry) :
    ls.IsLine (earlier.length + (1 + j) + 1) entry := by
  have hlength := (List.getElem?_eq_some_iff.mp hj).1
  refine Lines.isLine_of_take (k := k) ?_
  rw [h, List.getElem?_append_right (Nat.le_add_right _ _), Nat.add_sub_cancel_left,
    Nat.add_comm 1 j, List.getElem?_cons_succ, List.getElem?_append_left hlength, hj]

/-- The last line of a block by its number. -/
theorem isLine_closing (h : ls.withStarts.take k = earlier ++ opening :: (inner ++ [closing])) :
    ls.IsLine (earlier.length + inner.length + 2) closing := by
  refine Lines.isLine_of_take (k := k) (i := earlier.length + inner.length + 1) ?_
  rw [h]
  simp [Nat.add_assoc]

/-- What is read of a block stands on the lines between its delimiters. -/
theorem namesOn_inner (h : ls.withStarts.take k = earlier ++ opening :: (inner ++ [closing])) :
    NamesOn inner (ofLines opening closing inner).inputs ∧
      NamesOn inner (ofLines opening closing inner).outputs := by
  have hordered : (ls.withStarts.take k).Pairwise fun a b => a.1 + byteLength a.2 < b.1 :=
    (Lines.pairwise_startsFrom 0 ls.lines).sublist (List.take_sublist k _)
  rw [h] at hordered
  have hblock := List.pairwise_cons.mp (List.pairwise_append.mp hordered).2.1
  have hstart : Progress.NamesOn [] {} := ⟨namesOn_nil, namesOn_nil⟩
  have hread := hstart.lines (List.pairwise_append.mp hblock.2).1
  exact ⟨hread.inputs, hread.outputs⟩

/-- **Places of documentation.** A block goes from a line `##` to the line `##` right above the
    key, and every line in between begins with a comment sign and is no `##`. The name of each
    parameter stands on one of the lines in between, is cut out of the text by its range, and the
    names of inputs and of outputs follow one another. -/
theorem above?_places {text : List Char} {keyLine : Nat} {doc : FlowDoc}
    (h : above? (Lines.ofText text) keyLine = some doc) :
    let lines := Lines.ofText text
    ∃ opening closing, opening < closing ∧ closing + 1 = keyLine ∧
      lines.start? opening = some doc.span.start ∧ lines.stop? closing = some doc.span.stop ∧
      (∀ number, number = opening ∨ number = closing →
        ∃ line, lines.line? number = some line ∧ Text.trim line = ['#', '#']) ∧
      (∀ number, opening < number → number < closing →
        ∃ line, lines.line? number = some line ∧ (Text.trim line).head? = some '#' ∧
          Text.trim line ≠ ['#', '#']) ∧
      (∀ p ∈ doc.inputs ++ doc.outputs, ∃ number start stop, opening < number ∧
        number < closing ∧ lines.start? number = some start ∧ lines.stop? number = some stop ∧
        p.nameSpan.Inside ⟨start, stop⟩ ∧ p.nameSpan.start < p.nameSpan.stop ∧
        Text.sliceBytes? p.nameSpan.start p.nameSpan.stop text = some p.name.toList) ∧
      doc.inputs.Pairwise (fun p q => p.nameSpan.stop < q.nameSpan.start) ∧
      doc.outputs.Pairwise fun p q => p.nameSpan.stop < q.nameSpan.start := by
  intro lines
  obtain ⟨hcount, earlier, opening, inner, closing, hblock, hopening, hclosing, hinner, rfl⟩ :=
    above?_eq_some_iff.mp h
  have hkeyLine : earlier.length + inner.length + 2 + 1 = keyLine := by
    have hlength := congrArg List.length hblock
    rw [List.length_take, Lines.withStarts, Lines.length_startsFrom] at hlength
    simp only [List.length_append, List.length_cons, List.length_nil] at hlength
    have hcount : keyLine ≤ (Lines.ofText text).lines.length + 1 := hcount
    omega
  have hfirst := isLine_opening hblock
  have hlast := isLine_closing hblock
  obtain ⟨hinputs, houtputs⟩ := namesOn_inner hblock
  refine ⟨earlier.length + 1, earlier.length + inner.length + 2, by omega, hkeyLine, hfirst.start,
    hlast.stop, ?_, fun number hafter hbefore => ?_, fun p hp => ?_, hinputs.inOrder,
    houtputs.inOrder⟩
  · rintro number (rfl | rfl)
    · exact ⟨opening.2, hfirst.line, beq_iff_eq.mp hopening⟩
    · exact ⟨closing.2, hlast.line, beq_iff_eq.mp hclosing⟩
  · obtain ⟨j, rfl⟩ : ∃ j, number = earlier.length + (1 + j) + 1 :=
      ⟨number - earlier.length - 2, by omega⟩
    have hj : j < inner.length := by omega
    have hcomment := hinner inner[j] (List.getElem_mem hj)
    refine ⟨inner[j].2, (isLine_inner hblock (List.getElem?_eq_getElem hj)).line, ?_⟩
    simpa [isInner, isDelimiter] using hcomment
  · obtain ⟨entry, hentry, hon⟩ := (List.mem_append.mp hp).elim (hinputs.on p) (houtputs.on p)
    obtain ⟨j, hj⟩ := List.mem_iff_getElem?.mp hentry
    have hlength := (List.getElem?_eq_some_iff.mp hj).1
    have hline := isLine_inner hblock hj
    have hpart : PartAt 0 text entry.1 entry.2 := by
      refine Lines.partAt_of_mem (List.mem_of_mem_take (i := keyLine - 1) ?_)
      rw [hblock]
      simp [hentry]
    refine ⟨_, _, _, by omega, by omega, hline.start, hline.stop, hon.inside, hon.start_lt_stop, ?_⟩
    rw [hon.stop]
    exact (hpart.trans hon.part).sliceBytes?

/-- Carriage returns, a letter of two bytes, and a blank of two bytes in front of a name. -/
theorem above?_places_returns :
    let text := "é:\n ##\r\n\t# é\n # in:\r\n # \u00a0a.b: x\r\n#c:\n##\nk:".toList
    let doc : FlowDoc := ⟨"é", [⟨"a.b", ⟨28, 31⟩, "x", false, ""⟩, ⟨"c", ⟨37, 38⟩, "", false, ""⟩],
      [], ⟨4, 42⟩⟩
    above? (Lines.ofText text) 8 = some doc ∧
      doc.inputs.Pairwise (fun p q => p.nameSpan.stop < q.nameSpan.start) ∧
      ∀ p ∈ doc.inputs ++ doc.outputs,
        Text.sliceBytes? p.nameSpan.start p.nameSpan.stop text = some p.name.toList := by
  intro text doc
  have hdoc : above? (Lines.ofText text) 8 = some doc := by decide +kernel
  obtain ⟨opening, closing, -, -, -, -, -, -, hnames, hinputs, -⟩ := above?_places hdoc
  refine ⟨hdoc, hinputs, fun p hp => ?_⟩
  obtain ⟨number, start, stop, -, -, -, -, -, -, hslice⟩ := hnames p hp
  exact hslice

end FlowDoc

end FlowExpr
