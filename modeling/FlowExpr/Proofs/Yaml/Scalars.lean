import FlowExpr.Proofs.Span
import FlowExpr.Proofs.Text
import FlowExpr.Yaml.ScalarScan

/-!
# Where the scalars of a document stand

Every scalar that the pass over a document finds is a part of the document, cut out between two
characters, and the scalars follow one another without overlapping:

* `scanStep_cases`: the one case split over what a step of the pass can find;
* `scanStep_found`: what one step of the pass finds is a part of what it takes;
* `scanFrom_parts`, `scanFrom_row`: so the whole pass finds parts of the text, in a row.
-/

namespace FlowExpr

namespace Yaml

open Text (byteLength byteLength_append byteLength_cons)

/-! ## 1. Quoted scalars and blocks -/

/-- The content of a quoted scalar begins what follows the quote, and it is taken. -/
theorem quotedContent_prefix (quote : Char) (cs : List Char) :
    (quotedContent quote cs).1 <+: cs ∧
      (quotedContent quote cs).1.length ≤ (quotedContent quote cs).2 := by
  unfold quotedContent
  cases quotedLength? quote cs with
  | some length =>
    refine ⟨List.take_prefix _ _, ?_⟩
    have h : (cs.take length).length ≤ length := List.length_take_le _ _
    exact Nat.le_succ_of_le h
  | none =>
    have hline : cs.takeWhile (fun c => decide (c ≠ '\n')) <+: cs := List.takeWhile_prefix _
    dsimp only
    split
    · refine ⟨(List.dropLast_prefix _).trans hline, ?_⟩
      rw [List.length_dropLast]
      exact Nat.sub_le _ _
    · exact ⟨hline, Nat.le_refl _⟩

/-- The first lines of a text, joined, begin the text. -/
theorem joinLines_prefix (cs : List Char) :
    ∀ lines, lines <+: Lines.split cs → joinLines lines <+: cs := by
  induction cs with
  | nil =>
    intro lines h
    cases lines with
    | nil => exact List.nil_prefix
    | cons line rest =>
      obtain ⟨hline, hrest⟩ := List.cons_prefix_cons.mp h
      rw [hline, List.prefix_nil.mp hrest]
      exact List.nil_prefix
  | cons c cs ih =>
    intro lines h
    cases lines with
    | nil => exact List.nil_prefix
    | cons line rest =>
      rw [Lines.split] at h
      by_cases hc : c = '\n'
      · rw [if_pos hc] at h
        obtain ⟨hline, hrest⟩ := List.cons_prefix_cons.mp h
        rw [hline]
        cases rest with
        | nil => exact List.nil_prefix
        | cons next rest =>
          show '\n' :: joinLines (next :: rest) <+: c :: cs
          rw [hc]
          exact List.cons_prefix_cons.mpr ⟨rfl, ih _ hrest⟩
      · rw [if_neg hc] at h
        obtain ⟨first, more, hsplit⟩ := List.exists_cons_of_ne_nil (Lines.split_ne_nil cs)
        rw [hsplit] at h ih
        obtain ⟨hline, hrest⟩ := List.cons_prefix_cons.mp h
        have hjoined := ih (first :: rest) (List.cons_prefix_cons.mpr ⟨rfl, hrest⟩)
        rw [hline]
        cases rest with
        | nil => exact List.cons_prefix_cons.mpr ⟨rfl, hjoined⟩
        | cons next rest => exact List.cons_prefix_cons.mpr ⟨rfl, hjoined⟩

/-- Joined lines take a line feed less than the lines with their line feeds. -/
theorem length_joinLines_le (lines : List (List Char)) :
    (joinLines lines).length ≤ (lines.flatMap fun line => line ++ ['\n']).length := by
  induction lines with
  | nil => exact Nat.le_refl _
  | cons line rest ih =>
    cases rest with
    | nil => simp [joinLines]
    | cons next rest =>
      show (line ++ '\n' :: joinLines (next :: rest)).length ≤ _
      rw [List.length_append, List.length_cons, List.flatMap_cons, List.length_append,
        List.length_append, List.length_singleton]
      omega

theorem withoutBlankEnd_prefix (lines : List (List Char)) : withoutBlankEnd lines <+: lines := by
  unfold withoutBlankEnd
  have h : (lines.reverse.dropWhile isBlankLine) <:+ lines.reverse := List.dropWhile_suffix _
  have hrev := List.reverse_prefix.mpr h
  rwa [List.reverse_reverse] at hrev

/-- The content of a block begins what follows its header line, and it is taken. -/
theorem blockContent_prefix (indent : Nat) (cs : List Char) :
    (blockContent indent cs).1 <+: cs ∧
      (blockContent indent cs).1.length ≤ (blockContent indent cs).2 := by
  have hlines : blockLines indent (Lines.split cs) <+: Lines.split cs := List.takeWhile_prefix _
  have hkept := withoutBlankEnd_prefix (blockLines indent (Lines.split cs))
  have hcontent := joinLines_prefix cs _ (hkept.trans hlines)
  refine ⟨hcontent, Nat.le_min.mpr ⟨?_, hcontent.length_le⟩⟩
  -- the blank lines at the end are taken without being content
  obtain ⟨blank, hblank⟩ := hkept
  refine Nat.le_trans (length_joinLines_le _) ?_
  generalize withoutBlankEnd _ = kept at hblank ⊢
  rw [← hblank, List.flatMap_append, List.length_append]
  exact Nat.le_add_right _ _

/-! ## 2. Plain scalars -/

/-- The content of a plain scalar was looked at. -/
theorem plainExtent_content_le (inFlow : Bool) (taken : Nat) (before : Option Char)
    (cs : List Char) :
    (plainExtent inFlow taken before cs).content ≤ (plainExtent inFlow taken before cs).looked := by
  fun_induction plainExtent inFlow taken before cs with
  | case1 => exact Nat.le_refl _
  | case2 before c cs taken ih => exact Nat.succ_le_succ ih
  | case3 before c cs h more ih => exact Nat.succ_le_succ ih
  | case4 | case5 | case6 => exact Nat.le_refl _
  | case7 before c cs _ _ _ _ _ ih =>
    simp only [Extent.gapBefore]
    split <;> omega
  | case8 before c cs _ _ _ _ _ ih => exact Nat.succ_le_succ ih

/-! ## 3. The pass -/

/-- A step of the pass finds nothing, a quoted scalar, a block or a plain scalar. -/
theorem scanStep_cases {P : ScanStep → Prop} (s : ScanState) (offset : Nat) (c : Char)
    (cs : List Char) (hnone : ∀ taken depth nodeStart, P ⟨none, taken, depth, nodeStart⟩)
    (hquoted : c = '"' ∨ c = '\'' → ∀ style,
      P ⟨some ⟨style, offset + 1, (quotedContent c cs).1⟩, (quotedContent c cs).2, s.flowDepth,
        false⟩)
    (hblock : ∀ header, cs.takeWhile (· ≠ '\n') = header → c = '|' ∨ c = '>' →
      P ⟨some ⟨.block, offset + 1 + byteLength (cs.take (header.length + 1)),
          (blockContent (indentOf s.line) (cs.drop (header.length + 1))).1⟩,
        header.length + 1 + (blockContent (indentOf s.line) (cs.drop (header.length + 1))).2, 0,
        true⟩)
    (hplain : ∀ line extent, (c :: cs).takeWhile (· ≠ '\n') = line →
      plainExtent (0 < s.flowDepth) 0 none line = extent → extent.content ≠ 0 →
      P ⟨some ⟨.plain, offset, line.take extent.content⟩, extent.looked - 1, s.flowDepth,
        false⟩) : P (scanStep s offset c cs) := by
  -- the branches one after the other, in the order in which the step looks at them
  unfold scanStep
  refine iteInduction (fun _ => hnone _ _ _) fun _ => ?_
  refine iteInduction (fun _ => hnone _ _ _) fun _ => ?_
  refine iteInduction (fun _ => hnone _ _ _) fun _ => ?_
  refine iteInduction (fun h => ?_) fun _ => ?_
  · rw [Bool.and_eq_true, Bool.or_eq_true, decide_eq_true_iff, decide_eq_true_iff] at h
    exact hquoted h.1 _
  refine iteInduction (fun h => ?_) fun _ => ?_
  · rw [Bool.and_eq_true, Bool.and_eq_true, Bool.or_eq_true, decide_eq_true_iff,
      decide_eq_true_iff] at h
    dsimp only
    split
    · exact hnone _ _ _
    · exact hblock _ rfl h.1.1
  refine iteInduction (fun _ => hnone _ _ _) fun _ => ?_
  refine iteInduction (fun _ => hnone _ _ _) fun _ => ?_
  refine iteInduction (fun _ => hnone _ _ _) fun _ => ?_
  refine iteInduction (fun _ => hnone _ _ _) fun _ => ?_
  refine iteInduction (fun _ => hnone _ _ _) fun _ => ?_
  refine iteInduction (fun _ => hnone _ _ _) fun _ => ?_
  dsimp only
  split
  · exact hnone _ _ _
  · exact hplain _ _ rfl rfl ‹_›

/-- What a step of the pass finds is a part of the characters that it takes. -/
theorem scanStep_found (s : ScanState) (offset : Nat) (c : Char) (cs : List Char) :
    ∀ scalar, (scanStep s offset c cs).found = some scalar →
      ∃ front, front ++ scalar.raw <+: c :: cs.take (scanStep s offset c cs).taken ∧
        scalar.start = offset + byteLength front := by
  refine scanStep_cases (P := fun step => ∀ scalar, step.found = some scalar →
    ∃ front, front ++ scalar.raw <+: c :: cs.take step.taken ∧
      scalar.start = offset + byteLength front) s offset c cs ?_ ?_ ?_ ?_
  · intro taken depth nodeStart scalar h
    cases h
  · intro hc style scalar h
    obtain rfl := Option.some.inj h
    obtain ⟨hfront, hlength⟩ := quotedContent_prefix c cs
    have hone : c.utf8Size = 1 := by rcases hc with rfl | rfl <;> rfl
    refine ⟨[c], List.cons_prefix_cons.mpr ⟨rfl, ?_⟩, by rw [byteLength_cons, hone]; rfl⟩
    exact List.prefix_take_iff.mpr ⟨hfront, hlength⟩
  · intro header hheader hc scalar h
    obtain rfl := Option.some.inj h
    generalize header.length + 1 = size
    obtain ⟨hfront, hlength⟩ := blockContent_prefix (indentOf s.line) (cs.drop size)
    have hone : c.utf8Size = 1 := by rcases hc with rfl | rfl <;> rfl
    refine ⟨c :: cs.take size, List.cons_prefix_cons.mpr ⟨rfl, ?_⟩, ?_⟩
    · show cs.take size ++ _ <+: cs.take (size + _)
      rw [List.take_add]
      exact (List.prefix_append_right_inj _).mpr (List.prefix_take_iff.mpr ⟨hfront, hlength⟩)
    · rw [byteLength_cons, hone, Nat.add_assoc]
  · intro line extent hline hextent _ scalar h
    obtain rfl := Option.some.inj h
    have hle : extent.content ≤ extent.looked := by
      rw [← hextent]
      exact plainExtent_content_le _ _ _ _
    refine ⟨[], ?_, rfl⟩
    have hfront : line.take extent.content <+: c :: cs := by
      rw [← hline]
      exact (List.take_prefix _ _).trans (List.takeWhile_prefix _)
    have hlength : (line.take extent.content).length ≤ extent.looked - 1 + 1 :=
      Nat.le_trans (List.length_take_le _ _) (by omega)
    exact List.prefix_take_iff.mpr ⟨hfront, hlength⟩

/-- **Every scalar of a text is a part of it.** -/
theorem scanFrom_parts (taken : Nat) (s : ScanState) (offset : Nat) (cs : List Char) :
    ∀ scalar ∈ scanFrom taken s offset cs, Text.PartAt offset cs scalar.start scalar.raw := by
  induction cs generalizing taken s offset with
  | nil =>
    intro scalar h
    rw [scanFrom] at h
    cases h
  | cons c cs ih =>
    intro scalar h
    cases taken with
    | succ n =>
      rw [scanFrom] at h
      exact (ih _ _ _ scalar h).cons c
    | zero =>
      rw [scanFrom] at h
      rcases List.mem_append.mp h with h | h
      · obtain ⟨front, hfront, hstart⟩ :=
          scanStep_found s offset c cs scalar (Option.mem_toList.mp h)
        obtain ⟨rest, hrest⟩ := hfront.trans
          (List.cons_prefix_cons.mpr ⟨rfl, List.take_prefix (scanStep s offset c cs).taken cs⟩)
        exact ⟨front, rest, hrest.symm, hstart⟩
      · exact (ih _ _ _ scalar h).cons c

/-- **The scalars of a text follow one another**, after the characters that are taken. -/
theorem scanFrom_row (taken : Nat) (s : ScanState) (offset : Nat) (cs : List Char) :
    Span.Row (offset + byteLength (cs.take taken))
      ((scanFrom taken s offset cs).map Scalar.span) (offset + byteLength cs) := by
  induction cs generalizing taken s offset with
  | nil =>
    rw [scanFrom, List.take_nil]
    exact Nat.le_refl _
  | cons c cs ih =>
    cases taken with
    | succ n =>
      rw [scanFrom, List.take_succ_cons, byteLength_cons, byteLength_cons, ← Nat.add_assoc,
        ← Nat.add_assoc]
      exact ih _ _ _
    | zero =>
      have hrest := ih (scanStep s offset c cs).taken ⟨(scanStep s offset c cs).flowDepth,
        (scanStep s offset c cs).nodeStart, some c, if c = '\n' then cs else s.line⟩
        (offset + c.utf8Size)
      have hfound : Span.Row offset ((scanStep s offset c cs).found.toList.map Scalar.span)
          (offset + c.utf8Size + byteLength (cs.take (scanStep s offset c cs).taken)) := by
        cases h : (scanStep s offset c cs).found with
        | none =>
          show offset ≤ _
          omega
        | some scalar =>
          obtain ⟨front, hfront, hstart⟩ := scanStep_found s offset c cs scalar h
          have hbytes := Text.byteLength_le_of_prefix hfront
          rw [byteLength_append, byteLength_cons] at hbytes
          refine ⟨?_, Nat.le_add_right _ _, ?_⟩
          · show offset ≤ scalar.start
            omega
          · show scalar.start + byteLength scalar.raw ≤ _
            omega
      rw [scanFrom, List.map_append, byteLength_cons, ← Nat.add_assoc]
      exact hfound.append hrest

theorem scalars_parts {text : List Char} {scalar : Scalar} (h : scalar ∈ scalars text) :
    Text.PartAt 0 text scalar.start scalar.raw :=
  scanFrom_parts 0 _ 0 text scalar h

theorem scalars_row (text : List Char) :
    Span.Row 0 ((scalars text).map Scalar.span) (byteLength text) := by
  have h := scanFrom_row 0 ⟨0, true, none, text⟩ 0 text
  rw [Nat.zero_add, Nat.zero_add] at h
  exact h

end Yaml

end FlowExpr
