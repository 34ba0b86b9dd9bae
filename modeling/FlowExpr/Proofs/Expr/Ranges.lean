import FlowExpr.Proofs.Expr.Placement
import FlowExpr.Proofs.Expr.PositionMaps

/-!
# Ranges of a parsed text

The parser invents ranges where something is missing: from the next token, from the last one that
was taken, or from both. Still all of them lie in the text, and the leaves of the tree follow one
another, whatever the text is:

* `parseLexed_laid`: the tree of a text moved to its places is laid out between the places of its
  ends;
* `Expr.ranges`: the ranges that a node itself carries;
* `Expr.all_leaves`: what holds of the leaves of a tree holds of those of every node.
-/

namespace FlowExpr

open Text (byteLength)

/-! ## 1. Trees of moved texts -/

/-- **The tree of a moved text is laid out between the places of its ends**, and nothing is
    reported outside of them. The map has to go on at every character that is no blank. -/
theorem parseLexed_laid {f : Nat → Nat} (hf : Monotone f) {source : List Char}
    (hon : GoesOn f source) :
    (∃ last, Expr.Laid (f 0) last (f (byteLength source))
        [(parseLexed (lex source 0) (Span.relocate f)).root]) ∧
      ∀ d ∈ (parseLexed (lex source 0) (Span.relocate f)).diagnostics,
        d.span.Inside ⟨f 0, f (byteLength source)⟩ := by
  obtain ⟨ts, htokens, hrow⟩ := exists_tokenRow hf hon
  obtain ⟨hroot, hdiagnostics⟩ := parseTokens_laid hrow
  rw [← htokens] at hroot hdiagnostics
  refine ⟨hroot, fun d hd => ?_⟩
  have hmem := (List.mergeSort_perm _ _).mem_iff.mp hd
  rcases List.mem_append.mp hmem with hmem | hmem
  · -- an error of reading tokens: its ends are in order and in the text
    obtain ⟨error, herror, rfl⟩ := List.mem_map.mp hmem
    have hforward := lexFrom_forward 0 0 source error herror
    have hwithin := ((lexFrom_within 0 0 source).2 error herror).2
    rw [Nat.zero_add] at hwithin
    exact ⟨hf (Nat.zero_le _), hf hforward, hf hwithin⟩
  · exact hdiagnostics d hmem

/-- A text further on in its document is the text itself, moved. -/
theorem parseExpression_eq_moved (source : List Char) (n : Nat) :
    parseExpression source n = parseLexed (lex source 0) (Span.relocate (· + n)) := by
  rw [parseLexed_relocate, ← lex_move]
  rfl

theorem parseExpression_laid (source : List Char) (n : Nat) :
    (∃ last, Expr.Laid n last (n + byteLength source) [(parseExpression source n).root]) ∧
      ∀ d ∈ (parseExpression source n).diagnostics,
        d.span.Inside ⟨n, n + byteLength source⟩ := by
  have hlaid := parseLexed_laid (monotone_add n) (goesOn_add n source)
  rw [← parseExpression_eq_moved, Nat.zero_add, Nat.add_comm (byteLength source)] at hlaid
  exact hlaid

/-! ## 2. All ranges of a tree -/

namespace Expr

/-- The ranges that a node carries: its own, that of its property name and those of its
    parameters. -/
def ranges : Expr → List Span
  | property _ _ nameSpan s => [s, nameSpan]
  | lambda params _ s => s :: params.map Param.span
  | e => [e.span]

/-- A range of a node is that of the whole node or a leaf. -/
theorem mem_ranges {e : Expr} {s : Span} (hs : s ∈ e.ranges) : s = e.span ∨ s ∈ e.leaves := by
  cases e with
  | property target name nameSpan span =>
    rcases List.mem_cons.mp hs with rfl | hs
    · exact .inl rfl
    · exact .inr (List.mem_append_right _ hs)
  | lambda params body span =>
    rcases List.mem_cons.mp hs with rfl | hs
    · exact .inl rfl
    · exact .inr (List.mem_append_left _ hs)
  | _ => exact .inl (List.mem_singleton.mp hs)

theorem all_leaves {P : Span → Prop} {e : Expr} (h : ∀ s ∈ e.leaves, P s) :
    e.All fun x => ∀ s ∈ x.leaves, P s := by
  induction e using children_induction with
  | h e ih =>
    refine .node h fun x hx => ih x hx fun s hs => h s ?_
    exact e.leaves_children_sublist.subset (List.mem_flatMap.mpr ⟨x, hx, hs⟩)

theorem All.and {P Q : Expr → Prop} {e : Expr} (hP : e.All P) (hQ : e.All Q) :
    e.All fun x => P x ∧ Q x := by
  induction hP with
  | node root _ ih => exact .node ⟨root, hQ.root⟩ fun x hx => ih x hx (hQ.parts x hx)

end Expr

/-- **Ranges of a text.** The leaves of its tree follow one another, and every range of the tree
    and of a diagnostic has its ends in order and lies in the text. -/
theorem parseExpression_ranges (source : List Char) (n : Nat) :
    let parsed : Parsed := parseExpression source n
    let whole : Span := ⟨n, n + byteLength source⟩
    Span.Row whole.start parsed.root.leaves whole.stop ∧
      (parsed.root.All fun x => ∀ s ∈ x.ranges, s.Inside whole) ∧
      ∀ d ∈ parsed.diagnostics, d.span.Inside whole := by
  intro parsed whole
  obtain ⟨⟨last, hlaid⟩, hdiagnostics⟩ := parseExpression_laid source n
  have hbefore := hlaid.clear.before
  have hleaves := hlaid.leaves
  rw [List.flatMap_singleton] at hbefore hleaves
  refine ⟨.of_pairwise (Nat.le_add_right _ _) hleaves (hbefore.imp And.left), ?_, hdiagnostics⟩
  refine ((hlaid.nodes _ (List.mem_singleton_self _)).and (Expr.all_leaves hleaves)).imp ?_
  rintro x ⟨hspan, hleaf⟩ s hs
  rcases Expr.mem_ranges hs with rfl | hs
  · exact hspan
  · exact hleaf s hs

/-- In `a.[` nothing after the dot is there: the missing name and the missing index are empty
    ranges, the second of them at the end of the text. -/
theorem parseExpression_ranges_missing :
    let parsed := parseExpression ['a', '.', '['] 7
    parsed.root.leaves = [⟨7, 8⟩, ⟨9, 9⟩, ⟨10, 10⟩] ∧ Span.Row 7 parsed.root.leaves 10 :=
  ⟨rfl, (parseExpression_ranges ['a', '.', '['] 7).1⟩

end FlowExpr
