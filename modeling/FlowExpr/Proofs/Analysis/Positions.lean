import FlowExpr.Analysis.Finding
import FlowExpr.Analysis.Navigation
import FlowExpr.Proofs.Expr.Ranges
import FlowExpr.Proofs.Yaml.Regions

/-!
# Positions that the analysis reports

Findings and usages are reported at ranges of the document, and these come from the tokens of
expressions through many maps: a scalar is decoded, its text is cut into tokens, the tokens are
moved to their places, and the parser joins their ranges. The offsets of decoded bytes never go
back, and go on at every character that can be in a name; so

* `parse_laid`: the tree of an expression is laid out between the ends of its range, and what the
  parser reports is inside of it;
* `Analysis.innerFindings_inside`: so is what is found in an expression;
* `Analysis.usagesIn_inside`, `Analysis.usages_pairwise`: usages are not empty, lie in ranges of
  expressions, and follow one another.
-/

namespace FlowExpr

open Text (byteLength)

/-! ## 1. The tree of an expression -/

theorem mappedOffset_of_getElem? {offsets : List Nat} {x y : Nat} (h : offsets[x]? = some y) :
    mappedOffset offsets x = y := by
  rw [mappedOffset, h]
  rfl

theorem ne_lineFeed_of_isBlank {c : Char} (h : Text.isBlank c = false) : c ≠ '\n' := by
  rintro rfl
  exact absurd h (by decide)

section Mapped

variable {text : List Char} {e : Embedded}

/-- The offsets of an expression never go back, lead from one end of its range to the other, and
    go on at every character that is no blank. -/
theorem mappedOffset_embedded (he : e ∈ embedded text) :
    Monotone (mappedOffset e.offsets) ∧ mappedOffset e.offsets 0 = e.inner.start ∧
      mappedOffset e.offsets (byteLength e.source) = e.inner.stop ∧
      GoesOn (mappedOffset e.offsets) e.source := by
  obtain ⟨s, -, front, inner, back, hpieces, hread⟩ := embedded_readFrom he
  have hrow := s.pieces_row
  rw [hpieces] at hrow
  have hlength := hread.length_offsets
  refine ⟨monotone_mappedOffset (by omega) (hread.pairwise_offsets hrow), ?_, ?_, ?_⟩
  · have hfirst := hread.head?_offsets
    rw [List.head?_eq_getElem?] at hfirst
    exact mappedOffset_of_getElem? hfirst
  · have hlast := hread.getLast?_offsets
    rw [List.getLast?_eq_getElem?, hlength] at hlast
    exact mappedOffset_of_getElem? hlast
  · rintro x c ⟨before, after, hsource, rfl⟩ hc
    rw [hread.source, List.append_assoc] at hsource
    obtain ⟨y, z, hy, hz, hlt⟩ := (hread.row hrow).offset_lt hsource (ne_lineFeed_of_isBlank hc)
    rw [← hread.offsets] at hy hz
    rw [Nat.zero_add, mappedOffset_of_getElem? hy, mappedOffset_of_getElem? hz]
    exact hlt

/-- **The tree of an expression is laid out between the ends of its range**, and nothing is
    reported outside of it. -/
theorem parse_laid (he : e ∈ embedded text) :
    (∃ last, Expr.Laid e.inner.start last e.inner.stop [(Analysis.parse e).root]) ∧
      ∀ d ∈ (Analysis.parse e).diagnostics, d.span.Inside e.inner := by
  obtain ⟨hmono, hstart, hstop, hon⟩ := mappedOffset_embedded he
  have hlaid := parseLexed_laid hmono hon
  rw [hstart, hstop] at hlaid
  exact hlaid

end Mapped

namespace Analysis

variable {text : List Char} {a : Analysis} {e : Embedded}

/-- A name of an expression is not empty and lies in its range. -/
theorem nameSpan_inside (he : e ∈ embedded text) {r : Reference}
    (hr : r ∈ references (parse e).root) :
    r.nameSpan.start < r.nameSpan.stop ∧ r.nameSpan.Inside e.inner := by
  obtain ⟨⟨last, hlaid⟩, -⟩ := parse_laid he
  have hname := nameSpan_mem_names hr
  have hnames := hlaid.names
  have hleaves := hlaid.leaves
  rw [List.flatMap_singleton] at hnames hleaves
  exact ⟨(hnames _ hname).1, hleaves _ (Expr.names_subset_leaves _ hname)⟩

/-! ## 2. Findings -/

@[simp] theorem location_span (a : Analysis) (span : Span) : (a.location span).span = span := rfl

@[simp] theorem finding_span (a : Analysis) (severity : Severity) (span : Span)
    (message : String) : (a.finding severity span message).location.span = span := rfl

/-- What is found in an expression, other than that it is not closed. -/
def innerFindings (a : Analysis) (e : Embedded) : List Finding :=
  ((parse e).diagnostics.map fun d => a.finding .error d.span d.message) ++
    (if a.settings.unresolvedDiagnostics then a.unresolvedFindings e (parse e).root else [])

/-- What is found in an expression lies in its range. -/
theorem innerFindings_inside (he : e ∈ embedded text) :
    ∀ f ∈ a.innerFindings e, f.location.span.Inside e.inner := by
  intro f hf
  rcases List.mem_append.mp hf with hf | hf
  · obtain ⟨d, hd, rfl⟩ := List.mem_map.mp hf
    exact (parse_laid he).2 d hd
  · split at hf
    · -- a name that means nothing is a name of the tree
      obtain ⟨r, hr, hf⟩ := List.mem_filterMap.mp hf
      obtain ⟨message, -, hf⟩ := Option.bind_eq_some_iff.mp hf
      split at hf
      · obtain rfl := Option.some.inj hf
        exact (nameSpan_inside he hr).2
      · cases hf
    · exact absurd hf List.not_mem_nil

/-- The findings of a document are those about its structure and those of its expressions, in
    order, unless they are not asked for any more. -/
theorem findings_eq (a : Analysis) :
    (a.cancelled = true ∧ a.findings = .error .cancelled) ∨
      a.findings = .ok ((a.document.loadError.toList.map fun err =>
          a.finding .error (Span.empty 0) err.report) ++
        a.document.expressions.flatMap fun e => a.openFinding e ++ a.innerFindings e) := by
  cases hc : a.cancelled with
  | false =>
    have hin : ∀ e, a.findingsIn e = pure (a.openFinding e ++ a.innerFindings e) := by
      intro e
      unfold findingsIn checkCancelled innerFindings
      rw [hc, ← List.append_assoc]
      rfl
    refine .inr ?_
    unfold findings
    rw [funext hin, List.mapM_pure, List.flatMap_def]
    rfl
  | true =>
    -- the first expression is looked into in vain
    cases hes : a.document.expressions with
    | nil =>
      refine .inr ?_
      unfold findings
      rw [hes]
      rfl
    | cons e es =>
      have hin : a.findingsIn e = .error .cancelled := by
        unfold findingsIn checkCancelled
        rw [hc]
        rfl
      refine .inl ⟨rfl, ?_⟩
      unfold findings
      rw [hes, List.mapM_cons, hin]
      rfl

/-! ## 3. Usages -/

/-- Usages in an expression are some of its names. -/
theorem map_span_usagesIn (symbol : Symbol) :
    ((a.usagesIn symbol e).map Location.span).Sublist (parse e).root.names := by
  unfold usagesIn
  rw [List.map_map]
  exact List.filter_sublist.map _

/-- The first location is over before the second begins. -/
def Precedes (l m : Location) : Prop := l.span.start < m.span.start ∧ l.span.stop ≤ m.span.start

theorem usagesIn_inside (he : e ∈ embedded text) (symbol : Symbol) :
    ∀ l ∈ a.usagesIn symbol e, l.span.start < l.span.stop ∧ l.span.Inside e.inner := by
  intro l hl
  obtain ⟨r, hr, rfl⟩ := List.mem_map.mp hl
  exact nameSpan_inside he (List.mem_filter.mp hr).1

theorem usagesIn_pairwise (he : e ∈ embedded text) (symbol : Symbol) :
    (a.usagesIn symbol e).Pairwise Precedes := by
  obtain ⟨⟨last, hlaid⟩, -⟩ := parse_laid he
  have hbefore := hlaid.clear.before
  rw [List.flatMap_singleton] at hbefore
  have hnames := (hbefore.sublist (Expr.names_sublist_leaves _)).sublist
    (map_span_usagesIn (a := a) symbol)
  refine (List.pairwise_map.mp hnames).imp_of_mem fun hl _ h => ?_
  have hne := (usagesIn_inside he symbol _ hl).1
  exact ⟨Nat.lt_of_lt_of_le hne h.1, h.1⟩

/-- **Usages follow one another**, first in an expression and then across expressions. -/
theorem usages_pairwise (hes : a.document.expressions = embedded text) (symbol : Symbol) :
    (a.usages symbol).Pairwise Precedes := by
  unfold usages
  split
  · exact .nil
  · rw [hes, List.pairwise_flatMap]
    refine ⟨fun e he => usagesIn_pairwise he symbol,
      (embedded_pairwise text).imp_of_mem fun hd he h l hl m hm => ?_⟩
    obtain ⟨hne, hin⟩ := usagesIn_inside hd symbol l hl
    obtain ⟨-, hin'⟩ := usagesIn_inside he symbol m hm
    have hclosed := (embedded_inside hd).2.2.1
    have hopened := (embedded_inside he).1
    have hlast := hin.2.2
    have hfirst := hin'.1
    have horder := h.1
    exact ⟨by omega, by omega⟩

end Analysis

/-- **Reported positions are valid**, whatever structure was loaded from the text. Apart from a
    structure that cannot be read and expressions that are not closed, every finding lies in the
    range of its expression. The usages of a symbol are not empty, lie in ranges of expressions,
    and follow one another without overlaps. -/
theorem positions_valid (text : List Char) (loaded : Except Yaml.LoadError (Option Yaml.Node))
    (settings : Settings) (cancelled : Bool) :
    let a : Analysis := ⟨Document.ofStructure text loaded, settings, cancelled⟩
    ((cancelled = true ∧ a.findings = .error .cancelled) ∨
      a.findings = .ok ((a.document.loadError.toList.map fun err =>
          a.finding .error (Span.empty 0) err.report) ++
        (embedded text).flatMap fun e => a.openFinding e ++ a.innerFindings e)) ∧
    (∀ e ∈ embedded text, ∀ f ∈ a.innerFindings e, f.location.span.Inside e.inner) ∧
    ∀ symbol, (∀ l ∈ a.usages symbol, l.span.start < l.span.stop ∧
        ∃ e ∈ embedded text, l.span.Inside e.inner) ∧
      (a.usages symbol).Pairwise fun l m =>
        l.span.start < m.span.start ∧ l.span.stop ≤ m.span.start := by
  intro a
  have hes : a.document.expressions = embedded text := rfl
  refine ⟨hes ▸ a.findings_eq, fun e he => a.innerFindings_inside he, fun symbol =>
    ⟨fun l hl => ?_, Analysis.usages_pairwise hes symbol⟩⟩
  unfold Analysis.usages at hl
  split at hl
  · exact absurd hl List.not_mem_nil
  · rw [hes] at hl
    obtain ⟨e, he, hl⟩ := List.mem_flatMap.mp hl
    obtain ⟨hne, hin⟩ := Analysis.usagesIn_inside he symbol l hl
    exact ⟨hne, e, he, hin⟩

/-- An unreadable sign after an escape, in an expression that is not closed. -/
theorem positions_after_escape :
    let text := ['k', ':', ' ', '"', '$', '{', 'a', '\\', 't', '^', '"']
    let a : Analysis := ⟨Document.ofText text, {}, false⟩
    let e : Embedded := ⟨⟨4, 10⟩, ⟨6, 10⟩, false, ['a', '\t', '^'], [6, 7, 9, 10]⟩
    e ∈ embedded text ∧ ∃ f ∈ a.innerFindings e,
      f.location.span = ⟨9, 10⟩ ∧ f.location.span.Inside e.inner := by
  intro text a e
  have he : e ∈ embedded text := by decide
  have hdiagnostics : (Analysis.parse e).diagnostics.map Diagnostic.span = [⟨9, 10⟩] := by cbv
  obtain ⟨d, hd, hspan⟩ := List.mem_map.mp
    (hdiagnostics ▸ List.mem_singleton_self _ :
      ⟨9, 10⟩ ∈ (Analysis.parse e).diagnostics.map Diagnostic.span)
  have hf : a.finding .error d.span d.message ∈ a.innerFindings e :=
    List.mem_append_left _ (List.mem_map_of_mem hd)
  exact ⟨he, _, hf, (a.finding_span _ _ _).trans hspan,
    (positions_valid text (Document.structureOf text) {} false).2.1 e he _ hf⟩

end FlowExpr
