import FlowExpr.Proofs.Expr.Grammar
import FlowExpr.Proofs.Expr.Ranges

/-!
# References at a caret and references in a text

The listing of a tree and the search at a caret meet the same references, whatever text the tree
was read from:

* `mem_referencesIn_of_locateIn?`: what the search finds is listed, unless something is missing
  there;
* `references_pairwise`: the names that are listed follow one another.

The other direction is `locateIn?_of_mem`, which asks for a tree in order; the trees of texts are.
-/

namespace FlowExpr

/-- **What the search finds is listed**, with the same node, name and parameters, unless it is
    something missing. This needs no order of the ranges. -/
theorem mem_referencesIn_of_locateIn? {o : Nat} {e : Expr} {params : List Param} {r : Reference}
    (h : locateIn? o params e = some r) (hgap : r.node.isGap = false) :
    r ∈ referencesIn params e := by
  induction e using Expr.children_induction generalizing params with
  | h e ih =>
    have ht := touches_of_locateIn? h
    have hjoin : e.isJoin = true → e.callee? = none → r ∈ referencesIn params e := by
      intro hj hc
      rw [locateIn?_of_isJoin hj hc ht] at h
      obtain ⟨x, hx, h⟩ := exists_of_locateInList? h
      rw [referencesIn_of_isJoin hj hc]
      exact List.mem_flatMap.mpr ⟨x, hx, ih x hx h⟩
    cases e with
    | literal value s => simp [locateIn?] at h
    | identifier name s =>
      rw [locateIn?, if_neg (by simpa using ht)] at h
      obtain rfl := Option.some.inj h
      exact List.mem_singleton_self _
    | error s =>
      rw [locateIn?, if_neg (by simpa using ht)] at h
      obtain rfl := Option.some.inj h
      cases hgap
    | property target name nameSpan s =>
      rw [locateIn?_property ht] at h
      by_cases hname : nameSpan.touches o = true
      · rw [if_pos hname] at h
        obtain rfl := Option.some.inj h
        cases name with
        | none => cases hgap
        | some name => exact List.mem_append_right _ (List.mem_singleton_self _)
      · rw [if_neg hname] at h
        exact List.mem_append_left _ (ih target (List.mem_singleton_self _) h)
    | lambda inner body s =>
      rw [locateIn?_lambda ht] at h
      exact ih body (List.mem_singleton_self _) h
    | call target args s =>
      cases target with
      | identifier name nameSpan =>
        rw [locateIn?_bareCall ht] at h
        by_cases hname : nameSpan.touches o = true
        · rw [if_pos hname] at h
          obtain rfl := Option.some.inj h
          exact List.mem_cons_self
        · rw [if_neg hname] at h
          obtain ⟨x, hx, h⟩ := exists_of_locateInList? h
          have hr : r ∈ referencesInList params args := by
            rw [referencesInList_eq_flatMap]
            exact List.mem_flatMap.mpr ⟨x, hx, ih x (List.mem_cons_of_mem _ hx) h⟩
          exact List.mem_cons_of_mem _ hr
      | _ => exact hjoin rfl rfl
    | _ => exact hjoin rfl rfl

/-- In a tree in order, the names that are listed follow one another. -/
theorem references_pairwise {root : Expr} {lo last hi : Nat} (h : Expr.Laid lo last hi [root]) :
    (references root).Pairwise fun r t =>
      r.nameSpan.start < t.nameSpan.start ∧ r.nameSpan.stop ≤ t.nameSpan.start := by
  have hbefore := h.clear.before
  have hnames := h.names
  rw [List.flatMap_singleton] at hbefore hnames
  have hordered : (references root).Pairwise fun r t => r.nameSpan.Before t.nameSpan :=
    List.pairwise_map.mp (hbefore.sublist root.names_sublist_leaves)
  refine hordered.imp_of_mem fun hr _ hrt => ⟨?_, hrt.1⟩
  exact Nat.lt_of_lt_of_le (hnames _ (nameSpan_mem_names hr)).1 hrt.1

/-- **Searching agrees with listing.** The references of a text are listed in the order of their
    names, which do not overlap; a caret at a name finds its reference; and whatever a caret
    finds is listed, unless it is an error or a property without a name. -/
theorem locate_agrees_references (source : List Char) (n : Nat) :
    let root : Expr := (parseExpression source n).root
    ((references root).Pairwise fun r t =>
      r.nameSpan.start < t.nameSpan.start ∧ r.nameSpan.stop ≤ t.nameSpan.start) ∧
    (∀ r ∈ references root, ∀ o, r.nameSpan.start ≤ o → o < r.nameSpan.stop →
      locate? root o = some r) ∧
    ∀ o r, locate? root o = some r → r.node.isGap = false → r ∈ references root := by
  intro root
  obtain ⟨⟨last, hlaid⟩, -⟩ := parseExpression_laid source n
  refine ⟨references_pairwise hlaid, fun r hr o hstart hstop => ?_, fun o r => ?_⟩
  · exact locateIn?_of_mem hlaid.clear hr (Span.contains_iff.mpr ⟨hstart, hstop⟩)
  · exact mem_referencesIn_of_locateIn?

/-- A half-typed text, `x->x.+f(`: both names are found below the lambda, and a caret right after
    the dot finds the property that has no name. -/
theorem locate_agrees_half_typed :
    let root := (parseExpression ['x', '-', '>', 'x', '.', '+', 'f', '('] 0).root
    let params : List Param := [⟨"x", ⟨0, 1⟩⟩]
    let x : Reference := ⟨.identifier "x" ⟨3, 4⟩, ⟨3, 4⟩, params⟩
    let f : Reference := ⟨.call (.identifier "f" ⟨6, 7⟩) [.error ⟨8, 8⟩] ⟨6, 8⟩, ⟨6, 7⟩, params⟩
    x ∈ references root ∧ locate? root 3 = some x ∧ locate? root 7 = some f ∧
      f ∈ references root ∧ (locate? root 5).any (fun r => r.node.isGap) = true := by
  intro root params x f
  have hroot : root = .lambda params (.binary .add
      (.property x.node none ⟨5, 5⟩ ⟨3, 5⟩) f.node ⟨3, 8⟩) ⟨0, 8⟩ := rfl
  have hx : x ∈ references root := by
    rw [hroot]
    exact List.mem_cons_self
  have hf : locate? root 7 = some f := by
    rw [hroot]
    rfl
  obtain ⟨-, hfound, hlisted⟩ :=
    locate_agrees_references ['x', '-', '>', 'x', '.', '+', 'f', '('] 0
  refine ⟨hx, hfound x hx 3 (Nat.le_refl _) (by decide), hf, hlisted 7 f hf rfl, ?_⟩
  rw [hroot]
  rfl

end FlowExpr
