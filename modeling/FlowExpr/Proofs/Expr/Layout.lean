import FlowExpr.Expr.Parser
import FlowExpr.Proofs.Scope.References

/-!
# Trees laid out in a text

What it means that the ranges of trees are in order, and how the order of a node follows from
that of its parts:

* `Expr.Laid lo last hi es`: trees between the offsets `lo` and `hi` that are clear, with names
  that are not empty and end at `last` or before;
* `Param.Spaced`: parameters with gaps between them;
* `Expr.Laid.append`, `Expr.Laid.node`: trees side by side and a node around them, then one
  lemma for each way in which the range of a node is made from its parts.

A node need not cover its leaves: what is missing at the end of an unclosed construct lies after
it. It covers its names, and those are kept apart by `last`.
-/

namespace FlowExpr

/-! ## 1. Trees between two offsets -/

namespace Expr

theorem All.imp {P Q : Expr → Prop} (hpq : ∀ e, P e → Q e) {e : Expr} (h : e.All P) :
    e.All Q := by
  induction h with
  | node root _ ih => exact .node (hpq _ root) ih

/-- Trees in order between the offsets `lo` and `hi`, whose names are not empty and end at
    `last` or before. -/
structure Laid (lo last hi : Nat) (es : List Expr) : Prop where
  clear : Clear es
  leaves : ∀ s ∈ es.flatMap leaves, s.Inside ⟨lo, hi⟩
  names : ∀ s ∈ es.flatMap names, s.start < s.stop ∧ s.stop ≤ last
  nodes : ∀ e ∈ es, e.All fun x => x.span.Inside ⟨lo, hi⟩

namespace Laid

variable {lo lo' last last' mid mid' hi hi' : Nat} {e : Expr} {es es' : List Expr}

theorem nil : Laid lo last hi [] := by
  refine ⟨⟨.nil, ?_⟩, ?_, ?_, ?_⟩ <;> exact fun _ h => absurd h List.not_mem_nil

theorem mono (h : Laid lo last hi es) (hlo : lo' ≤ lo) (hlast : last ≤ last') (hhi : hi ≤ hi') :
    Laid lo' last' hi' es := by
  have hwide : ∀ s : Span, s.Inside ⟨lo, hi⟩ → s.Inside ⟨lo', hi'⟩ := fun s hs =>
    ⟨Nat.le_trans hlo hs.1, hs.2.1, Nat.le_trans hs.2.2 hhi⟩
  exact ⟨h.clear, fun s hs => hwide s (h.leaves s hs),
    fun s hs => ⟨(h.names s hs).1, Nat.le_trans (h.names s hs).2 hlast⟩,
    fun x hx => (h.nodes x hx).imp fun y => hwide y.span⟩

theorem span (h : Laid lo last hi [e]) : e.span.Inside ⟨lo, hi⟩ :=
  (h.nodes e (List.mem_singleton_self _)).root

theorem le (h : Laid lo last hi [e]) : lo ≤ hi := by
  obtain ⟨h₁, h₂, h₃⟩ := h.span
  exact Nat.le_trans h₁ (Nat.le_trans h₂ h₃)

theorem covered (h : Laid lo last hi [e]) : ∀ s ∈ e.names, s.Inside e.span :=
  (h.clear.covers e (List.mem_singleton_self _)).root

/-- Names lie between the offsets of their trees. -/
theorem lo_le_names (h : Laid lo last hi es) : ∀ s ∈ es.flatMap Expr.names, lo ≤ s.start := by
  intro s hs
  obtain ⟨x, hx, hs⟩ := List.mem_flatMap.mp hs
  exact (h.leaves s (List.mem_flatMap.mpr ⟨x, hx, x.names_subset_leaves hs⟩)).1

/-- Two rows of trees between the same offsets, one before the other. -/
theorem append_of_before (h : Laid lo last hi es) (h' : Laid lo last hi es')
    (hbefore : ∀ s ∈ es.flatMap Expr.leaves, ∀ t ∈ es'.flatMap Expr.leaves, s.Before t) :
    Laid lo last hi (es ++ es') := by
  have hboth : ∀ {P : Span → Prop} {f : Expr → List Span}, (∀ s ∈ es.flatMap f, P s) →
      (∀ s ∈ es'.flatMap f, P s) → ∀ s ∈ (es ++ es').flatMap f, P s := by
    intro P f hl hr s hs
    rw [List.flatMap_append] at hs
    exact (List.mem_append.mp hs).elim (hl s) (hr s)
  refine ⟨⟨?_, ?_⟩, hboth h.leaves h'.leaves, hboth h.names h'.names, ?_⟩
  · rw [List.flatMap_append]
    exact List.pairwise_append.mpr ⟨h.clear.before, h'.clear.before, hbefore⟩
  · exact fun x hx => (List.mem_append.mp hx).elim (h.clear.covers x) (h'.clear.covers x)
  · exact fun x hx => (List.mem_append.mp hx).elim (h.nodes x) (h'.nodes x)

/-- Trees with a gap between them. -/
theorem append (h : Laid lo last mid es) (h' : Laid mid' last' hi es') (hlo : lo ≤ mid)
    (hgap : mid < mid') (hhi : mid' ≤ hi) (hlast : last ≤ last') :
    Laid lo last' hi (es ++ es') := by
  refine (h.mono (Nat.le_refl _) hlast (by omega)).append_of_before
    (h'.mono (by omega) (Nat.le_refl _) (Nat.le_refl _)) fun s hs t ht => ?_
  have hs' := (h.leaves s hs).2.2
  have ht' := (h'.leaves t ht).1
  exact ⟨by dsimp only at hs' ht'; omega, fun _ => by dsimp only at hs' ht'; omega⟩

/-- A node around trees. -/
theorem node (h : Laid lo last hi e.children) (hs : e.span.Inside ⟨lo, hi⟩)
    (hbefore : e.leaves.Pairwise Span.Before) (hl : ∀ s ∈ e.leaves, s.Inside ⟨lo, hi⟩)
    (hn : ∀ s ∈ e.names, (s.start < s.stop ∧ s.stop ≤ last) ∧
      e.span.start ≤ s.start ∧ s.stop ≤ e.span.stop) : Laid lo last hi [e] := by
  have hparts : ∀ {P : Expr → Prop}, P e → (∀ x ∈ e.children, x.All P) → ∀ x ∈ [e], x.All P := by
    intro P hP hc x hx
    rw [List.mem_singleton.mp hx]
    exact .node hP hc
  have hcover : ∀ s ∈ e.names, s.Inside e.span := fun s hs =>
    ⟨(hn s hs).2.1, Nat.le_of_lt (hn s hs).1.1, (hn s hs).2.2⟩
  refine ⟨⟨?_, hparts hcover h.clear.covers⟩, ?_, ?_, hparts hs h.nodes⟩
  · rwa [List.flatMap_singleton]
  · rwa [List.flatMap_singleton]
  · rw [List.flatMap_singleton]
    exact fun s hs => (hn s hs).1

/-- A tree that is a leaf. -/
theorem leaf (hl : e.leaves = [e.span]) (hc : e.children = []) (hs : e.span.Inside ⟨lo, hi⟩)
    (hn : ∀ s ∈ e.names, s = e.span ∧ s.start < s.stop ∧ s.stop ≤ last) :
    Laid lo last hi [e] := by
  refine node (hc ▸ nil) hs ?_ ?_ fun s hs => ?_
  · rw [hl]
    exact List.pairwise_singleton _ _
  · rw [hl]
    exact fun s h => List.mem_singleton.mp h ▸ hs
  · obtain ⟨rfl, hname⟩ := hn s hs
    exact ⟨hname, Nat.le_refl _, Nat.le_refl _⟩

/-- An error in place of something missing. -/
theorem missing {x : Nat} (hlo : lo ≤ x) (hhi : x ≤ hi) :
    Laid lo last hi [.error (Span.empty x)] :=
  leaf rfl rfl ⟨hlo, Nat.le_refl _, hhi⟩ fun _ h => absurd h List.not_mem_nil

/-- Something missing right after trees: it is empty, so no gap is needed. -/
theorem append_missing (h : Laid lo last hi es) (hlo : lo ≤ hi) :
    Laid lo last hi (es ++ [.error (Span.empty hi)]) := by
  refine h.append_of_before (missing hlo (Nat.le_refl _)) fun s hs t ht => ?_
  rw [List.mem_singleton.mp ht]
  exact ⟨(h.leaves s hs).2.2, fun hlt => absurd hlt (Nat.lt_irrefl _)⟩

/-- A node that has nothing but its parts, with a range that covers their names. -/
theorem join (h : Laid lo last hi e.children) (hj : e.isJoin = true)
    (hs : e.span.Inside ⟨lo, hi⟩)
    (hcover : ∀ s ∈ e.children.flatMap Expr.names, e.span.start ≤ s.start ∧ s.stop ≤ e.span.stop) :
    Laid lo last hi [e] := by
  refine node h hs ?_ ?_ fun s hs => ?_
  · rw [leaves_of_isJoin hj]
    exact h.clear.before
  · rw [leaves_of_isJoin hj]
    exact h.leaves
  · rw [names_of_isJoin hj] at hs
    exact ⟨h.names s hs, hcover s hs⟩

end Laid

end Expr

/-! ## 2. Parameters -/

/-- Parameters between two offsets, with gaps between them. -/
structure Param.Spaced (lo hi : Nat) (params : List Param) : Prop where
  before : (params.map Param.span).Pairwise Span.Before
  inside : ∀ s ∈ params.map Param.span, s.Inside ⟨lo, hi⟩

theorem Param.Spaced.mono {lo lo' hi : Nat} {params : List Param} (h : Spaced lo hi params)
    (hlo : lo' ≤ lo) : Spaced lo' hi params :=
  ⟨h.before, fun s hs => ⟨Nat.le_trans hlo (h.inside s hs).1, (h.inside s hs).2⟩⟩

/-- One more parameter in front, with a gap after it. -/
theorem Param.Spaced.cons {lo mid hi : Nat} {p : Param} {params : List Param}
    (h : Spaced mid hi params) (hp : p.span.Inside ⟨lo, hi⟩) (hgap : p.span.stop < mid) :
    Spaced lo hi (p :: params) := by
  refine ⟨List.pairwise_cons.mpr ⟨fun s hs => ?_, h.before⟩, fun s hs => ?_⟩
  · have hle := Nat.lt_of_lt_of_le hgap (h.inside s hs).1
    exact ⟨Nat.le_of_lt hle, fun _ => hle⟩
  · rcases List.mem_cons.mp hs with rfl | hs
    · exact hp
    · obtain ⟨h₁, h₂⟩ := h.inside s hs
      have hin := hp.1
      have hin' := hp.2.1
      exact ⟨by dsimp only at h₁ hin ⊢; omega, h₂⟩

theorem Param.spaced_nil (lo hi : Nat) : Spaced lo hi [] :=
  ⟨.nil, fun _ h => absurd h List.not_mem_nil⟩

/-! ## 3. Nodes -/

namespace Expr.Laid

variable {lo last last' mid mid' hi stop : Nat} {target left right body : Expr}

/-- A property after its target: the name, or the place where it is missing, is its end. -/
theorem property (h : Laid lo last mid [target]) {name : Option String} {nameSpan : Span}
    (hgap : mid < nameSpan.start) (hspan : nameSpan.start ≤ nameSpan.stop)
    (hhi : nameSpan.stop ≤ hi) (hlast : last ≤ last')
    (hname : name.isSome → nameSpan.start < nameSpan.stop ∧ nameSpan.stop ≤ last') :
    Laid lo last' hi [.property target name nameSpan ⟨target.span.start, nameSpan.stop⟩] := by
  obtain ⟨hstart, horder, hend⟩ := h.span
  dsimp only at hstart hend
  have hclear := h.clear.before
  have hleaves := h.leaves
  have hnames := h.names
  rw [List.flatMap_singleton] at hclear hleaves hnames
  refine node (h.mono (Nat.le_refl lo) hlast (by omega)) ⟨hstart, ?_, hhi⟩ ?_ ?_ ?_
  · show target.span.start ≤ nameSpan.stop
    omega
  · -- the dot is between the leaves of the target and the name
    refine List.pairwise_append.mpr ⟨hclear, List.pairwise_singleton _ _, fun l hl m hm => ?_⟩
    have hover : l.stop ≤ mid := (hleaves l hl).2.2
    rw [List.mem_singleton.mp hm]
    exact ⟨by omega, fun _ => by omega⟩
  · intro s hs
    rcases List.mem_append.mp hs with hs | hs
    · obtain ⟨h₁, h₂, h₃⟩ := hleaves s hs
      dsimp only at h₃
      exact ⟨h₁, h₂, by dsimp only; omega⟩
    · rw [List.mem_singleton.mp hs]
      exact ⟨by dsimp only; omega, hspan, hhi⟩
  · intro s hs
    rw [names_property] at hs
    rcases List.mem_append.mp hs with hs | hs
    · have hover : s.stop ≤ mid := (hleaves s (target.names_subset_leaves hs)).2.2
      have hname := hnames s hs
      exact ⟨⟨hname.1, by omega⟩, (h.covered s hs).1, by show s.stop ≤ nameSpan.stop; omega⟩
    · split at hs
      · rename_i hsome
        rw [List.mem_singleton.mp hs]
        exact ⟨hname hsome, by show target.span.start ≤ nameSpan.start; omega, Nat.le_refl _⟩
      · exact absurd hs List.not_mem_nil

/-- A lambda after its parameters. -/
theorem lambda (h : Laid mid last hi [body]) {params : List Param}
    (hp : Param.Spaced lo stop params) (hlo : lo ≤ stop) (hgap : stop < mid) :
    Laid lo last hi [.lambda params body ⟨lo, body.span.stop⟩] := by
  obtain ⟨hstart, horder, hend⟩ := h.span
  dsimp only at hstart hend
  have hclear := h.clear.before
  have hleaves := h.leaves
  have hnames := h.names
  rw [List.flatMap_singleton] at hclear hleaves hnames
  refine node (h.mono (by omega) (Nat.le_refl last) (Nat.le_refl hi)) ⟨Nat.le_refl _, ?_, hend⟩
    ?_ ?_ ?_
  · show lo ≤ body.span.stop
    omega
  · -- the arrow is between the parameters and the leaves of the body
    refine List.pairwise_append.mpr ⟨hp.before, hclear, fun l hl m hm => ?_⟩
    have hover : l.stop ≤ stop := (hp.inside l hl).2.2
    have hlate : mid ≤ m.start := (hleaves m hm).1
    exact ⟨by omega, fun _ => by omega⟩
  · intro s hs
    rcases List.mem_append.mp hs with hs | hs
    · obtain ⟨h₁, h₂, h₃⟩ := hp.inside s hs
      dsimp only at h₃
      exact ⟨h₁, h₂, by dsimp only; omega⟩
    · obtain ⟨h₁, h₂, h₃⟩ := hleaves s hs
      dsimp only at h₁
      exact ⟨by dsimp only; omega, h₂, h₃⟩
  · intro s hs
    rw [names_lambda] at hs
    have hlate : mid ≤ s.start := (hleaves s (body.names_subset_leaves hs)).1
    exact ⟨hnames s hs, by show lo ≤ s.start; omega, (h.covered s hs).2.2⟩

/-- A node around a tree and those after it, from the beginning of the first. -/
theorem join_from {e first : Expr} {others : List Expr} (hfirst : Laid lo last mid [first])
    (hothers : Laid mid' last' hi others) (hj : e.isJoin = true)
    (hchildren : e.children = first :: others) (hgap : mid < mid') (hhi : mid' ≤ hi)
    (hlast : last ≤ last') (hstart : e.span.start = first.span.start) (hstop : e.span.stop ≤ hi)
    (hcover : ∀ s ∈ first.names ++ others.flatMap Expr.names, s.stop ≤ e.span.stop)
    (horder : first.span.start ≤ e.span.stop) :
    Laid lo last' hi [e] := by
  have hall := hfirst.append hothers hfirst.le hgap hhi hlast
  obtain ⟨h₁, h₂, h₃⟩ := hfirst.span
  have h₃' : first.span.stop ≤ mid := h₃
  refine Laid.join (hchildren ▸ hall) hj ⟨hstart ▸ h₁, hstart ▸ horder, hstop⟩ fun s hs => ?_
  rw [hchildren, List.flatMap_cons] at hs
  refine ⟨?_, hcover s hs⟩
  rw [hstart]
  rcases List.mem_append.mp hs with hs | hs
  · exact (hfirst.covered s hs).1
  · have hlate := hothers.lo_le_names s hs
    omega

theorem joined (hleft : Laid lo last mid [left]) (hright : Laid mid' last' hi [right])
    (hgap : mid < mid') (hlast : last ≤ last') (op : BinaryOp) :
    Laid lo last' hi [.joined op left right] := by
  obtain ⟨l₁, l₂, l₃⟩ := hleft.span
  obtain ⟨r₁, r₂, r₃⟩ := hright.span
  dsimp only at l₁ l₃ r₁ r₃
  refine hleft.join_from hright rfl rfl hgap hright.le hlast ?_ ?_ (fun s hs => ?_) ?_
  · show min left.span.start right.span.start = left.span.start
    omega
  · show max left.span.stop right.span.stop ≤ hi
    omega
  · rw [List.flatMap_singleton] at hs
    show s.stop ≤ max left.span.stop right.span.stop
    rcases List.mem_append.mp hs with hs | hs
    · exact Nat.le_trans (hleft.covered s hs).2.2 (Nat.le_max_left _ _)
    · exact Nat.le_trans (hright.covered s hs).2.2 (Nat.le_max_right _ _)
  · show left.span.start ≤ max left.span.stop right.span.stop
    omega

/-- A node around a tree and those after it that ends with the last name at the latest. -/
theorem extended {e first : Expr} {others : List Expr} (hfirst : Laid lo last mid [first])
    (hothers : Laid mid' last' hi others) (hj : e.isJoin = true)
    (hchildren : e.children = first :: others) (hspan : e.span = ⟨first.span.start, last'⟩)
    (hgap : mid < mid') (hlast : last ≤ last') (hmid : mid ≤ last') (hhi : last' ≤ hi)
    (hhi' : mid' ≤ hi) : Laid lo last' hi [e] := by
  obtain ⟨-, h₂, h₃⟩ := hfirst.span
  dsimp only at h₃
  have hnames := hfirst.names
  rw [List.flatMap_singleton] at hnames
  refine hfirst.join_from hothers hj hchildren hgap hhi' hlast ?_ ?_ (fun s hs => ?_) ?_
  · rw [hspan]
  · rw [hspan]
    exact hhi
  · rw [hspan]
    rcases List.mem_append.mp hs with hs | hs
    · exact Nat.le_trans (hnames s hs).2 hlast
    · exact (hothers.names s hs).2
  · rw [hspan]
    show first.span.start ≤ last'
    omega

/-- A node around trees from a delimiter before them up to the last name at the latest. -/
theorem bracketed {e : Expr} (h : Laid mid last hi e.children) (hj : e.isJoin = true)
    (hspan : e.span = ⟨lo, last⟩) (hlo : lo ≤ mid) (hlast : lo ≤ last) (hhi : last ≤ hi) :
    Laid lo last hi [e] := by
  refine (h.mono hlo (Nat.le_refl _) (Nat.le_refl _)).join hj ?_ fun s hs => ?_
  · rw [hspan]
    exact ⟨Nat.le_refl _, hlast, hhi⟩
  · rw [hspan]
    exact ⟨Nat.le_trans hlo (h.lo_le_names s hs), (h.names s hs).2⟩

/-- A unary operator before its operand. -/
theorem unary (h : Laid mid last hi [right]) (hlo : lo ≤ mid) (op : UnaryOp) :
    Laid lo last hi [.unary op right ⟨lo, right.span.stop⟩] := by
  obtain ⟨h₁, h₂, h₃⟩ := h.span
  dsimp only at h₁
  refine Laid.join (h.mono hlo (Nat.le_refl _) (Nat.le_refl _)) rfl ⟨Nat.le_refl _, ?_, h₃⟩
    fun s hs => ⟨Nat.le_trans hlo (h.lo_le_names s hs), ?_⟩
  · show lo ≤ right.span.stop
    omega
  · have hname : s ∈ right.names := by simpa [children] using hs
    exact (h.covered s hname).2.2

/-- A conditional: its branches may end in any order. -/
theorem ternary {condition yes no : Expr} (hc : Laid lo last mid [condition])
    (h : Laid mid' last' hi [yes, no]) (hgap : mid < mid') (hlast : last ≤ last') :
    Laid lo last' hi [.ternary condition yes no
      ⟨condition.span.start, max no.span.stop yes.span.stop⟩] := by
  have hyes : yes.span.Inside ⟨mid', hi⟩ := (h.nodes yes (by simp)).root
  have hno : no.span.Inside ⟨mid', hi⟩ := (h.nodes no (by simp)).root
  obtain ⟨c₁, c₂, c₃⟩ := hc.span
  obtain ⟨y₁, y₂, y₃⟩ := hyes
  obtain ⟨n₁, n₂, n₃⟩ := hno
  dsimp only at c₃ y₁ y₃ n₁ n₃
  refine hc.join_from h rfl rfl hgap (by omega) hlast rfl ?_ (fun s hs => ?_) ?_
  · show max no.span.stop yes.span.stop ≤ hi
    omega
  · show s.stop ≤ max no.span.stop yes.span.stop
    rcases List.mem_append.mp hs with hs | hs
    · have hcover : s.stop ≤ condition.span.stop := (hc.covered s hs).2.2
      omega
    · rw [List.flatMap_cons, List.flatMap_singleton] at hs
      rcases List.mem_append.mp hs with hs | hs
      · have hcover : s.stop ≤ yes.span.stop :=
          ((h.clear.covers yes (by simp)).root s hs).2.2
        omega
      · have hcover : s.stop ≤ no.span.stop := ((h.clear.covers no (by simp)).root s hs).2.2
        omega
  · show condition.span.start ≤ max no.span.stop yes.span.stop
    omega

end Expr.Laid

end FlowExpr
