import FlowExpr.Proofs.Span
import FlowExpr.Scope.Reference

/-!
# Searching and listing references agree

The references of a tree are found in two ways: by listing all of them, and by searching for
the one at a caret. The search looks only into nodes that the caret touches and stops at the
first name that it touches, so it can miss what the listing has, unless the tree is in order:

* `Expr.names`: the ranges of the names that a tree refers by;
* `Expr.Clear`: the leaves of several trees follow one another with gaps, and every node covers
  the names below it;
* `locateIn?_of_mem`: in a clear tree, a caret at a name finds the reference of that name.
-/

namespace FlowExpr

namespace Expr

/-! ## 1. Trees by their parts -/

theorem sizeOf_lt_of_mem_children {x e : Expr} (h : x ∈ e.children) : sizeOf x < sizeOf e := by
  cases e with
  | call target args span =>
    rcases List.mem_cons.mp h with rfl | h
    · simp +arith
    · have hlt := List.sizeOf_lt_of_mem h
      simp +arith
      omega
  | list items span | set items span =>
    have hlt : sizeOf x < sizeOf items := List.sizeOf_lt_of_mem h
    simp +arith
    omega
  | map entries span =>
    obtain ⟨⟨key, value⟩, hentry, hx⟩ := List.mem_flatMap.mp h
    have hlt := List.sizeOf_lt_of_mem hentry
    have hpart : x = key ∨ x = value := by simpa using hx
    rcases hpart with rfl | rfl <;> simp +arith at hlt ⊢ <;> omega
  | literal | identifier | error => exact absurd h List.not_mem_nil
  | property target name nameSpan span =>
    rw [List.mem_singleton.mp h]
    simp +arith
  | unary op operand span =>
    rw [List.mem_singleton.mp h]
    simp +arith
  | lambda params body span =>
    rw [List.mem_singleton.mp h]
    simp +arith
  | index target i span =>
    have hpart : x = target ∨ x = i := by simpa [children] using h
    rcases hpart with rfl | rfl <;> simp +arith
  | binary op left right span =>
    have hpart : x = left ∨ x = right := by simpa [children] using h
    rcases hpart with rfl | rfl <;> simp +arith
  | ternary condition yes no span =>
    have hpart : x = condition ∨ x = yes ∨ x = no := by simpa [children] using h
    rcases hpart with rfl | rfl | rfl <;> simp +arith

/-- What holds of a tree whenever it holds of its direct parts holds of every tree. -/
theorem children_induction {P : Expr → Prop} (h : ∀ e, (∀ x ∈ e.children, P x) → P e)
    (e : Expr) : P e :=
  h e fun x hx =>
    have _hlt := sizeOf_lt_of_mem_children hx
    children_induction h x
termination_by sizeOf e
decreasing_by exact _hlt

/-- Every node of the tree has a property. -/
inductive All (P : Expr → Prop) : Expr → Prop where
  | node {e : Expr} (root : P e) (parts : ∀ x ∈ e.children, All P x) : All P e

theorem All.root {P : Expr → Prop} {e : Expr} (h : e.All P) : P e := by
  cases h with
  | node root parts => exact root

theorem All.parts {P : Expr → Prop} {e : Expr} (h : e.All P) : ∀ x ∈ e.children, x.All P := by
  cases h with
  | node root parts => exact parts

/-- All that the node has are its parts: it is no leaf, no property and no lambda. -/
def isJoin : Expr → Bool
  | index .. | call .. | binary .. | unary .. | ternary .. | list .. | set .. | map .. => true
  | _ => false

theorem leavesOfList_eq_flatMap (es : List Expr) : leavesOfList es = es.flatMap leaves := by
  induction es with
  | nil => rfl
  | cons e es ih => rw [leavesOfList, ih, List.flatMap_cons]

theorem leavesOfEntries_eq_flatMap (entries : List (Expr × Expr)) :
    leavesOfEntries entries =
      (entries.flatMap fun entry => [entry.1, entry.2]).flatMap leaves := by
  induction entries with
  | nil => rfl
  | cons entry entries ih =>
    obtain ⟨key, value⟩ := entry
    simp [leavesOfEntries, ih]

theorem leaves_of_isJoin {e : Expr} (h : e.isJoin = true) :
    e.leaves = e.children.flatMap leaves := by
  cases e <;> simp_all [isJoin, leaves, children, leavesOfList_eq_flatMap,
    leavesOfEntries_eq_flatMap]

/-- The leaves of the parts of a tree are among its leaves, in their order. -/
theorem leaves_children_sublist (e : Expr) : (e.children.flatMap leaves).Sublist e.leaves := by
  by_cases h : e.isJoin = true
  · exact leaves_of_isJoin h ▸ List.Sublist.refl _
  · cases e <;> simp_all [isJoin, leaves, children]

end Expr

/-! ## 2. Names -/

theorem referencesInList_eq_flatMap (params : List Param) (es : List Expr) :
    referencesInList params es = es.flatMap (referencesIn params) := by
  induction es with
  | nil => rfl
  | cons e es ih => rw [referencesInList, ih, List.flatMap_cons]

theorem referencesInEntries_eq_flatMap (params : List Param) (entries : List (Expr × Expr)) :
    referencesInEntries params entries =
      (entries.flatMap fun entry => [entry.1, entry.2]).flatMap (referencesIn params) := by
  induction entries with
  | nil => rfl
  | cons entry entries ih =>
    obtain ⟨key, value⟩ := entry
    simp [referencesInEntries, ih]

namespace Expr

/-- The range of the name that a node calls directly. -/
def callee? : Expr → Option Span
  | call (identifier _ nameSpan) _ _ => some nameSpan
  | _ => none

end Expr

theorem referencesIn_of_isJoin {e : Expr} (h : e.isJoin = true) (hc : e.callee? = none)
    (params : List Param) :
    referencesIn params e = e.children.flatMap (referencesIn params) := by
  cases e with
  | call target args span =>
    cases target <;> simp_all [Expr.callee?, referencesIn, Expr.children,
      referencesInList_eq_flatMap]
  | _ => simp_all [Expr.isJoin, referencesIn, Expr.children, referencesInList_eq_flatMap,
      referencesInEntries_eq_flatMap]

/-- Ranges of the names that a tree refers by, in source order. -/
def Expr.names (e : Expr) : List Span := (references e).map Reference.nameSpan

/-- A call of a bare name takes the place of that name, so the names of a node without names of
    its own are those of its parts. -/
theorem map_nameSpan_of_isJoin {e : Expr} (h : e.isJoin = true) (params : List Param) :
    (referencesIn params e).map Reference.nameSpan =
      e.children.flatMap fun x => (referencesIn params x).map Reference.nameSpan := by
  cases e with
  | call target args span =>
    cases target <;> simp [referencesIn, Expr.children, referencesInList_eq_flatMap,
      List.map_flatMap]
  | _ => simp_all [Expr.isJoin, referencesIn, Expr.children, referencesInList_eq_flatMap,
      referencesInEntries_eq_flatMap, List.map_flatMap, List.flatMap_assoc]

/-- Lambdas around a tree do not change which names it has. -/
theorem map_nameSpan_referencesIn (params : List Param) (e : Expr) :
    (referencesIn params e).map Reference.nameSpan = e.names := by
  have h : ∀ e : Expr, ∀ ps qs : List Param,
      (referencesIn ps e).map Reference.nameSpan = (referencesIn qs e).map Reference.nameSpan := by
    refine Expr.children_induction fun e ih ps qs => ?_
    have hjoin : e.isJoin = true → (referencesIn ps e).map Reference.nameSpan =
        (referencesIn qs e).map Reference.nameSpan := by
      intro hj
      rw [map_nameSpan_of_isJoin hj, map_nameSpan_of_isJoin hj, List.flatMap_def,
        List.flatMap_def, List.map_congr_left fun x hx => ih x hx ps qs]
    cases e with
    | literal | identifier | error => rfl
    | property target name nameSpan span =>
      have htarget := ih target (List.mem_singleton_self _) ps qs
      cases name <;> simp [referencesIn, htarget]
    | lambda inner body span =>
      exact ih body (List.mem_singleton_self _) (ps ++ inner) (qs ++ inner)
    | _ => exact hjoin rfl
  exact h e params []

namespace Expr

theorem names_of_isJoin {e : Expr} (h : e.isJoin = true) :
    e.names = e.children.flatMap names :=
  map_nameSpan_of_isJoin h []

@[simp] theorem names_identifier (name : String) (s : Span) :
    (identifier name s).names = [s] := rfl

@[simp] theorem names_property (target : Expr) (name : Option String) (nameSpan s : Span) :
    (property target name nameSpan s).names =
      target.names ++ if name.isSome then [nameSpan] else [] := by
  cases name <;> simp [names, references, referencesIn]

@[simp] theorem names_lambda (params : List Param) (body : Expr) (s : Span) :
    (lambda params body s).names = body.names :=
  map_nameSpan_referencesIn params body

/-- **Names are leaves**, in their order. -/
theorem names_sublist_leaves (e : Expr) : e.names.Sublist e.leaves := by
  induction e using children_induction with
  | h e ih =>
    have hparts : (e.children.flatMap names).Sublist e.leaves := by
      refine .trans ?_ e.leaves_children_sublist
      generalize e.children = es at ih ⊢
      induction es with
      | nil => exact .refl _
      | cons x es ihs =>
        rw [List.flatMap_cons, List.flatMap_cons]
        exact (ih x List.mem_cons_self).append (ihs fun y hy => ih y (List.mem_cons_of_mem _ hy))
    cases e with
    | literal | error => exact List.nil_sublist _
    | identifier name s => exact .refl _
    | property target name nameSpan s =>
      rw [names_property]
      refine (ih target (List.mem_singleton_self _)).append ?_
      split
      · exact .refl _
      · exact List.nil_sublist _
    | lambda params body s =>
      rw [names_lambda]
      simpa [children] using hparts
    | _ =>
      rw [names_of_isJoin rfl]
      exact hparts

theorem names_subset_leaves (e : Expr) : e.names ⊆ e.leaves := e.names_sublist_leaves.subset

/-! ## 3. Clear trees -/

/-- The leaves of the trees follow one another with gaps, and every node covers its names. -/
structure Clear (es : List Expr) : Prop where
  before : (es.flatMap leaves).Pairwise Span.Before
  covers : ∀ e ∈ es, e.All fun x => ∀ s ∈ x.names, s.Inside x.span

theorem Clear.children {e : Expr} (h : Clear [e]) : Clear e.children := by
  have hleaves := h.before
  rw [List.flatMap_singleton] at hleaves
  exact ⟨hleaves.sublist e.leaves_children_sublist,
    (h.covers e (List.mem_singleton_self _)).parts⟩

theorem Clear.of_mem {e : Expr} {es : List Expr} (h : Clear es) (he : e ∈ es) : Clear [e] := by
  refine ⟨?_, fun x hx => h.covers x (List.mem_singleton.mp hx ▸ he)⟩
  have hleaves := h.before
  rw [List.flatMap_def] at hleaves
  rw [List.flatMap_singleton]
  exact hleaves.sublist (List.sublist_flatten_of_mem (List.mem_map_of_mem he))

theorem Clear.tail {e : Expr} {es : List Expr} (h : Clear (e :: es)) : Clear es := by
  have hleaves := h.before
  rw [List.flatMap_cons] at hleaves
  exact ⟨(List.pairwise_append.mp hleaves).2.1,
    fun x hx => h.covers x (List.mem_cons_of_mem _ hx)⟩

end Expr

/-- The range of a reference is a name of its tree. -/
theorem nameSpan_mem_names {params : List Param} {e : Expr} {r : Reference}
    (hr : r ∈ referencesIn params e) : r.nameSpan ∈ e.names := by
  rw [← map_nameSpan_referencesIn params e]
  exact List.mem_map_of_mem hr

/-! ## 4. The search -/

section Search

variable {o : Nat}

theorem locateInEntries?_eq_list (params : List Param) (entries : List (Expr × Expr)) :
    locateInEntries? o params entries =
      locateInList? o params (entries.flatMap fun entry => [entry.1, entry.2]) := by
  induction entries with
  | nil => rfl
  | cons entry entries ih =>
    obtain ⟨key, value⟩ := entry
    rw [locateInEntries?, ih]
    rfl

/-- A node that the caret touches, and that has no name of its own, is searched by its parts. -/
theorem locateIn?_of_isJoin {e : Expr} (h : e.isJoin = true) (hc : e.callee? = none)
    (ht : e.span.touches o = true) (params : List Param) :
    locateIn? o params e = locateInList? o params e.children := by
  cases e with
  | call target args span =>
    cases target <;> simp_all [Expr.callee?, locateIn?, Expr.children, locateInList?]
  | _ => simp_all [Expr.isJoin, locateIn?, Expr.children, locateInList?,
      locateInEntries?_eq_list]

/-- What the search finds in a row of trees it finds in one of them. -/
theorem exists_of_locateInList? {params : List Param} {es : List Expr} {r : Reference}
    (h : locateInList? o params es = some r) : ∃ e ∈ es, locateIn? o params e = some r := by
  induction es with
  | nil => cases h
  | cons e es ih =>
    rcases Option.or_eq_some_iff.mp h with h | ⟨-, h⟩
    · exact ⟨e, List.mem_cons_self, h⟩
    · obtain ⟨x, hx, h⟩ := ih h
      exact ⟨x, List.mem_cons_of_mem _ hx, h⟩

theorem touches_of_locateIn? {params : List Param} {e : Expr} {r : Reference}
    (h : locateIn? o params e = some r) : e.span.touches o = true := by
  refine Classical.byContradiction fun ht => ?_
  rw [locateIn?.eq_def, if_pos (by simpa using ht)] at h
  cases h

theorem locateIn?_property {target : Expr} {name : Option String} {nameSpan span : Span}
    (ht : (Expr.property target name nameSpan span).span.touches o = true) (params : List Param) :
    locateIn? o params (.property target name nameSpan span) =
      if nameSpan.touches o then some ⟨.property target name nameSpan span, nameSpan, params⟩
      else locateIn? o params target := by
  rw [locateIn?, if_neg (by simpa using ht)]

theorem locateIn?_bareCall {name : String} {nameSpan span : Span} {args : List Expr}
    (ht : (Expr.call (.identifier name nameSpan) args span).span.touches o = true)
    (params : List Param) :
    locateIn? o params (.call (.identifier name nameSpan) args span) =
      if nameSpan.touches o then
        some ⟨.call (.identifier name nameSpan) args span, nameSpan, params⟩
      else locateInList? o params args := by
  rw [locateIn?, if_neg (by simpa using ht)]

theorem locateIn?_lambda {inner : List Param} {body : Expr} {span : Span}
    (ht : (Expr.lambda inner body span).span.touches o = true) (params : List Param) :
    locateIn? o params (.lambda inner body span) = locateIn? o (params ++ inner) body := by
  rw [locateIn?, if_neg (by simpa using ht)]

/-- **The search finds a leaf that the caret touches.** -/
theorem leaf_of_locateIn? {e : Expr} {params : List Param} {r : Reference}
    (h : locateIn? o params e = some r) :
    r.nameSpan ∈ e.leaves ∧ r.nameSpan.touches o = true := by
  induction e using Expr.children_induction generalizing params with
  | h e ih =>
    have ht := touches_of_locateIn? h
    have hpart : ∀ {ps : List Param} {x : Expr}, x ∈ e.children → locateIn? o ps x = some r →
        r.nameSpan ∈ e.leaves ∧ r.nameSpan.touches o = true := by
      intro ps x hx h
      obtain ⟨hleaf, htouch⟩ := ih x hx h
      exact ⟨e.leaves_children_sublist.subset (List.mem_flatMap.mpr ⟨x, hx, hleaf⟩), htouch⟩
    have hjoin : e.isJoin = true → e.callee? = none →
        r.nameSpan ∈ e.leaves ∧ r.nameSpan.touches o = true := by
      intro hj hc
      rw [locateIn?_of_isJoin hj hc ht] at h
      obtain ⟨x, hx, h⟩ := exists_of_locateInList? h
      exact hpart hx h
    cases e with
    | literal value s => simp [locateIn?] at h
    | identifier name s =>
      simp only [locateIn?] at h
      split at h <;> cases h
      exact ⟨List.mem_singleton_self _, ht⟩
    | error s =>
      simp only [locateIn?] at h
      split at h <;> cases h
      exact ⟨List.mem_singleton_self _, ht⟩
    | property target name nameSpan s =>
      rw [locateIn?_property ht] at h
      split at h
      · cases h
        exact ⟨List.mem_append_right _ (List.mem_singleton_self _), by assumption⟩
      · exact hpart (List.mem_singleton_self _) h
    | lambda inner body s =>
      rw [locateIn?_lambda ht] at h
      exact hpart (List.mem_singleton_self _) h
    | call target args s =>
      cases target with
      | identifier name nameSpan =>
        rw [locateIn?_bareCall ht] at h
        split at h
        · cases h
          exact ⟨List.mem_append_left _ (List.mem_singleton_self _), by assumption⟩
        · obtain ⟨x, hx, h⟩ := exists_of_locateInList? h
          exact hpart (List.mem_cons_of_mem _ hx) h
      | _ => exact hjoin rfl rfl
    | _ => exact hjoin rfl rfl

/-- Nothing is found in a tree whose leaves are all over. -/
theorem locateIn?_eq_none {e : Expr} (h : ∀ l ∈ e.leaves, l.stop < o) (params : List Param) :
    locateIn? o params e = none := by
  refine Option.eq_none_iff_forall_ne_some.mpr fun r hr => ?_
  obtain ⟨hleaf, htouch⟩ := leaf_of_locateIn? hr
  have hover := h _ hleaf
  have hreach := (Span.touches_iff.mp htouch).2
  omega

/-- In a clear row of trees the search gets to the tree that has the name, given that it finds
    the name in there. -/
theorem locateInList?_of_mem {params : List Param} {es : List Expr} (hes : Expr.Clear es)
    {r : Reference} (hr : r ∈ es.flatMap (referencesIn params))
    (ho : r.nameSpan.contains o = true)
    (hfind : ∀ e ∈ es, r ∈ referencesIn params e → locateIn? o params e = some r) :
    locateInList? o params es = some r := by
  induction es with
  | nil => exact absurd hr List.not_mem_nil
  | cons e es ih =>
    rw [locateInList?]
    rcases List.mem_append.mp (List.flatMap_cons ▸ hr) with hr | hr
    · rw [hfind e List.mem_cons_self hr, Option.some_or]
    · have hname : r.nameSpan ∈ es.flatMap Expr.leaves := by
        obtain ⟨x, hx, hr⟩ := List.mem_flatMap.mp hr
        exact List.mem_flatMap.mpr ⟨x, hx, x.names_subset_leaves (nameSpan_mem_names hr)⟩
      have hbefore := hes.before
      rw [List.flatMap_cons] at hbefore
      have hcross := (List.pairwise_append.mp hbefore).2.2
      obtain ⟨hstart, hstop⟩ := Span.contains_iff.mp ho
      have hover : ∀ l ∈ e.leaves, l.stop < o := by
        intro l hl
        have hgap := (hcross l hl _ hname).2 (Nat.lt_of_le_of_lt hstart hstop)
        omega
      rw [locateIn?_eq_none hover, Option.none_or]
      exact ih hes.tail hr fun x hx => hfind x (List.mem_cons_of_mem _ hx)

/-- A caret at a name of a property: at that of the property itself, or in the target. -/
theorem locateIn?_property_of_mem {target : Expr} {name : Option String} {nameSpan s : Span}
    (he : Expr.Clear [.property target name nameSpan s])
    (ht : (Expr.property target name nameSpan s).span.touches o = true) {params : List Param}
    {r : Reference} (hr : r ∈ referencesIn params (.property target name nameSpan s))
    (ho : r.nameSpan.contains o = true)
    (hfind : r ∈ referencesIn params target → locateIn? o params target = some r) :
    locateIn? o params (.property target name nameSpan s) = some r := by
  have hbefore := he.before
  rw [List.flatMap_singleton] at hbefore
  rw [locateIn?_property ht]
  rcases List.mem_append.mp hr with hr | hr
  · -- the target is over before the name begins, so the caret is not at the name
    have hleaf := target.names_subset_leaves (nameSpan_mem_names hr)
    have hgap := (List.pairwise_append.mp hbefore).2.2 _ hleaf _ (List.mem_singleton_self _)
    rw [if_neg fun h => ?_]
    · exact hfind hr
    · have hstop := (Span.contains_iff.mp ho).2
      have hlate := (Span.touches_iff.mp h).1
      have hfirst := hgap.1
      omega
  · cases name with
    | none => exact absurd hr List.not_mem_nil
    | some name =>
      obtain rfl := List.mem_singleton.mp hr
      rw [if_pos (Span.touches_of_contains ho)]

/-- A caret at a name of a call of a bare name: at the name that is called, or in the
    arguments. -/
theorem locateIn?_bareCall_of_mem {name : String} {nameSpan s : Span} {args : List Expr}
    (he : Expr.Clear [.call (.identifier name nameSpan) args s])
    (ht : (Expr.call (.identifier name nameSpan) args s).span.touches o = true)
    {params : List Param} {r : Reference}
    (hr : r ∈ referencesIn params (.call (.identifier name nameSpan) args s))
    (ho : r.nameSpan.contains o = true)
    (hfind : ∀ x ∈ args, r ∈ referencesIn params x → locateIn? o params x = some r) :
    locateIn? o params (.call (.identifier name nameSpan) args s) = some r := by
  have hbefore := he.before
  rw [List.flatMap_singleton] at hbefore
  rw [locateIn?_bareCall ht]
  rcases List.mem_cons.mp hr with rfl | hr
  · rw [if_pos (Span.touches_of_contains ho)]
  · -- the name that is called is over before those of the arguments begin
    rw [referencesInList_eq_flatMap] at hr
    obtain ⟨x, hx, hrx⟩ := List.mem_flatMap.mp hr
    have hleaf : r.nameSpan ∈ Expr.leavesOfList args := by
      rw [Expr.leavesOfList_eq_flatMap]
      exact List.mem_flatMap.mpr ⟨x, hx, x.names_subset_leaves (nameSpan_mem_names hrx)⟩
    have hgap := (List.pairwise_cons.mp hbefore).1 _ hleaf
    rw [if_neg fun h => ?_]
    · exact locateInList?_of_mem he.children.tail hr ho hfind
    · obtain ⟨hstart, hstop⟩ := Span.contains_iff.mp ho
      have hearly := (Span.touches_iff.mp h).2
      have hfirst := hgap.2 (Nat.lt_of_le_of_lt hstart hstop)
      omega

/-- **In a clear tree, a caret at a name finds the reference of that name.** -/
theorem locateIn?_of_mem {e : Expr} (he : Expr.Clear [e]) {params : List Param} {r : Reference}
    (hr : r ∈ referencesIn params e) (ho : r.nameSpan.contains o = true) :
    locateIn? o params e = some r := by
  induction e using Expr.children_induction generalizing params with
  | h e ih =>
    obtain ⟨hstart, hstop⟩ := Span.contains_iff.mp ho
    have ht : e.span.touches o = true := by
      have hcover := (he.covers e (List.mem_singleton_self _)).root _ (nameSpan_mem_names hr)
      exact Span.touches_iff.mpr ⟨Nat.le_trans hcover.1 hstart,
        Nat.le_trans (Nat.le_of_lt hstop) hcover.2.2⟩
    have hpart : ∀ x ∈ e.children, r ∈ referencesIn params x → locateIn? o params x = some r :=
      fun x hx hr => ih x hx (he.children.of_mem hx) hr
    have hjoin : e.isJoin = true → e.callee? = none → locateIn? o params e = some r := by
      intro hj hc
      rw [locateIn?_of_isJoin hj hc ht]
      rw [referencesIn_of_isJoin hj hc] at hr
      exact locateInList?_of_mem he.children hr ho hpart
    cases e with
    | literal | error => exact absurd hr List.not_mem_nil
    | identifier name s =>
      obtain rfl := List.mem_singleton.mp hr
      rw [locateIn?, if_neg (by simpa [Expr.span] using ht)]
    | property target name nameSpan s =>
      exact locateIn?_property_of_mem he ht hr ho (hpart target (List.mem_singleton_self _))
    | lambda inner body s =>
      rw [locateIn?_lambda ht]
      exact ih body (List.mem_singleton_self _) he.children hr
    | call target args s =>
      cases target with
      | identifier name nameSpan =>
        exact locateIn?_bareCall_of_mem he ht hr ho fun x hx => hpart x (List.mem_cons_of_mem _ hx)
      | _ => exact hjoin rfl rfl
    | _ => exact hjoin rfl rfl

end Search

end FlowExpr
