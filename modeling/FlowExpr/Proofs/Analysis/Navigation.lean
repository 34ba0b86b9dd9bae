import FlowExpr.Proofs.Analysis.Positions

/-!
# Navigation there and back

From a name to what it means, and from a symbol to the names that mean it. The first searches
the expression at a caret, the second lists the references of every expression; the first looks
from where the caret is, the second from where the expression begins. Where both see the same
scope they are inverse to each other:

* `Analysis.expressionAt?_eq_some`: a caret in an expression is in no other one;
* `Analysis.resolveAt_eq`: a caret at a name means what the reference of that name means;
* `Analysis.mem_usagesIn`: the usages of a symbol are the references that mean it.
-/

namespace FlowExpr

open Text (byteLength)

/-- Expressions that a caret is in are one expression. -/
theorem embedded_unique {text : List Char} {d e : Embedded} (hd : d ∈ embedded text)
    (he : e ∈ embedded text) {o : Nat} (hdo : d.inner.touches o = true)
    (heo : e.inner.touches o = true) : d = e := by
  obtain ⟨front, back, hsplit⟩ := List.append_of_mem hd
  have hpairs := embedded_pairwise text
  rw [hsplit] at hpairs he
  obtain ⟨-, hback, hcross⟩ := List.pairwise_append.mp hpairs
  rcases List.mem_append.mp he with he | he
  · exact absurd ⟨heo, hdo⟩ ((hcross e he d List.mem_cons_self).2 o)
  · rcases List.mem_cons.mp he with rfl | he
    · rfl
    · exact absurd ⟨hdo, heo⟩ (((List.pairwise_cons.mp hback).1 e he).2 o)

namespace Analysis

variable {text : List Char} {a : Analysis} {e : Embedded} {o : Nat}

/-! ## 1. From a name to its meaning -/

theorem expressionAt?_eq_some (hes : a.document.expressions = embedded text)
    (he : e ∈ embedded text) (ho : e.inner.touches o = true) : a.expressionAt? o = some e := by
  unfold expressionAt?
  rw [hes]
  cases hfind : (embedded text).find? fun e => e.inner.touches o with
  | none => exact absurd ho (by simpa using List.find?_eq_none.mp hfind e he)
  | some d =>
    have hdo : d.inner.touches o = true := by simpa using List.find?_some hfind
    rw [embedded_unique (List.mem_of_find?_eq_some hfind) he hdo ho]

/-- A caret at a name of an expression is in its range. -/
theorem touches_of_reference (he : e ∈ embedded text) {r : Reference}
    (hr : r ∈ references (parse e).root) (ho : r.nameSpan.contains o = true) :
    e.inner.touches o = true := by
  obtain ⟨hstart, hstop⟩ := Span.contains_iff.mp ho
  obtain ⟨h₁, -, h₃⟩ := (nameSpan_inside he hr).2
  exact Span.touches_iff.mpr ⟨by omega, by omega⟩

/-- **A caret at a name means what the reference of that name means**, in the scope at the
    caret. -/
theorem resolveAt_eq (hes : a.document.expressions = embedded text)
    (htext : a.document.text = text) (hc : a.cancelled = false) (he : e ∈ embedded text)
    {r : Reference} (hr : r ∈ references (parse e).root) (ho : r.nameSpan.contains o = true) :
    a.resolveAt o = .ok (resolveIn (a.scopeAt o) r) := by
  have htouch := touches_of_reference he hr ho
  have hsize : a.checkOffset o = .ok () := by
    obtain ⟨-, -, hclosed, hend⟩ := embedded_inside he
    have hlast := (Span.touches_iff.mp htouch).2
    unfold checkOffset Document.size
    rw [htext, if_neg (by omega)]
  have hcheck : a.checkCancelled = .ok () := by
    unfold checkCancelled
    rw [hc]
    rfl
  -- names of a parsed tree keep apart, so the search by place finds the one at the caret
  have hlocate : locate? (parse e).root o = some r := by
    obtain ⟨⟨last, hlaid⟩, -⟩ := parse_laid he
    exact locateIn?_of_mem hlaid.clear hr ho
  unfold resolveAt
  rw [hsize, expressionAt?_eq_some hes he htouch]
  show (do a.checkCancelled; _) = _
  rw [hcheck, hlocate]
  rfl

/-! ## 2. From a symbol to its names -/

/-- The usages of a symbol in an expression are the references that mean it. -/
theorem mem_usagesIn {symbol : Symbol} {l : Location} :
    l ∈ a.usagesIn symbol e ↔ ∃ r ∈ references (parse e).root, ∃ found,
      (resolveIn (a.scopeAt e.inner.start) r).symbol? = some found ∧
        found.same symbol = true ∧ a.location r.nameSpan = l := by
  unfold usagesIn
  simp only [List.mem_map, List.mem_filter]
  constructor
  · rintro ⟨r, ⟨hr, hmeans⟩, rfl⟩
    obtain ⟨found, hfound, hsame⟩ := (Option.any_eq_true _ _).mp hmeans
    exact ⟨r, hr, found, hfound, hsame, rfl⟩
  · rintro ⟨r, hr, found, hfound, hsame, rfl⟩
    exact ⟨r, ⟨hr, by rw [hfound]; exact hsame⟩, rfl⟩

/-- A usage inside the range of an expression is one of that expression. -/
theorem mem_usagesIn_of_inside (hes : a.document.expressions = embedded text)
    (he : e ∈ embedded text) {symbol : Symbol} {l : Location} (hl : l ∈ a.usages symbol)
    (hin : l.span.Inside e.inner) : l ∈ a.usagesIn symbol e := by
  unfold usages at hl
  split at hl
  · exact absurd hl List.not_mem_nil
  · rw [hes] at hl
    obtain ⟨d, hd, hl⟩ := List.mem_flatMap.mp hl
    have hin' := (usagesIn_inside hd symbol l hl).2
    have htouch : ∀ {s : Span}, l.span.Inside s → s.touches l.span.start = true := fun h =>
      Span.touches_iff.mpr ⟨h.1, Nat.le_trans h.2.1 h.2.2⟩
    -- no caret is in two expressions, so the one it comes from is `e`
    rwa [embedded_unique he hd (htouch hin) (htouch hin')]

end Analysis

/-- **Going to a meaning and finding its names are inverse**, whatever structure was loaded from
    the text. In an expression that sees one scope throughout, a caret at a name gives what the
    name's reference means in that scope below its lambdas, and the name is among the usages of
    the symbol it means; and a caret at the beginning of a usage of a symbol inside the expression
    gives the same symbol. -/
theorem resolveAt_usages_inverse (text : List Char)
    (loaded : Except Yaml.LoadError (Option Yaml.Node)) (settings : Settings) :
    let a : Analysis := ⟨Document.ofStructure text loaded, settings, false⟩
    ∀ e ∈ embedded text, ∀ scope, (∀ o, e.inner.touches o = true → a.scopeAt o = scope) →
      (∀ r ∈ references (Analysis.parse e).root, ∀ o,
        r.nameSpan.start ≤ o → o < r.nameSpan.stop →
          a.resolveAt o = .ok (resolve (scope.withParams r.params) r.node) ∧
          ∀ s, (resolve (scope.withParams r.params) r.node).symbol? = some s →
            a.location r.nameSpan ∈ a.usages s) ∧
      ∀ symbol, ∀ l ∈ a.usages symbol, l.span.Inside e.inner →
        ∃ result found, a.resolveAt l.span.start = .ok result ∧ result.symbol? = some found ∧
          found.name = symbol.name ∧ found.declaredAt = symbol.declaredAt ∧
          found.origin = symbol.origin := by
  intro a e he scope hscope
  have hes : a.document.expressions = embedded text := rfl
  have hstart : a.scopeAt e.inner.start = scope :=
    hscope _ (Span.touches_iff.mpr ⟨Nat.le_refl _, (embedded_inside he).2.1⟩)
  have hresolve : ∀ r ∈ references (Analysis.parse e).root, ∀ o, r.nameSpan.contains o = true →
      a.resolveAt o = .ok (Analysis.resolveIn scope r) := by
    intro r hr o ho
    rw [Analysis.resolveAt_eq hes rfl rfl he hr ho,
      hscope o (Analysis.touches_of_reference he hr ho)]
  refine ⟨fun r hr o h₁ h₂ => ⟨hresolve r hr o (Span.contains_iff.mpr ⟨h₁, h₂⟩), ?_⟩, ?_⟩
  · intro s hs
    have hmeans : a.location r.nameSpan ∈ a.usagesIn s e :=
      Analysis.mem_usagesIn.mpr ⟨r, hr, s, hstart ▸ hs, Declared.same_refl s, rfl⟩
    show _ ∈ a.document.expressions.flatMap _
    rw [hes]
    exact List.mem_flatMap.mpr ⟨e, he, hmeans⟩
  · intro symbol l hl hin
    obtain ⟨r, hr, found, hfound, hsame, rfl⟩ :=
      Analysis.mem_usagesIn.mp (Analysis.mem_usagesIn_of_inside hes he hl hin)
    rw [hstart] at hfound
    have hne := (Analysis.nameSpan_inside he hr).1
    exact ⟨_, found, hresolve r hr _ (Span.contains_iff.mpr ⟨Nat.le_refl _, hne⟩), hfound,
      Declared.same_iff.mp hsame⟩

/-- A name below the lambda that binds it: `a->a`. -/
theorem resolveAt_usages_lambda :
    let text := ['k', ':', ' ', '$', '{', 'a', '-', '>', 'a', '}']
    let a : Analysis := ⟨Document.ofText text, {}, false⟩
    let e : Embedded := ⟨⟨3, 10⟩, ⟨5, 9⟩, true, ['a', '-', '>', 'a'], [5, 6, 7, 8, 9]⟩
    let param : Param := ⟨"a", ⟨5, 6⟩⟩
    e ∈ embedded text ∧ (∀ o, e.inner.touches o = true → a.scopeAt o = a.scopeAt 0) ∧
      ⟨.identifier "a" ⟨8, 9⟩, ⟨8, 9⟩, [param]⟩ ∈ references (Analysis.parse e).root ∧
      a.resolveAt 8 = .ok (resolve ((a.scopeAt 0).withParams [param]) (.identifier "a" ⟨8, 9⟩)) ∧
      a.location ⟨8, 9⟩ ∈ a.usages (Scope.lambdaParameter param) := by
  intro text a e param
  have he : e ∈ embedded text := by decide
  have hflows : a.document.flows = [] := List.length_eq_zero_iff.mp (by decide +kernel)
  have hscope : ∀ o, e.inner.touches o = true → a.scopeAt o = a.scopeAt 0 := by
    intro o _
    simp only [Analysis.scopeAt, Document.scopeAt, Document.flowAt?, hflows]
    rfl
  have hreferences : references (Analysis.parse e).root =
      [⟨.identifier "a" ⟨8, 9⟩, ⟨8, 9⟩, [param]⟩] := by cbv
  have hr : ⟨.identifier "a" ⟨8, 9⟩, ⟨8, 9⟩, [param]⟩ ∈ references (Analysis.parse e).root := by
    rw [hreferences]
    exact List.mem_singleton_self _
  obtain ⟨hmeaning, husage⟩ :=
    (resolveAt_usages_inverse text (Document.structureOf text) {} e he (a.scopeAt 0) hscope).1 _ hr
      8 (Nat.le_refl _) (by decide)
  exact ⟨he, hscope, hr, hmeaning, husage _ rfl⟩

end FlowExpr
