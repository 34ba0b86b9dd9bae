import FlowExpr.Proofs.Analysis.Navigation
import FlowExpr.Proofs.Outline.Bounds
import FlowExpr.Proofs.Scope.Sources
import Mathlib.Data.List.Pairwise

/-!
# Usages from a declaration and from a reference

The usages of a symbol can be asked for where it is declared and wherever it is used. At the
declaration the symbol is taken from the outline of the document; at a reference it comes out of
a scope, where its type and shape may have changed on the way. What is compared is only the
name, the place and the origin, and these agree:

* `Declared.touchedAt`: a caret is at the place of a declaration;
* `Document.Apart`: no caret is at two of them;
* `Analysis.usages_congr`: the usages of a symbol depend on its name, place and origin;
* `Analysis.from_of_resolveIn`: a bare name that is declared in the document means one of the
  declarations of the document;
* `Analysis.symbolAt_eq`: where declarations are apart, each is found at its place.
-/

namespace FlowExpr

/-- A caret at the offset is at the place where the symbol is declared. -/
def Declared.touchedAt (s : Symbol) (o : Nat) : Bool :=
  s.declaredAt.span?.any fun span => span.touches o

/-- No caret is at both places of declaration. -/
def Declared.Apart (s t : Symbol) : Prop :=
  ∀ o, ¬(s.touchedAt o = true ∧ t.touchedAt o = true)

instance : Std.Symm Declared.Apart := ⟨fun _ _ h o hboth => h o hboth.symm⟩

/-- No caret is at the places of two declarations. -/
def Document.Apart (d : Document) : Prop :=
  ∀ s ∈ d.declarations, ∀ t ∈ d.declarations, s ≠ t → Declared.Apart s t

/-- It is enough to look at each entry of the declarations and those after it. -/
theorem Document.apart_of_pairwise {d : Document} (h : d.declarations.Pairwise Declared.Apart) :
    d.Apart := fun _ hs _ ht hne => h.forall hs ht hne

theorem Declared.touchedAt_iff {s : Symbol} {span : Span} (h : s.declaredAt = .document span)
    {o : Nat} : s.touchedAt o = true ↔ span.touches o = true := by
  rw [touchedAt, h]
  rfl

/-- Symbols that stand for the same declaration are the same to every symbol. -/
theorem Declared.same_congr {s t : Symbol} (h : s.same t = true) (found : Symbol) :
    found.same s = found.same t := by
  obtain ⟨hname, hplace, horigin⟩ := same_iff.mp h
  rw [same, same, hname, hplace, horigin]

namespace Analysis

variable {a : Analysis} {e : Embedded} {o : Nat} {r : Reference} {s t : Symbol}

/-! ## 1. Usages of a symbol -/

theorem usages_congr (h : s.same t = true) : a.usages s = a.usages t := by
  have hin : a.usagesIn s = a.usagesIn t := by
    funext e
    unfold usagesIn
    simp only [Declared.same_congr h]
  rw [usages, usages, hin]

/-! ## 2. Symbols of references -/

/-- A caret at a reference gives what the reference means there. -/
theorem resolveAt_inv (he : a.expressionAt? o = some e) (hr : locate? (parse e).root o = some r)
    {result : Resolution} (h : a.resolveAt o = .ok result) :
    a.checkOffset o = .ok () ∧ result = resolveIn (a.scopeAt o) r := by
  unfold resolveAt at h
  cases hoffset : a.checkOffset o with
  | error failure =>
    rw [hoffset] at h
    cases h
  | ok _ =>
    rw [hoffset, he] at h
    cases hcancelled : a.checkCancelled with
    | error failure => simp [bind, Except.bind, hcancelled] at h
    | ok _ =>
      simp only [bind, Except.bind, hcancelled, hr] at h
      cases h
      exact ⟨rfl, rfl⟩

/-- **A bare name that means something declared in the document, and no parameter of a lambda,
    means one of the declarations of the document.** -/
theorem from_of_resolveIn (hnode : r.node.isBareName = true)
    (h : resolveIn (a.scopeAt o) r = .resolved s) {span : Span}
    (hplace : s.declaredAt = .document span) (horigin : s.origin ≠ .lambdaParameter) :
    Declared.From a.document.declarations s := by
  have hbuiltin : s.declaredAt ≠ .builtin := by simp [hplace]
  rcases Scope.mem_of_resolve hnode h with ⟨layer, hlayer, hs⟩ | hs
  · rcases Scope.mem_withParams hlayer with hlayer | hparams
    · exact (Document.from_of_scopeAt hlayer s hs).resolve_left hbuiltin
    · exact absurd (hparams s hs) horigin
  · exact absurd (Builtin.declaredAt_functions s hs) hbuiltin

/-! ## 3. Symbols of declarations -/

theorem symbolAt_eq_find? (h : a.checkOffset o = .ok ()) :
    a.symbolAt o = .ok (a.document.declarations.find? (·.touchedAt o)) := by
  unfold symbolAt
  rw [h]
  rfl

/-- Where declarations are apart, the one that a caret is at is found there. -/
theorem symbolAt_eq (hapart : a.document.Apart) (h : a.checkOffset o = .ok ())
    (ht : t ∈ a.document.declarations) (ho : t.touchedAt o = true) :
    a.symbolAt o = .ok (some t) := by
  rw [symbolAt_eq_find? h]
  cases hfind : a.document.declarations.find? (·.touchedAt o) with
  | none => exact absurd ho (List.find?_eq_none.mp hfind t ht)
  | some first =>
    by_cases hsame : first = t
    · rw [hsame]
    · have hboth := hapart first (List.mem_of_find?_eq_some hfind) t ht hsame o
      exact absurd ⟨by simpa using List.find?_some hfind, ho⟩ hboth

theorem symbolAt_eq_none (h : a.checkOffset o = .ok ())
    (hfree : ∀ t ∈ a.document.declarations, t.touchedAt o = false) :
    a.symbolAt o = .ok none := by
  rw [symbolAt_eq_find? h, List.find?_eq_none.mpr fun t ht => by simp [hfree t ht]]

theorem usagesAt_of_symbolAt (hc : a.cancelled = false) (h : a.symbolAt o = .ok (some t)) :
    a.usagesAt o = .ok (a.usages t) := by
  unfold usagesAt checkCancelled
  rw [h, hc]
  rfl

theorem usagesAt_of_resolveAt (hc : a.cancelled = false) (hfree : a.symbolAt o = .ok none)
    (h : a.resolveAt o = .ok (.resolved s)) : a.usagesAt o = .ok (a.usages s) := by
  unfold usagesAt checkCancelled
  rw [hfree, hc, h]
  rfl

end Analysis

/-- **Usages are the same from the declaration and from a reference**, whatever structure was
    loaded from the text. In a document whose declarations are apart, take a bare name, away from
    all declarations, that means something declared in the document, and no parameter of a lambda.
    Then that is found again where the declaration begins, and both places give the same
    usages. -/
theorem usagesAt_declaration (text : List Char)
    (loaded : Except Yaml.LoadError (Option Yaml.Node)) (settings : Settings) :
    let a : Analysis := ⟨Document.ofStructure text loaded, settings, false⟩
    a.document.Apart → ∀ o, (∀ t ∈ a.document.declarations, t.touchedAt o = false) →
      ∀ e r s d, a.expressionAt? o = some e → locate? (Analysis.parse e).root o = some r →
        r.node.isBareName = true → a.resolveAt o = .ok (.resolved s) →
        s.declaredAt = .document d → s.origin ≠ .lambdaParameter →
        (∃ t, a.symbolAt d.start = .ok (some t) ∧ t.name = s.name ∧
          t.declaredAt = s.declaredAt ∧ t.origin = s.origin) ∧
        a.usagesAt o = .ok (a.usages s) ∧ a.usagesAt o = a.usagesAt d.start := by
  intro a hapart o hfree e r s d he hr hnode hresolve hplace horigin
  obtain ⟨hoffset, hmeans⟩ := Analysis.resolveAt_inv he hr hresolve
  obtain ⟨t, ht, hsame⟩ := Analysis.from_of_resolveIn hnode hmeans.symm hplace horigin
  have hsame' := Declared.same_iff.mp hsame
  have htplace : t.declaredAt = .document d := hsame'.2.1.trans hplace
  -- the declaration begins in the text, so there is a symbol to ask for
  have hinside := Document.inText_declarations text loaded t ht
  obtain ⟨-, hd, hend⟩ := hinside.place d (by rw [htplace]; rfl)
  have hstart : a.checkOffset d.start = .ok () := by
    refine if_neg (Nat.not_lt.mpr ?_)
    exact Nat.le_trans hd hend
  have htouched : t.touchedAt d.start = true :=
    (Declared.touchedAt_iff htplace).mpr (Span.touches_iff.mpr ⟨Nat.le_refl _, hd⟩)
  have hsymbol := Analysis.symbolAt_eq hapart hstart ht htouched
  have hthere := Analysis.usagesAt_of_symbolAt rfl hsymbol
  have hnone := Analysis.symbolAt_eq_none hoffset hfree
  have hhere := Analysis.usagesAt_of_resolveAt rfl hnone hresolve
  refine ⟨⟨t, hsymbol, hsame'⟩, hhere, ?_⟩
  rw [hhere, hthere, Analysis.usages_congr hsame]

/-- A variable set inside a step that runs one of its branches, and used behind that step. -/
theorem usagesAt_declaration_try :
    let text := "flows:\n f:\n - try:\n   - set:\n      x: 1\n - set:\n    y: 2\n - ${x}".toList
    let a : Analysis := ⟨Document.ofText text, {}, false⟩
    let e : Embedded := ⟨⟨60, 64⟩, ⟨62, 63⟩, true, ['x'], [62, 63]⟩
    let r : Reference := ⟨.identifier "x" ⟨62, 63⟩, ⟨62, 63⟩, []⟩
    a.document.Apart ∧ (∀ t ∈ a.document.declarations, t.touchedAt 62 = false) ∧
      a.expressionAt? 62 = some e ∧ locate? (Analysis.parse e).root 62 = some r ∧
      r.node.isBareName = true ∧ ∃ s, a.resolveAt 62 = .ok (.resolved s) ∧
        s.declaredAt = .document ⟨35, 36⟩ ∧ s.origin ≠ .lambdaParameter ∧
        (∃ t, a.symbolAt 35 = .ok (some t) ∧ t.name = s.name ∧ t.declaredAt = s.declaredAt ∧
          t.origin = s.origin) ∧
        a.usagesAt 62 = .ok (a.usages s) ∧ a.usagesAt 62 = a.usagesAt 35 := by
  intro text a e r
  have hmeans : (match a.resolveAt 62 with
      | .ok (.resolved s) => some (s.declaredAt, s.origin)
      | _ => none) = some (.document ⟨35, 36⟩, .setStep) := by decide +kernel
  have hplaces : a.document.declarations.map Declared.declaredAt =
      [.document ⟨35, 36⟩, .document ⟨52, 53⟩] := by decide +kernel
  have hapart : a.document.Apart := by
    obtain ⟨x, rest, hlist, hx, hrest⟩ := List.map_eq_cons_iff.mp hplaces
    obtain ⟨y, nothing, rfl, hy, hnothing⟩ := List.map_eq_cons_iff.mp hrest
    obtain rfl := List.map_eq_nil_iff.mp hnothing
    refine Document.apart_of_pairwise ?_
    rw [hlist]
    refine List.pairwise_pair.mpr fun o => ?_
    rw [Declared.touchedAt_iff hx, Declared.touchedAt_iff hy, Span.touches_iff, Span.touches_iff]
    dsimp only
    omega
  have hfree : ∀ t ∈ a.document.declarations, t.touchedAt 62 = false := by
    intro t ht
    have hplace := List.mem_map_of_mem (f := Declared.declaredAt) ht
    rw [hplaces] at hplace
    rcases List.mem_cons.mp hplace with h | h
    · rw [Declared.touchedAt, h]
      rfl
    · rw [Declared.touchedAt, List.mem_singleton.mp h]
      rfl
  have he : a.expressionAt? 62 = some e := by decide +kernel
  have hr : locate? (Analysis.parse e).root 62 = some r := by cbv
  split at hmeans
  · rename_i s hs
    obtain ⟨hplace, horigin⟩ := Prod.mk.inj (Option.some.inj hmeans)
    have hlambda : s.origin ≠ .lambdaParameter := by simp [horigin]
    exact ⟨hapart, hfree, he, hr, rfl, s, hs, hplace, hlambda,
      usagesAt_declaration text (Document.structureOf text) {} hapart 62 hfree e r s ⟨35, 36⟩ he hr
        rfl hs hplace hlambda⟩
  · cases hmeans

end FlowExpr
