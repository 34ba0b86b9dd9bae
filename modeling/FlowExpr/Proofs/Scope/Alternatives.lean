import FlowExpr.Proofs.Scope.Completion
import FlowExpr.Proofs.Scope.Earlier

/-!
# Alternatives are a union

A variable with alternative shapes has the properties of all of them, at every depth. At each dot
the declarations of a name are collected, those of one place are taken for one, and the shapes of
what is left are alternatives again; no property gets lost on the way, as long as declarations of
one place are one declaration:

* `Shape.Declares name s shape`: one of the alternatives has the property `s` under the name;
* `Shape.Reaches shape path s`: so on along a path of names;
* `Shape.Agree shapes`: what the shapes have under one path and from one place is equal;
* `Shape.reaches_merge`: what is reached in a union is reached in one of its sides;
* `Shape.named_properties_merge`: what a union offers is offered by one of its sides;
* `resolve_path`: a chain of properties resolves if and only if something is reached along it.
-/

namespace FlowExpr

/-- What holds of objects, and of alternatives whenever it holds of each, holds of every shape. -/
theorem Shape.alternatives_induction {P : Shape → Prop}
    (object : ∀ properties, P (.object properties))
    (composite : ∀ shapes, (∀ a ∈ shapes, P a) → P (.composite shapes)) : ∀ shape, P shape
  | .object properties => object properties
  | .composite shapes => composite shapes fun a ha =>
    have _hlt := List.sizeOf_lt_of_mem ha
    alternatives_induction object composite a
termination_by shape => sizeOf shape
decreasing_by
  simp only [Shape.composite.sizeOf_spec]
  omega

namespace Shape

/-! ## 1. Declarations of a name -/

/-- One of the alternatives has the property under the name. -/
inductive Declares (name : String) (s : Symbol) : Shape → Prop where
  | object {properties : List (String × Symbol)} (h : Properties.get? properties name = some s) :
      Declares name s (.object properties)
  | composite {alternatives : List Shape} {a : Shape} (ha : a ∈ alternatives)
      (h : Declares name s a) : Declares name s (.composite alternatives)

variable {shape a b : Shape} {name : String} {s : Symbol} {path : List String}

theorem declares_iff : shape.Declares name s ↔ ∃ a ∈ shape.alternatives, a.Declares name s := by
  constructor
  · intro h
    cases h with
    | object h => exact ⟨_, List.mem_singleton_self _, .object h⟩
    | composite ha h => exact ⟨_, ha, h⟩
  · intro ⟨a, ha, h⟩
    cases shape with
    | object properties => exact List.mem_singleton.mp ha ▸ h
    | composite shapes => exact .composite ha h

theorem declares_object {properties : List (String × Symbol)} :
    (object properties).Declares name s ↔ Properties.get? properties name = some s := by
  constructor
  · intro h
    cases h with
    | object h => exact h
  · exact .object

theorem declares_merge :
    (a.merge b).Declares name s ↔ a.Declares name s ∨ b.Declares name s := by
  rw [declares_iff, @declares_iff a, @declares_iff b]
  simp only [merge, alternatives, List.mem_append, or_and_right, exists_or]

/-- What a look-up finds is declared in one of the alternatives. -/
theorem declares_of_mem_lookup (h : s ∈ shape.lookup name) : shape.Declares name s := by
  induction shape using alternatives_induction with
  | object properties => exact .object (Option.mem_toList.mp h)
  | composite shapes ih =>
    have hall : s ∈ lookupAll name shapes := mem_of_mem_firsts h
    rw [lookupAll_eq_flatMap] at hall
    obtain ⟨a, ha, hs⟩ := List.mem_flatMap.mp hall
    exact .composite ha (ih a ha hs)

/-- **A look-up finds what is declared**, if no other declaration of the name is from its place. -/
theorem Declares.mem_lookup (h : shape.Declares name s)
    (hone : ∀ t, shape.Declares name t → t.declaredAt = s.declaredAt → t = s) :
    s ∈ shape.lookup name := by
  induction h with
  | object h => exact Option.mem_toList.mpr h
  | @composite alternatives a ha h ih =>
    have hs : s ∈ lookupAll name alternatives := by
      rw [lookupAll_eq_flatMap]
      exact List.mem_flatMap.mpr ⟨a, ha, ih fun t ht => hone t (.composite ha ht)⟩
    -- the first declaration of the place is kept, and it is the given one
    obtain ⟨f, hf, hplace⟩ := exists_mem_firsts Declared.declaredAt hs
    have hdeclared : (Shape.composite alternatives).Declares name f := declares_of_mem_lookup hf
    exact hone f hdeclared hplace ▸ hf

/-! ## 2. Properties along a path -/

/-- The property is reached along a path of names, through the shapes of those on the way. -/
inductive Reaches : Shape → List String → Symbol → Prop where
  | last {shape : Shape} {name : String} {s : Symbol} (h : shape.Declares name s) :
      Reaches shape [name] s
  | through {shape inner : Shape} {name : String} {path : List String} {t s : Symbol}
      (h : shape.Declares name t) (ht : t.shape = some inner) (hs : Reaches inner path s) :
      Reaches shape (name :: path) s

theorem not_reaches_nil : ¬shape.Reaches [] s := nofun

theorem reaches_singleton : shape.Reaches [name] s ↔ shape.Declares name s := by
  constructor
  · intro h
    cases h with
    | last h => exact h
    | through _ _ hs => exact absurd hs not_reaches_nil
  · exact .last

theorem reaches_cons (hpath : path ≠ []) : shape.Reaches (name :: path) s ↔
    ∃ t, shape.Declares name t ∧ ∃ inner, t.shape = some inner ∧ inner.Reaches path s := by
  constructor
  · intro h
    cases h with
    | last _ => exact absurd rfl hpath
    | through h ht hs => exact ⟨_, h, _, ht, hs⟩
  · exact fun ⟨_, h, _, ht, hs⟩ => .through h ht hs

/-- **What is reached in a union is reached in one of its sides.** -/
theorem reaches_merge : (a.merge b).Reaches path s ↔ a.Reaches path s ∨ b.Reaches path s := by
  cases path with
  | nil => simp [not_reaches_nil]
  | cons name path =>
    by_cases hpath : path = []
    · subst hpath
      rw [reaches_singleton, reaches_singleton, reaches_singleton, declares_merge]
    · rw [reaches_cons hpath, reaches_cons hpath, reaches_cons hpath]
      simp only [declares_merge, or_and_right, exists_or]

theorem reaches_foldl_merge {shapes : List Shape} :
    (shapes.foldl merge shape).Reaches path s ↔
      shape.Reaches path s ∨ ∃ a ∈ shapes, a.Reaches path s := by
  induction shapes generalizing shape with
  | nil => simp
  | cons a shapes ih => rw [List.foldl_cons, ih, reaches_merge, or_assoc, List.exists_mem_cons_iff]

theorem reaches_mergeAll {shapes : List Shape} :
    (∃ merged, mergeAll shapes = some merged ∧ merged.Reaches path s) ↔
      ∃ a ∈ shapes, a.Reaches path s := by
  cases shapes with
  | nil => simp [mergeAll]
  | cons first rest => simp [mergeAll, reaches_foldl_merge]

/-- Properties that the shapes have under one path, and that are declared at one place, are
    equal. -/
def Agree (shapes : List Shape) : Prop :=
  ∀ path s t, (∃ a ∈ shapes, a.Reaches path s) → (∃ a ∈ shapes, a.Reaches path t) →
    s.declaredAt = t.declaredAt → s = t

theorem Agree.mono {shapes shapes' : List Shape} (h : Agree shapes) (hsub : shapes' ⊆ shapes) :
    Agree shapes' := by
  intro path s t ⟨a, ha, hs⟩ ⟨b, hb, ht⟩
  exact h path s t ⟨a, hsub ha, hs⟩ ⟨b, hsub hb, ht⟩

theorem Agree.merge (h : Agree [a, b]) : Agree [a.merge b] := by
  have hside : ∀ {path s}, (∃ c ∈ [a.merge b], c.Reaches path s) →
      ∃ c ∈ [a, b], c.Reaches path s := by
    intro path s hs
    simpa [reaches_merge] using hs
  exact fun path s t hs ht => h path s t (hside hs) (hside ht)

/-! ## 3. Properties on offer -/

theorem named_firsts {xs : List Symbol} :
    Declared.Named (firsts Declared.name xs) name ↔ Declared.Named xs name := by
  constructor
  · intro h
    obtain ⟨s, hs, hname⟩ := h
    exact ⟨s, mem_of_mem_firsts hs, hname⟩
  · intro h
    obtain ⟨s, hs, hname⟩ := h
    obtain ⟨f, hf, hkey⟩ := exists_mem_firsts Declared.name hs
    exact ⟨f, hf, hkey.trans hname⟩

theorem named_properties : Declared.Named shape.properties name ↔
    ∃ a ∈ shape.alternatives, Declared.Named a.properties name := by
  cases shape with
  | object properties => simp [alternatives]
  | composite shapes =>
    rw [properties, named_firsts, propertiesAll_eq_flatMap, alternatives]
    constructor
    · intro h
      obtain ⟨s, hs, hname⟩ := h
      obtain ⟨a, ha, hs⟩ := List.mem_flatMap.mp hs
      exact ⟨a, ha, s, hs, hname⟩
    · intro h
      obtain ⟨a, ha, s, hs, hname⟩ := h
      exact ⟨s, List.mem_flatMap.mpr ⟨a, ha, hs⟩, hname⟩

/-- A union offers what one of its sides offers. -/
theorem named_properties_merge : Declared.Named (a.merge b).properties name ↔
    Declared.Named a.properties name ∨ Declared.Named b.properties name := by
  rw [named_properties, @named_properties a, @named_properties b]
  simp only [merge, alternatives, List.mem_append, or_and_right, exists_or]

end Shape

/-! ## 4. Chains of properties -/

/-- The name that a chain of properties begins with, and the names of the properties. -/
def Expr.path? : Expr → Option (String × List String)
  | identifier name _ => some (name, [])
  | property target (some name) _ _ => target.path?.map fun (first, path) => (first, path ++ [name])
  | _ => none

theorem Expr.isPath_of_path? {e : Expr} {chain : String × List String}
    (h : e.path? = some chain) : e.isPath = true := by
  unfold path? at h
  split at h
  · rfl
  · rfl
  · cases h

namespace Resolution

/-- The result has the alternatives of all declarations. -/
theorem shape?_ofCandidates (symbols : List Symbol) :
    (ofCandidates symbols).shape? = mergedShape? symbols := by
  unfold ofCandidates
  split
  · rfl
  · rename_i only
    show only.shape = mergedShape? [only]
    unfold mergedShape?
    cases h : only.shape <;> simp [h, Shape.mergeAll]
  · split <;> rfl

theorem isUnresolved_ofCandidates (symbols : List Symbol) :
    (ofCandidates symbols).isUnresolved = false ↔ ∃ s, s ∈ symbols := by
  unfold ofCandidates
  split
  · simp [isUnresolved]
  · simp [isUnresolved]
  · split <;> simp [isUnresolved]

/-- What is reached in the result is reached in one of the declarations. -/
theorem reaches_mergedShape? {symbols : List Symbol} {path : List String} {s : Symbol} :
    (∃ merged, mergedShape? symbols = some merged ∧ merged.Reaches path s) ↔
      ∃ t ∈ symbols, ∃ inner, t.shape = some inner ∧ inner.Reaches path s := by
  rw [mergedShape?, Shape.reaches_mergeAll]
  constructor
  · intro ⟨inner, hmem, hs⟩
    obtain ⟨t, ht, hinner⟩ := List.mem_filterMap.mp hmem
    exact ⟨t, ht, inner, hinner, hs⟩
  · exact fun ⟨t, ht, inner, hinner, hs⟩ => ⟨inner, List.mem_filterMap.mpr ⟨t, ht, hinner⟩, hs⟩

end Resolution

/-- **A chain of properties follows its path.** Below a name whose shape is known, it resolves if
    and only if something is reached along it, and what is reached from its result is what is
    reached along the longer path. -/
theorem resolve_path {scope : Scope} {first : String} {shape : Shape}
    (hfirst : scope.shapeOf? first = some shape) (hagree : Shape.Agree [shape]) {e : Expr}
    {path : List String} (he : e.path? = some (first, path)) :
    (∀ more s, more ≠ [] →
      ((∃ inner, (resolve scope e).shape? = some inner ∧ inner.Reaches more s) ↔
        shape.Reaches (path ++ more) s)) ∧
    (path ≠ [] →
      ((resolve scope e).isUnresolved = false ↔ ∃ s, shape.Reaches path s)) := by
  fun_induction Expr.path? e generalizing path with
  | case1 name span =>
    obtain ⟨rfl, rfl⟩ := Prod.mk.inj (Option.some.inj he)
    have hshape : (resolve scope (.identifier name span)).shape? = some shape := by
      rw [resolve]
      obtain ⟨s, hs, hs'⟩ := Option.bind_eq_some_iff.mp hfirst
      rw [hs]
      exact hs'
    exact ⟨fun more s _ => by simp [hshape], fun h => absurd rfl h⟩
  | case2 target name nameSpan span ih =>
    obtain ⟨⟨first', path⟩, htarget, hpath⟩ := Option.map_eq_some_iff.mp he
    obtain ⟨rfl, rfl⟩ := Prod.mk.inj hpath
    obtain ⟨hreach, -⟩ := ih htarget
    have hshape : shapeOf? scope target = (resolve scope target).shape? := by
      rw [shapeOf?, if_pos (Expr.isPath_of_path? htarget)]
    rw [resolve_property, hshape]
    cases hinner : (resolve scope target).shape? with
    | none =>
      -- the target has no properties, so nothing is reached through it
      have hnone : ∀ more s, ¬shape.Reaches (path ++ name :: more) s := by
        intro more s hs
        obtain ⟨inner, h, -⟩ := (hreach _ s (List.cons_ne_nil _ _)).mpr hs
        rw [hinner] at h
        cases h
      refine ⟨fun more s _ => ?_, fun _ => ?_⟩
      · rw [List.append_assoc, List.singleton_append]
        simp [Resolution.shape?, hnone more s]
      · simp [Resolution.isUnresolved, hnone []]
    | some inner =>
      have hinner' : ∀ more s, more ≠ [] →
          (inner.Reaches more s ↔ shape.Reaches (path ++ more) s) := by
        intro more s hmore
        rw [← hreach more s hmore, hinner]
        simp
      have hname : ∀ s, inner.Declares name s ↔ shape.Reaches (path ++ [name]) s := by
        intro s
        rw [← hinner' [name] s (List.cons_ne_nil _ _), Shape.reaches_singleton]
      -- so the declarations of the name are told apart by their places, and all are found
      have hmem : ∀ s, s ∈ inner.lookup name ↔ inner.Declares name s := by
        refine fun s => ⟨Shape.declares_of_mem_lookup, fun hs => ?_⟩
        refine hs.mem_lookup fun t ht hplace => ?_
        exact hagree _ t s ⟨shape, List.mem_singleton_self _, (hname t).mp ht⟩
          ⟨shape, List.mem_singleton_self _, (hname s).mp hs⟩ hplace
      rw [Option.map_some, Option.getD_some]
      refine ⟨fun more s hmore => ?_, fun _ => ?_⟩
      · rw [Resolution.shape?_ofCandidates, Resolution.reaches_mergedShape?, List.append_assoc,
          List.singleton_append, ← hinner' _ s (List.cons_ne_nil _ _), Shape.reaches_cons hmore]
        simp only [hmem]
      · rw [Resolution.isUnresolved_ofCandidates]
        simp only [hmem, hname]
  | case3 => cases he

/-- **A union has what either side has.** Let properties of the sides that are met along one path
    and come from one place be equal. Where a name has the union for its shape, a chain of
    properties below it resolves, to one declaration or to several, if and only if it does where
    the name has one of the sides. The union offers the names that the sides offer, each once. -/
theorem resolve_merge (a b : Shape) :
    (Shape.Agree [a, b] → ∀ (scopeA scopeB union : Scope) (first : String),
      scopeA.shapeOf? first = some a → scopeB.shapeOf? first = some b →
      union.shapeOf? first = some (a.merge b) →
      ∀ (e : Expr) (path : List String), e.path? = some (first, path) → path ≠ [] →
        ((resolve union e).isUnresolved = false ↔
          (resolve scopeA e).isUnresolved = false ∨ (resolve scopeB e).isUnresolved = false)) ∧
    ((a.merge b).properties.map Declared.name).Nodup ∧
    ∀ name, Declared.Named (a.merge b).properties name ↔
      Declared.Named a.properties name ∨ Declared.Named b.properties name := by
  refine ⟨?_, Shape.nodup_firsts _ _, fun name => Shape.named_properties_merge⟩
  intro hagree scopeA scopeB union first hA hB hunion e path he hpath
  have hagreeA : Shape.Agree [a] := hagree.mono (by simp)
  have hagreeB : Shape.Agree [b] := hagree.mono (by simp)
  rw [(resolve_path hunion hagree.merge he).2 hpath, (resolve_path hA hagreeA he).2 hpath,
    (resolve_path hB hagreeB he).2 hpath]
  simp only [Shape.reaches_merge, exists_or]

/-- A variable `x` whose `cfg` is an object with a `host` in one branch and a text in another:
    `x.cfg` means two declarations, and `x.cfg.host` is still known. -/
theorem resolve_merge_text :
    let host : Symbol := ⟨"host", .document ⟨10, 14⟩, .string, .setStep, none, none⟩
    let cfgA : Symbol := ⟨"cfg", .document ⟨5, 8⟩, .object, .setStep, none,
      some (.object [("host", host)])⟩
    let cfgB : Symbol := ⟨"cfg", .document ⟨25, 28⟩, .string, .setStep, none, none⟩
    let a := Shape.object [("cfg", cfgA)]
    let b := Shape.object [("cfg", cfgB)]
    let scope (shape : Shape) : Scope :=
      ⟨[.declaredVariables [⟨"x", .document ⟨0, 1⟩, .object, .setStep, none, some shape⟩]], true⟩
    let cfg := Expr.property (.identifier "x" ⟨40, 41⟩) (some "cfg") ⟨42, 45⟩ ⟨40, 45⟩
    Shape.Agree [a, b] ∧ (∃ symbols, resolve (scope (a.merge b)) cfg = .ambiguous symbols) ∧
      (resolve (scope (a.merge b)) (.property cfg (some "host") ⟨46, 50⟩ ⟨40, 50⟩)).isUnresolved =
        false := by
  intro host cfgA cfgB a b scope cfg
  -- each property comes from a place of its own
  have hsingle : ∀ {name name' : String} {s t : Symbol},
      (Shape.object [(name, s)]).Declares name' t → t = s := by
    intro name name' s t h
    have hget : List.lookup name' [(name, s)] = some t := Shape.declares_object.mp h
    rw [List.lookup_cons] at hget
    split at hget
    · exact (Option.some.inj hget).symm
    · cases hget
  have hreached : ∀ {path : List String} {s : Symbol}, (∃ c ∈ [a, b], c.Reaches path s) →
      s = cfgA ∨ s = cfgB ∨ s = host := by
    intro path s ⟨c, hc, h⟩
    have hc : c = a ∨ c = b := by simpa using hc
    rcases hc with rfl | rfl
    · cases h with
      | last h => exact .inl (hsingle h)
      | through h ht hs =>
        obtain rfl := hsingle h
        obtain rfl := Option.some.inj ht
        cases hs with
        | last h => exact .inr (.inr (hsingle h))
        | through h ht _ =>
          obtain rfl := hsingle h
          cases ht
    · cases h with
      | last h => exact .inr (.inl (hsingle h))
      | through h ht _ =>
        obtain rfl := hsingle h
        cases ht
  have hagree : Shape.Agree [a, b] := by
    intro path s t hs ht hplace
    rcases hreached hs with rfl | rfl | rfl <;> rcases hreached ht with rfl | rfl | rfl <;>
      first | rfl | exact absurd hplace (by decide)
  obtain ⟨hresolves, -⟩ := resolve_merge a b
  exact ⟨hagree, ⟨_, rfl⟩, (hresolves hagree (scope a) (scope b) (scope (a.merge b)) "x" rfl rfl rfl
    (.property cfg (some "host") ⟨46, 50⟩ ⟨40, 50⟩) ["cfg", "host"] rfl (by simp)).mpr (.inl rfl)⟩

end FlowExpr
