import FlowExpr.Scope.Resolution
import Mathlib.Data.List.Induction
import Mathlib.Data.List.Nodup
import Mathlib.Order.Lattice

/-!
# Completion and resolution agree

What is offered at a place and what a name means there are computed apart: the first lists
declarations and keeps one of each name, the second looks a name up, and keeps one of each place
of declaration where a shape has alternatives. Both prefer what comes first, so they agree:

* `Shape.find?_firsts`, `Shape.head?_firsts`: keeping the first of each key does not change what
  a search for a key meets;
* `find?_scopeCandidates`: the name of a visible symbol, called, means that symbol;
* `Shape.WellKeyed`: the properties of a shape are stored under their own names, at every depth;
* `Shape.head?_lookup`: what such a shape offers for a name is its first declaration of the name.
-/

namespace FlowExpr

/-! ## 1. The first of each -/

namespace Shape

section Firsts

variable {κ : Type} [BEq κ] [LawfulBEq κ] {key : Symbol → κ} {xs : List Symbol} {s : Symbol}

omit [LawfulBEq κ] in
theorem firsts_concat (key : Symbol → κ) (xs : List Symbol) (s : Symbol) :
    firsts key (xs ++ [s]) =
      if (firsts key xs).any fun f => key f == key s then firsts key xs
      else firsts key xs ++ [s] := by
  simp [firsts, List.foldl_append]

omit [LawfulBEq κ] in
theorem mem_of_mem_firsts (h : s ∈ firsts key xs) : s ∈ xs := by
  induction xs using List.reverseRecOn with
  | nil => exact h
  | append_singleton xs t ih =>
    rw [firsts_concat] at h
    split at h
    · exact List.mem_append_left _ (ih h)
    · rcases List.mem_append.mp h with h | h
      · exact List.mem_append_left _ (ih h)
      · exact List.mem_append_right _ h

/-- No key is kept twice. -/
theorem nodup_firsts (key : Symbol → κ) (xs : List Symbol) : ((firsts key xs).map key).Nodup := by
  induction xs using List.reverseRecOn with
  | nil => exact List.nodup_nil
  | append_singleton xs s ih =>
    rw [firsts_concat]
    split
    · exact ih
    · rename_i hnew
      rw [List.map_append, List.nodup_append]
      refine ⟨ih, List.nodup_singleton _, fun k hk l hl => ?_⟩
      obtain ⟨f, hf, rfl⟩ := List.mem_map.mp hk
      rw [List.map_singleton, List.mem_singleton] at hl
      rw [hl]
      exact fun heq => hnew (List.any_eq_true.mpr ⟨f, hf, beq_iff_eq.mpr heq⟩)

/-- **A search for a key meets the same symbol** before and after the repetitions are left
    out. -/
theorem find?_firsts (key : Symbol → κ) (k : κ) (xs : List Symbol) :
    (firsts key xs).find? (fun s => key s == k) = xs.find? fun s => key s == k := by
  induction xs using List.reverseRecOn with
  | nil => rfl
  | append_singleton xs s ih =>
    rw [firsts_concat, List.find?_append, ← ih]
    split
    · rename_i hold
      -- a symbol of the key of `s` was met before
      obtain ⟨f, hf, hkey⟩ := List.any_eq_true.mp hold
      cases hfind : (firsts key xs).find? fun s => key s == k with
      | some found => rfl
      | none =>
        have hmissed := List.find?_eq_none.mp hfind f hf
        rw [beq_iff_eq.mp hkey] at hmissed
        rw [List.find?_singleton, if_neg hmissed]
        rfl
    · exact List.find?_append

/-- Of each key there is one left. -/
theorem exists_mem_firsts (key : Symbol → κ) (h : s ∈ xs) :
    ∃ f ∈ firsts key xs, key f = key s := by
  have hsome : (xs.find? fun t => key t == key s).isSome = true :=
    List.find?_isSome.mpr ⟨s, h, beq_self_eq_true _⟩
  rw [← find?_firsts] at hsome
  obtain ⟨f, hf, hkey⟩ := List.find?_isSome.mp hsome
  exact ⟨f, hf, beq_iff_eq.mp hkey⟩

omit [LawfulBEq κ] in
theorem head?_firsts (key : Symbol → κ) (xs : List Symbol) :
    (firsts key xs).head? = xs.head? := by
  induction xs using List.reverseRecOn with
  | nil => rfl
  | append_singleton xs s ih =>
    rw [firsts_concat, List.head?_append, ← ih]
    split
    · rename_i hold
      obtain ⟨f, hf, -⟩ := List.any_eq_true.mp hold
      obtain ⟨first, hfirst⟩ := Option.isSome_iff_exists.mp
        (List.isSome_head?.mpr (List.ne_nil_of_mem hf))
      rw [hfirst]
      rfl
    · exact List.head?_append

end Firsts

end Shape

namespace Declared

/-- Where no name is repeated, a search for a name finds whatever has it. -/
theorem find?_eq_some_iff {symbols : List Symbol} (h : (symbols.map Declared.name).Nodup)
    {name : String} {s : Symbol} :
    find? symbols name = some s ↔ s ∈ symbols ∧ s.name = name := by
  constructor
  · intro hfind
    exact ⟨List.mem_of_find?_eq_some hfind, beq_iff_eq.mp (List.find?_some hfind :)⟩
  · rintro ⟨hs, rfl⟩
    cases hfind : find? symbols s.name with
    | none => exact absurd (beq_self_eq_true _) (List.find?_eq_none.mp hfind s hs)
    | some t =>
      have ht : t.name = s.name := beq_iff_eq.mp (List.find?_some hfind :)
      rw [List.inj_on_of_nodup_map h (List.mem_of_find?_eq_some hfind) hs ht]

/-- Where no name is repeated, the symbols of a name are the one that a search finds. -/
theorem filter_name {symbols : List Symbol} (h : (symbols.map Declared.name).Nodup)
    (name : String) :
    symbols.filter (fun s => s.name == name) = (find? symbols name).toList := by
  induction symbols with
  | nil => rfl
  | cons s rest ih =>
    rw [List.map_cons, List.nodup_cons] at h
    rw [List.filter_cons, ih h.2]
    unfold find?
    rw [List.find?_cons]
    cases hs : s.name == name with
    | false => rfl
    | true =>
      -- the rest has no symbol of the name of `s`
      have hnone : rest.find? (fun t => t.name == name) = none := by
        refine List.find?_eq_none.mpr fun t ht heq => h.1 ?_
        rw [beq_iff_eq.mp hs, ← beq_iff_eq.mp heq]
        exact List.mem_map_of_mem ht
      rw [hnone]
      rfl

end Declared

/-! ## 2. Visible names -/

namespace Scope

/-- A name means the symbol of that name among the visible ones. -/
theorem lookup_eq_find? (scope : Scope) (name : String) :
    scope.lookup name = Declared.find? scope.symbols name := by
  have hfind := Shape.find?_firsts Declared.name name (scope.layers.flatMap Layer.list)
  rw [List.find?_flatMap] at hfind
  simp only [lookup, Layer.lookup_eq_find?]
  exact hfind.symm

theorem nodup_functions (scope : Scope) : (scope.functions.map Declared.name).Nodup := by
  unfold functions
  split
  · decide
  · exact List.nodup_nil

end Scope

theorem nodup_scopeCandidates (scope : Scope) :
    ((scopeCandidates scope).map Declared.name).Nodup := by
  unfold scopeCandidates
  rw [List.map_append, List.nodup_append]
  refine ⟨Shape.nodup_firsts _ _, scope.nodup_functions.sublist (List.filter_sublist.map _), ?_⟩
  intro name hname other hother
  obtain ⟨s, hs, rfl⟩ := List.mem_map.mp hname
  obtain ⟨f, hf, rfl⟩ := List.mem_map.mp hother
  -- a function is listed only if no symbol has its name
  have hfree := (List.mem_filter.mp hf).2
  intro heq
  rw [Bool.not_eq_true', List.any_eq_false] at hfree
  exact hfree s hs (beq_iff_eq.mpr heq)

/-- **What is visible under a name** is its declaration, or else the function of that name. -/
theorem find?_scopeCandidates (scope : Scope) (name : String) :
    Declared.find? (scopeCandidates scope) name =
      (scope.lookup name).or (scope.function? name) := by
  rw [scope.lookup_eq_find?, scope.function?_eq_find?]
  unfold scopeCandidates Declared.find?
  rw [List.find?_append]
  cases hsymbol : scope.symbols.find? fun s => s.name == name with
  | some s => rfl
  | none =>
    rw [Option.none_or, Option.none_or, List.find?_filter]
    congr 1
    funext f
    -- no symbol has the name, so the functions of that name are all listed
    have hfree : (f.name == name) = true →
        (scope.symbols.any fun s => s.name == f.name) = false := by
      intro hf
      rw [beq_iff_eq.mp hf, List.any_eq_false]
      exact List.find?_eq_none.mp hsymbol
    cases hf : f.name == name with
    | false => simp
    | true => simp [hfree hf]

/-! ## 3. Well-keyed shapes -/

/-- The properties of an object are stored under their own names, in the order of the names,
    and so on below them and in every alternative. -/
inductive Shape.WellKeyed : Shape → Prop where
  | object {properties : List (String × Symbol)}
      (sorted : (properties.map Prod.fst).Pairwise (· < ·))
      (names : ∀ entry ∈ properties, entry.2.name = entry.1)
      (inner : ∀ entry ∈ properties, ∀ shape, entry.2.shape = some shape → shape.WellKeyed) :
      WellKeyed (.object properties)
  | composite {alternatives : List Shape} (each : ∀ shape ∈ alternatives, shape.WellKeyed) :
      WellKeyed (.composite alternatives)

/-- The shape of the symbol, if it has one, is well keyed. -/
def Declared.WellKeyed (s : Symbol) : Prop := ∀ shape, s.shape = some shape → shape.WellKeyed

theorem Declared.wellKeyed_of_none {s : Symbol} (h : s.shape = none) : s.WellKeyed := by
  intro shape hshape
  rw [h] at hshape
  cases hshape

/-- All shapes of the scope are well keyed. -/
def Scope.WellKeyed (scope : Scope) : Prop :=
  ∀ s ∈ scope.layers.flatMap Layer.list, s.WellKeyed

namespace Properties

theorem mem_insert {name : String} {s : Symbol} {properties : List (String × Symbol)}
    {entry : String × Symbol} (h : entry ∈ insert name s properties) :
    entry = (name, s) ∨ entry ∈ properties := by
  fun_induction insert name s properties with
  | case1 => exact .inl (List.mem_singleton.mp h)
  | case2 key value rest hlt => exact List.mem_cons.mp h
  | case3 value rest hlt =>
    rcases List.mem_cons.mp h with rfl | h
    · exact .inl rfl
    · exact .inr (List.mem_cons_of_mem _ h)
  | case4 key value rest hlt hne ih =>
    rcases List.mem_cons.mp h with rfl | h
    · exact .inr List.mem_cons_self
    · exact (ih h).imp_right (List.mem_cons_of_mem _)

theorem sorted_insert {name : String} {s : Symbol} {properties : List (String × Symbol)}
    (h : (properties.map Prod.fst).Pairwise (· < ·)) :
    ((insert name s properties).map Prod.fst).Pairwise (· < ·) := by
  fun_induction insert name s properties with
  | case1 => exact List.pairwise_singleton _ _
  | case2 key value rest hlt =>
    refine List.pairwise_cons.mpr ⟨fun other hother => ?_, h⟩
    rcases List.mem_cons.mp hother with rfl | hother
    · exact hlt
    · exact String.lt_trans hlt ((List.pairwise_cons.mp h).1 other hother)
  | case3 value rest hlt => exact h
  | case4 key value rest hlt hne ih =>
    obtain ⟨hfirst, hrest⟩ := List.pairwise_cons.mp h
    refine List.pairwise_cons.mpr ⟨fun other hother => ?_, ih hrest⟩
    obtain ⟨entry, hentry, rfl⟩ := List.mem_map.mp hother
    rcases mem_insert hentry with rfl | hentry
    · exact Std.lt_of_le_of_ne (String.not_lt.mp hlt) (Ne.symm hne)
    · exact hfirst _ (List.mem_map_of_mem hentry)

end Properties

namespace Shape

theorem lookupAll_eq_flatMap (name : String) (shapes : List Shape) :
    lookupAll name shapes = shapes.flatMap (lookup name) := by
  induction shapes with
  | nil => rfl
  | cons shape shapes ih => rw [lookupAll, ih, List.flatMap_cons]

theorem propertiesAll_eq_flatMap (shapes : List Shape) :
    propertiesAll shapes = shapes.flatMap properties := by
  induction shapes with
  | nil => rfl
  | cons shape shapes ih => rw [propertiesAll, ih, List.flatMap_cons]

/-! ### Shapes made from well-keyed ones -/

/-- An object made from symbols stores them under their names. -/
theorem wellKeyed_ofSymbols {symbols : List Symbol} (h : ∀ s ∈ symbols, s.WellKeyed) :
    (ofSymbols symbols).WellKeyed := by
  unfold ofSymbols
  refine List.foldlRecOn
    (motive := fun properties => (Shape.object properties).WellKeyed) symbols _
    (.object .nil (fun _ hentry => absurd hentry List.not_mem_nil)
      fun _ hentry => absurd hentry List.not_mem_nil) fun properties hkeyed s hs => ?_
  cases hkeyed with
  | object sorted names inner =>
    refine .object (Properties.sorted_insert sorted) (fun entry hentry => ?_) fun entry hentry => ?_
    · rcases Properties.mem_insert hentry with rfl | hentry
      · rfl
      · exact names entry hentry
    · rcases Properties.mem_insert hentry with rfl | hentry
      · exact h s hs
      · exact inner entry hentry

theorem wellKeyed_alternatives {shape : Shape} (h : shape.WellKeyed) :
    ∀ a ∈ shape.alternatives, a.WellKeyed := by
  cases h with
  | object sorted names inner =>
    intro a ha
    rw [List.mem_singleton.mp ha]
    exact .object sorted names inner
  | composite each => exact each

theorem WellKeyed.merge {a b : Shape} (ha : a.WellKeyed) (hb : b.WellKeyed) :
    (a.merge b).WellKeyed := by
  refine .composite fun shape hshape => ?_
  rcases List.mem_append.mp hshape with h | h
  · exact wellKeyed_alternatives ha shape h
  · exact wellKeyed_alternatives hb shape h

theorem wellKeyed_mergeAll {shapes : List Shape} (h : ∀ a ∈ shapes, a.WellKeyed) {shape : Shape}
    (hmerged : mergeAll shapes = some shape) : shape.WellKeyed := by
  cases shapes with
  | nil => cases hmerged
  | cons first rest =>
    obtain rfl := Option.some.inj hmerged
    have hfirst := h first List.mem_cons_self
    have hrest : ∀ a ∈ rest, a.WellKeyed := fun a ha => h a (List.mem_cons_of_mem _ ha)
    exact List.foldlRecOn rest merge hfirst fun a ha b hb => ha.merge (hrest b hb)

/-- A property of a well-keyed shape is well keyed. -/
theorem wellKeyed_of_mem_lookup {shape : Shape} (h : shape.WellKeyed) {name : String} {s : Symbol}
    (hs : s ∈ shape.lookup name) : s.WellKeyed := by
  induction h with
  | @object properties sorted names inner =>
    have hget : List.lookup name properties = some s := Option.mem_toList.mp hs
    obtain ⟨front, back, rfl, -⟩ := List.lookup_eq_some_iff.mp hget
    exact inner (name, s) (by simp)
  | @composite alternatives each ih =>
    have hall := mem_of_mem_firsts hs
    rw [lookupAll_eq_flatMap] at hall
    obtain ⟨a, ha, hs⟩ := List.mem_flatMap.mp hall
    exact ih a ha hs

/-! ### Properties and their declarations -/

/-- No name is offered twice. -/
theorem nodup_properties {shape : Shape} (h : shape.WellKeyed) :
    (shape.properties.map Declared.name).Nodup := by
  cases h with
  | @object properties sorted names inner =>
    have hkeys : (properties.map Prod.snd).map Declared.name = properties.map Prod.fst := by
      rw [List.map_map]
      exact List.map_congr_left names
    show ((properties.map Prod.snd).map Declared.name).Nodup
    rw [hkeys]
    refine sorted.imp ?_
    rintro key _ hlt rfl
    exact String.lt_irrefl key hlt
  | composite each => exact nodup_firsts _ _

/-- In an object, the entry of a name is the property of that name. -/
theorem lookup_eq_find? {properties : List (String × Symbol)}
    (names : ∀ entry ∈ properties, entry.2.name = entry.1) (name : String) :
    properties.lookup name = Declared.find? (properties.map Prod.snd) name := by
  induction properties with
  | nil => rfl
  | cons entry rest ih =>
    obtain ⟨key, s⟩ := entry
    have hkey : s.name = key := names (key, s) List.mem_cons_self
    have hrest := ih fun entry h => names entry (List.mem_cons_of_mem _ h)
    unfold Declared.find? at hrest ⊢
    rw [List.lookup_cons, List.map_cons, List.find?_cons, hrest, hkey, BEq.comm]

/-- **The property that a shape offers for a name is its first declaration of the name.** -/
theorem head?_lookup {shape : Shape} (h : shape.WellKeyed) (name : String) :
    (shape.lookup name).head? = Declared.find? shape.properties name := by
  induction h with
  | @object properties sorted names inner =>
    show ((properties.lookup name).toList).head? = _
    rw [lookup_eq_find? names, Option.head?_toList]
    rfl
  | @composite alternatives each ih =>
    -- both walks go through the alternatives in order, and the first that knows the name decides
    have hlisted : Declared.find? (firsts Declared.name (propertiesAll alternatives)) name =
        (propertiesAll alternatives).find? fun s => s.name == name := find?_firsts _ name _
    show (firsts Declared.declaredAt (lookupAll name alternatives)).head? =
      Declared.find? (firsts Declared.name (propertiesAll alternatives)) name
    rw [head?_firsts, hlisted, lookupAll_eq_flatMap, propertiesAll_eq_flatMap,
      List.head?_flatMap, List.find?_flatMap, ← List.head?_filterMap, ← List.head?_filterMap]
    exact congrArg List.head? (List.filterMap_congr ih)

end Shape

/-! ## 4. What nodes mean -/

namespace Resolution

theorem wellKeyed_ofOption {found : Option Symbol} (h : ∀ s, found = some s → s.WellKeyed)
    {shape : Shape} (hshape : (ofOption found).shape? = some shape) : shape.WellKeyed := by
  cases found with
  | none => cases hshape
  | some s => exact h s rfl shape hshape

theorem wellKeyed_mergedShape? {symbols : List Symbol} (h : ∀ s ∈ symbols, s.WellKeyed)
    {shape : Shape} (hmerged : mergedShape? symbols = some shape) : shape.WellKeyed := by
  refine Shape.wellKeyed_mergeAll (fun a ha => ?_) hmerged
  obtain ⟨s, hs, hshape⟩ := List.mem_filterMap.mp ha
  exact h s hs a hshape

theorem wellKeyed_ofCandidates {symbols : List Symbol} (h : ∀ s ∈ symbols, s.WellKeyed)
    {shape : Shape} (hshape : (ofCandidates symbols).shape? = some shape) : shape.WellKeyed := by
  unfold ofCandidates at hshape
  split at hshape
  · cases hshape
  · exact h _ List.mem_cons_self shape hshape
  · split at hshape
    · exact wellKeyed_mergedShape? h hshape
    · exact wellKeyed_mergedShape? h hshape

/-- The result stands for the first of the declarations, and knows nothing only if there is
    none. -/
theorem ofCandidates_head? (symbols : List Symbol) :
    (symbols.head? = none ∧ ofCandidates symbols = .unresolved) ∨
      ∃ first found, symbols.head? = some first ∧ (ofCandidates symbols).isUnresolved = false ∧
        (ofCandidates symbols).symbol? = some found ∧ first.name = found.name ∧
        first.declaredAt = found.declaredAt ∧ first.typeHint = found.typeHint ∧
        first.origin = found.origin := by
  unfold ofCandidates
  split
  · exact .inl ⟨rfl, rfl⟩
  · exact .inr ⟨_, _, rfl, rfl, rfl, rfl, rfl, rfl, rfl⟩
  · split
    · exact .inr ⟨_, _, rfl, rfl, rfl, rfl, rfl, rfl, rfl⟩
    · exact .inr ⟨_, _, rfl, rfl, rfl, rfl, rfl, rfl, rfl⟩

end Resolution

namespace Scope

theorem WellKeyed.lookup {scope : Scope} (h : scope.WellKeyed) {name : String} {s : Symbol}
    (hs : scope.lookup name = some s) : s.WellKeyed := by
  rw [scope.lookup_eq_find?] at hs
  exact h s (Shape.mem_of_mem_firsts (List.mem_of_find?_eq_some hs))

theorem mem_builtin_of_mem_functions {scope : Scope} {s : Symbol} (hs : s ∈ scope.functions) :
    s ∈ Builtin.functions := by
  unfold functions at hs
  split at hs
  · exact hs
  · exact absurd hs List.not_mem_nil

/-- Functions have no shape. -/
theorem wellKeyed_function {scope : Scope} {name : String} {s : Symbol}
    (hs : scope.function? name = some s) : s.WellKeyed := by
  rw [scope.function?_eq_find?] at hs
  have hmem := mem_builtin_of_mem_functions (List.mem_of_find?_eq_some hs)
  obtain ⟨f, -, rfl⟩ := List.mem_map.mp hmem
  exact Declared.wellKeyed_of_none rfl

end Scope

/-- In a well-keyed scope only well-keyed shapes are found. -/
theorem wellKeyed_resolve {scope : Scope} (h : scope.WellKeyed) (e : Expr) {shape : Shape}
    (hshape : (resolve scope e).shape? = some shape) : shape.WellKeyed := by
  fun_induction resolve scope e generalizing shape with
  | case1 name span => exact Resolution.wellKeyed_ofOption (fun s => h.lookup) hshape
  | case2 name nameSpan args span =>
    refine Resolution.wellKeyed_ofOption (fun s hs => ?_) hshape
    rcases Option.or_eq_some_iff.mp hs with hs | ⟨-, hs⟩
    · exact h.lookup hs
    · exact Scope.wellKeyed_function hs
  | case3 target args span hname ih => exact ih hshape
  | case4 target name nameSpan span hpath outer houter ih =>
    refine Resolution.wellKeyed_ofCandidates (fun s hs => ?_) hshape
    exact Shape.wellKeyed_of_mem_lookup (ih houter) hs
  | case5 => cases hshape
  | case6 => cases hshape
  | case7 => cases hshape

theorem wellKeyed_shapeOf? {scope : Scope} (h : scope.WellKeyed) {e : Expr} {shape : Shape}
    (hshape : shapeOf? scope e = some shape) : shape.WellKeyed := by
  unfold shapeOf? at hshape
  split at hshape
  · exact wellKeyed_resolve h e hshape
  · cases hshape

/-- A call of a bare name means what is visible under the name. -/
theorem resolve_bareCall (scope : Scope) (name : String) (nameSpan : Span) (args : List Expr)
    (span : Span) : resolve scope (.call (.identifier name nameSpan) args span) =
      .ofOption (Declared.find? (scopeCandidates scope) name) := by
  rw [resolve, find?_scopeCandidates]

/-- A name that stands alone means what is visible under it, unless that is a function. -/
theorem resolve_identifier {scope : Scope} {s : Symbol} (hs : s ∈ scopeCandidates scope)
    (hf : s ∉ Builtin.functions) (span : Span) :
    resolve scope (.identifier s.name span) = .resolved s := by
  have hsymbol : s ∈ scope.symbols := by
    refine (List.mem_append.mp hs).resolve_right fun hfunction => hf ?_
    exact Scope.mem_builtin_of_mem_functions (List.mem_filter.mp hfunction).1
  have hfind : Declared.find? scope.symbols s.name = some s :=
    (Declared.find?_eq_some_iff (Shape.nodup_firsts _ _)).mpr ⟨hsymbol, rfl⟩
  rw [resolve, scope.lookup_eq_find?, hfind]
  rfl

theorem resolve_property (scope : Scope) (target : Expr) (name : String) (nameSpan span : Span) :
    resolve scope (.property target (some name) nameSpan span) =
      ((shapeOf? scope target).map fun shape =>
        Resolution.ofCandidates (shape.lookup name)).getD .unresolved := by
  rw [resolve, shapeOf?]
  split
  · cases (resolve scope target).shape? <;> rfl
  · rfl

/-- **What a property access offers for a name** is the first declaration of the name in the
    shape of the target. -/
theorem filter_candidates_property {scope : Scope} (h : scope.WellKeyed) (target : Expr)
    (written : Option String) (nameSpan span : Span) (name : String) :
    ((candidates scope (.property target written nameSpan span)).filter fun s => s.name == name) =
      ((shapeOf? scope target).bind fun shape => (shape.lookup name).head?).toList := by
  rw [candidates]
  cases hshape : shapeOf? scope target with
  | none => rfl
  | some shape =>
    have hkeyed := wellKeyed_shapeOf? h hshape
    rw [Option.bind_some, Shape.head?_lookup hkeyed]
    exact Declared.filter_name (Shape.nodup_properties hkeyed) name

/-- **What is offered and what is meant agree.** What is visible in a scope has one symbol for
    each name, and exactly that one is meant when the name is called, or, unless it is a
    function, when the name stands alone. After a dot, a name is offered if and only if it means
    something there, and then once; what is offered is what is meant, up to its shape and its
    documentation. -/
theorem candidates_agree_resolve (scope : Scope) (h : scope.WellKeyed) :
    ((scopeCandidates scope).map Declared.name).Nodup ∧
    (∀ name nameSpan args span s,
      (s ∈ scopeCandidates scope ∧ s.name = name ↔
        resolve scope (.call (.identifier name nameSpan) args span) = .resolved s) ∧
      (s ∈ scopeCandidates scope → s.name = name → s ∉ Builtin.functions →
        resolve scope (.identifier name nameSpan) = .resolved s)) ∧
    ∀ target name nameSpan span written writtenSpan span',
      let offered := (candidates scope (.property target written writtenSpan span')).filter
        fun s => s.name == name
      let result := resolve scope (.property target (some name) nameSpan span)
      (offered ≠ [] ↔ result.isUnresolved = false) ∧
      ∀ c ∈ offered, offered = [c] ∧ ∃ found, result.symbol? = some found ∧
        c.name = found.name ∧ c.declaredAt = found.declaredAt ∧ c.typeHint = found.typeHint ∧
        c.origin = found.origin := by
  refine ⟨nodup_scopeCandidates scope, fun name nameSpan args span s => ⟨?_, ?_⟩, ?_⟩
  · rw [resolve_bareCall, ← Declared.find?_eq_some_iff (nodup_scopeCandidates scope)]
    cases Declared.find? (scopeCandidates scope) name with
    | none => simp [Resolution.ofOption]
    | some found => simp [Resolution.ofOption]
  · rintro hs rfl hf
    exact resolve_identifier hs hf nameSpan
  · intro target name nameSpan span written writtenSpan span' offered result
    have hoffered : offered = _ :=
      filter_candidates_property h target written writtenSpan span' name
    have hresult : result = _ := resolve_property scope target name nameSpan span
    rw [hoffered, hresult]
    have hnone : ∀ {p : Symbol → Prop}, (([] : List Symbol) ≠ [] ↔
        Resolution.unresolved.isUnresolved = false) ∧ ∀ c ∈ ([] : List Symbol), p c :=
      ⟨⟨fun h => absurd rfl h, fun h => Bool.noConfusion h⟩, fun c hc => absurd hc List.not_mem_nil⟩
    cases shapeOf? scope target with
    | none => exact hnone
    | some shape =>
      rw [Option.bind_some, Option.map_some, Option.getD_some]
      rcases Resolution.ofCandidates_head? (shape.lookup name) with
        ⟨hhead, hun⟩ | ⟨first, found, hhead, hres, hfound, hagree⟩
      · rw [hhead, hun]
        exact hnone
      · rw [hhead]
        refine ⟨⟨fun _ => hres, fun _ => List.cons_ne_nil _ _⟩, fun c hc => ?_⟩
        obtain rfl := List.mem_singleton.mp hc
        exact ⟨rfl, found, hfound, hagree⟩

/-- The variables of the runtime are well keyed. -/
theorem Builtin.wellKeyed_contextVariables : ∀ s ∈ Builtin.contextVariables, s.WellKeyed := by
  have hprovided : ∀ name typeHint doc, (Builtin.provided name typeHint doc).WellKeyed :=
    fun _ _ _ => Declared.wellKeyed_of_none rfl
  have hobject : ∀ name doc {properties : List Symbol}, (∀ s ∈ properties, s.WellKeyed) →
      (Builtin.object name doc properties).WellKeyed := by
    intro name doc properties h shape hshape
    obtain rfl := Option.some.inj hshape
    exact Shape.wellKeyed_ofSymbols h
  simp [Builtin.contextVariables, Builtin.userProperties, Builtin.contextProperties,
    Builtin.projectProperties, Builtin.processProperties, Builtin.logProperties, hprovided, hobject]

/-- A variable `v` that one branch gives a numeric `port`, and another a textual one: below a
    lambda that hides an outer `x`, the first `port` is offered and meant. -/
theorem candidates_agree_resolve_alternatives :
    let number : Symbol := ⟨"port", .document ⟨10, 14⟩, .int, .setStep, none, none⟩
    let text : Symbol := ⟨"port", .document ⟨30, 34⟩, .string, .setStep, none, none⟩
    let shape := (Shape.ofSymbols [number]).merge (Shape.ofSymbols [text])
    let v : Symbol := ⟨"v", .document ⟨5, 6⟩, .object, .setStep, none, some shape⟩
    let outer := Scope.lambdaParameter ⟨"x", ⟨40, 41⟩⟩
    let inner := Scope.lambdaParameter ⟨"x", ⟨44, 45⟩⟩
    let scope : Scope :=
      ⟨[.lambdaParameters [outer, inner], .declaredVariables [v], .builtinContext], true⟩
    let node := Expr.property (.identifier "v" ⟨50, 51⟩) (some "port") ⟨52, 56⟩ ⟨50, 56⟩
    scope.WellKeyed ∧ inner ∈ scopeCandidates scope ∧ outer ∉ scopeCandidates scope ∧
      resolve scope node = .ambiguous [number, text] ∧
      ∃ c, ((candidates scope node).filter fun s => s.name == "port") = [c] ∧
        c.declaredAt = number.declaredAt ∧ c.typeHint = number.typeHint := by
  intro number text shape v outer inner scope node
  have hkeyed : scope.WellKeyed := by
    intro s hs
    obtain ⟨layer, hlayer, hs⟩ := List.mem_flatMap.mp hs
    have hlayers : layer = .lambdaParameters [outer, inner] ∨ layer = .declaredVariables [v] ∨
        layer = .builtinContext := by simpa [scope] using hlayer
    rcases hlayers with rfl | rfl | rfl
    · have hparam : s = inner ∨ s = outer := by simpa [Layer.list] using hs
      rcases hparam with rfl | rfl <;> exact Declared.wellKeyed_of_none rfl
    · have hport : ∀ s : Symbol, s.shape = none → (Shape.ofSymbols [s]).WellKeyed := by
        intro s hs
        exact Shape.wellKeyed_ofSymbols (by simpa using Declared.wellKeyed_of_none hs)
      rw [List.mem_singleton.mp hs]
      intro shape' hshape
      exact Option.some.inj hshape ▸ (hport number rfl).merge (hport text rfl)
    · exact Builtin.wellKeyed_contextVariables s hs
  obtain ⟨-, hvisible, hproperty⟩ := candidates_agree_resolve scope hkeyed
  have hcall : resolve scope (.call (.identifier "x" ⟨60, 61⟩) [] ⟨60, 63⟩) = .resolved inner := rfl
  have hresult : resolve scope node = .ambiguous [number, text] := rfl
  refine ⟨hkeyed, ((hvisible _ _ _ _ _).1.mpr hcall).1, fun houter => ?_, hresult, ?_⟩
  · have hmeant := (hvisible "x" ⟨60, 61⟩ [] ⟨60, 63⟩ outer).1.mp ⟨houter, rfl⟩
    rw [hcall] at hmeant
    exact absurd (congrArg Declared.declaredAt (Resolution.resolved.inj hmeant)) (by decide)
  · obtain ⟨hoffered, honce⟩ := hproperty (.identifier "v" ⟨50, 51⟩) "port" ⟨52, 56⟩ ⟨50, 56⟩
      (some "port") ⟨52, 56⟩ ⟨50, 56⟩
    have hne := hoffered.mpr (by rw [hresult]; rfl)
    obtain ⟨c, hc⟩ := List.exists_mem_of_ne_nil _ hne
    obtain ⟨hone, found, hfound, -, hplace, htype, -⟩ := honce c hc
    rw [hresult] at hfound
    obtain rfl := Option.some.inj hfound
    exact ⟨c, hone, hplace, htype⟩

end FlowExpr
