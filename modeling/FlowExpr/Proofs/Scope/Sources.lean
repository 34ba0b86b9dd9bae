import FlowExpr.Proofs.Scope.Completion
import FlowExpr.Proofs.Scope.Earlier
import FlowExpr.Scope.Visible

/-!
# Where the symbols of a scope come from

A scope is made from what a document declares, but not as it stands: later declarations replace
earlier ones, and alternatives are joined into one symbol with another type and shape. Through
all of this a symbol keeps its name, its place and its origin:

* `Declared.From declared s`: the symbol stands for one of the declarations;
* `Step.from_of_layers`: what the layers of a row of steps hold;
* `Document.from_of_scopeAt`: what a whole scope holds;
* `Scope.mem_of_resolve`: a bare name means a symbol of its scope, or a function.
-/

namespace FlowExpr

/-- The symbol has name, place and origin of one of the declarations. -/
def Declared.From (declared : List Symbol) (s : Symbol) : Prop := ∃ d ∈ declared, d.same s = true

theorem Declared.from_of_mem {declared : List Symbol} {s : Symbol} (h : s ∈ declared) :
    From declared s := ⟨s, h, same_refl s⟩

theorem Declared.From.mono {xs ys : List Symbol} {s : Symbol} (h : From xs s) (hsub : xs ⊆ ys) :
    From ys s := by
  obtain ⟨d, hd, hsame⟩ := h
  exact ⟨d, hsub hd, hsame⟩

/-- The symbols of the layer are those of the runtime or stand for the declarations. -/
def Layer.From (declared : List Symbol) (layer : Layer) : Prop :=
  ∀ s ∈ layer.list, s.declaredAt = .builtin ∨ Declared.From declared s

theorem Layer.From.mono {xs ys : List Symbol} {layer : Layer} (h : layer.From xs)
    (hsub : xs ⊆ ys) : layer.From ys := fun s hs => (h s hs).imp_right (·.mono hsub)

/-! ## 1. The runtime -/

namespace Builtin

theorem declaredAt_contextVariables : ∀ s ∈ contextVariables, s.declaredAt = .builtin := by
  simp [contextVariables, provided, object]

theorem declaredAt_functions : ∀ s ∈ functions, s.declaredAt = .builtin := by
  intro s hs
  obtain ⟨f, -, rfl⟩ := List.mem_map.mp hs
  rfl

end Builtin

/-! ## 2. Steps -/

namespace Step

variable {settings : Settings} {o : Nat} {steps : List Step} {u : Step} {layer : Layer}

theorem stepDeclarations_eq_flatMap (steps : List Step) :
    stepDeclarations steps = steps.flatMap allDeclarations := by
  induction steps with
  | nil => rfl
  | cons u rest ih => rw [stepDeclarations, ih, List.flatMap_cons]

theorem branchDeclarations_eq_flatMap (branches : List (BranchOf Step)) :
    branchDeclarations branches = branches.flatMap fun b => stepDeclarations b.steps := by
  induction branches with
  | nil => rfl
  | cons b rest ih => rw [branchDeclarations, ih, List.flatMap_cons]

/-- A step's own declarations are among those of its row. -/
theorem declarations_subset (hu : u ∈ steps) : u.declarations ⊆ stepDeclarations steps := by
  intro s hs
  rw [stepDeclarations_eq_flatMap]
  refine List.mem_flatMap.mpr ⟨u, hu, ?_⟩
  cases u with
  | mk kind span declarations outSpan hasLoop branches => exact List.mem_append_left _ hs

/-- The declarations of a branch are among those of the row that it hangs on. -/
theorem branch_declarations_subset (hu : u ∈ steps) {b : Branch} (hb : b ∈ u.branches) :
    stepDeclarations b.steps ⊆ stepDeclarations steps := by
  intro s hs
  rw [stepDeclarations_eq_flatMap steps]
  refine List.mem_flatMap.mpr ⟨u, hu, ?_⟩
  cases u with
  | mk kind span declarations outSpan hasLoop branches =>
    refine List.mem_append_right _ ?_
    rw [branchDeclarations_eq_flatMap]
    exact List.mem_flatMap.mpr ⟨b, hb, hs⟩

theorem Stands.declarations_subset {chain : Chain} {t : Step} (h : Stands steps chain t) :
    t.declarations ⊆ stepDeclarations steps := by
  induction h with
  | here h => exact Step.declarations_subset h
  | within hu hb _ ih => exact List.Subset.trans ih (branch_declarations_subset hu hb)

theorem Stands.of_subset {row : List Step} {chain : Chain} {t : Step} (h : Stands row chain t)
    (hsub : row ⊆ steps) : Stands steps chain t := by
  cases h with
  | here ht => exact .here (hsub ht)
  | within hu hb ht => exact .within (hsub hu) hb ht

theorem earlier_subset : earlier o steps ⊆ steps := by
  unfold earlier
  split
  · exact List.take_subset _ _
  · exact (List.takeWhile_prefix _).subset

/-- What the earlier steps leave behind stands for declarations of the row. -/
theorem from_of_earlierLayer (h : layer ∈ earlierLayer settings o steps) :
    layer.From (stepDeclarations steps) := by
  unfold earlierLayer at h
  split at h
  · cases h
  · obtain rfl := List.mem_singleton.mp h
    intro s hs
    obtain ⟨t, ⟨chain, hstands, -⟩, declared, hdeclared, hsame⟩ :=
      (mem_leftByAll hs).resolve_left List.not_mem_nil
    have hrow := hstands.of_subset earlier_subset
    exact .inr ⟨declared, hrow.declarations_subset hdeclared, hsame⟩

theorem from_of_ownLayers {kind : StepKind} {outSpan : Option Span} {hasLoop : Bool}
    (h : layer ∈ ownLayers o kind outSpan hasLoop) (declared : List Symbol) :
    layer.From declared := by
  have hlayer : layer = .taskResult ∨ layer = .loop := by
    unfold ownLayers at h
    rcases List.mem_append.mp h with h | h <;> split at h <;> simp_all
  rcases hlayer with rfl | rfl
  · intro s hs
    obtain rfl := List.mem_singleton.mp hs
    exact .inl rfl
  · intro s hs
    refine .inl ?_
    revert s
    simp [Layer.list, Builtin.loopVariables, Builtin.provided]

theorem mem_layersInBranches {branches : List (BranchOf Step)}
    (h : layer ∈ layersInBranches settings o branches) :
    ∃ b ∈ branches, layer ∈ layers settings o b.steps := by
  induction branches with
  | nil => cases h
  | cons b rest ih =>
    unfold layersInBranches at h
    split at h
    · exact ⟨b, List.mem_cons_self, h⟩
    · obtain ⟨c, hc, h⟩ := ih h
      exact ⟨c, List.mem_cons_of_mem _ hc, h⟩

theorem mem_layersAt {index : Option Nat} (h : layer ∈ layersAt settings o index steps) :
    ∃ u ∈ steps, layer ∈ u.layersIn settings o := by
  induction steps generalizing index with
  | nil => cases index with
    | none => cases h
    | some i => cases i <;> cases h
  | cons u rest ih =>
    cases index with
    | none => cases h
    | some i =>
      cases i with
      | zero => exact ⟨u, List.mem_cons_self, h⟩
      | succ i =>
        obtain ⟨v, hv, h⟩ := ih h
        exact ⟨v, List.mem_cons_of_mem _ hv, h⟩

/-- **The layers of a row of steps hold only what the runtime provides and what steps of the row,
    or of its branches, declare.** -/
theorem from_of_layers (h : layer ∈ layers settings o steps) :
    layer.From (stepDeclarations steps) := by
  induction steps using rows_induction with
  | h steps ih =>
    rcases List.mem_append.mp h with h | h
    · obtain ⟨u, hu, h⟩ := mem_layersAt h
      have hbranch := ih u hu
      have hsub : ∀ b ∈ u.branches, stepDeclarations b.steps ⊆ stepDeclarations steps := fun b hb =>
        branch_declarations_subset hu hb
      cases u with
      | mk kind span declarations outSpan hasLoop branches =>
        rw [layersIn] at h
        rcases List.mem_append.mp h with h | h
        · obtain ⟨b, hb, h⟩ := mem_layersInBranches h
          exact (hbranch b hb h).mono (hsub b hb)
        · exact from_of_ownLayers h _
    · exact from_of_earlierLayer h

end Step

/-! ## 3. Documents -/

namespace Document

variable {d : Document} {settings : Settings} {o : Nat}

theorem mem_of_flowAt? {flow : Flow} (h : d.flowAt? o = some flow) : flow ∈ d.flows := by
  rcases Option.or_eq_some_iff.mp h with h | ⟨-, h⟩
  · exact List.mem_of_find?_eq_some h
  · exact List.mem_of_getLast? (Option.eq_some_of_filter_eq_some h)

/-- What a flow declares is among the declarations of the document. -/
theorem flow_declarations_subset {flow : Flow} (h : flow ∈ d.flows) :
    flow.parameters ++ Step.stepDeclarations flow.steps ⊆ d.declarations := by
  intro s hs
  exact List.mem_append_right _ (List.mem_flatMap.mpr ⟨flow, h, hs⟩)

theorem from_of_flowLayers {flow : Flow} {layer : Layer}
    (h : layer ∈ flowLayers settings o flow) :
    layer.From (flow.parameters ++ Step.stepDeclarations flow.steps) := by
  rcases List.mem_append.mp h with h | h
  · exact (Step.from_of_layers h).mono (List.subset_append_right _ _)
  · split at h
    · cases h
    · obtain rfl := List.mem_singleton.mp h
      exact fun s hs => .inr (Declared.from_of_mem (List.mem_append_left _ hs))

/-- **A scope holds only what the runtime provides and what the document declares.** -/
theorem from_of_scopeAt {layer : Layer} (h : layer ∈ (d.scopeAt settings o).layers) :
    layer.From d.declarations := by
  rcases List.mem_append.mp h with h | h
  · rcases List.mem_append.mp h with h | h
    · cases hflow : d.flowAt? o with
      | none =>
        rw [hflow] at h
        cases h
      | some flow =>
        rw [hflow] at h
        exact (from_of_flowLayers h).mono (flow_declarations_subset (mem_of_flowAt? hflow))
    · unfold argumentLayer at h
      split at h
      · obtain rfl := List.mem_singleton.mp h
        exact fun s hs => .inr (Declared.from_of_mem (List.mem_append_left _ hs))
      · cases h
  · obtain rfl := List.mem_singleton.mp h
    exact fun s hs => .inl (Builtin.declaredAt_contextVariables s hs)

end Document

/-! ## 4. Bare names -/

/-- The node is a name or a call of a bare name. -/
def Expr.isBareName : Expr → Bool
  | .identifier .. => true
  | .call (.identifier ..) _ _ => true
  | _ => false

namespace Scope

theorem mem_of_lookup {scope : Scope} {name : String} {s : Symbol}
    (h : scope.lookup name = some s) : ∃ layer ∈ scope.layers, s ∈ layer.list := by
  obtain ⟨layer, hlayer, hfound⟩ := List.exists_of_findSome?_eq_some h
  rw [layer.lookup_eq_find?] at hfound
  exact ⟨layer, hlayer, List.mem_of_find?_eq_some hfound⟩

/-- A bare name means a symbol of the scope or a function. -/
theorem mem_of_resolve {scope : Scope} {node : Expr} {s : Symbol}
    (hnode : node.isBareName = true) (h : resolve scope node = .resolved s) :
    (∃ layer ∈ scope.layers, s ∈ layer.list) ∨ s ∈ Builtin.functions := by
  have hoption : ∀ {found : Option Symbol}, Resolution.ofOption found = .resolved s →
      found = some s := by
    rintro (_ | symbol) ⟨⟩
    rfl
  unfold Expr.isBareName at hnode
  split at hnode
  · rw [resolve] at h
    exact .inl (mem_of_lookup (hoption h))
  · rw [resolve] at h
    rcases Option.or_eq_some_iff.mp (hoption h) with h | ⟨-, h⟩
    · exact .inl (mem_of_lookup h)
    · rw [scope.function?_eq_find?] at h
      exact .inr (mem_builtin_of_mem_functions (List.mem_of_find?_eq_some h))
  · cases hnode

/-- Inside lambdas there are their parameters too. -/
theorem mem_withParams {scope : Scope} {params : List Param} {layer : Layer}
    (h : layer ∈ (scope.withParams params).layers) :
    layer ∈ scope.layers ∨ ∀ s ∈ layer.list, s.origin = .lambdaParameter := by
  unfold withParams at h
  split at h
  · exact .inl h
  · rcases List.mem_cons.mp h with rfl | h
    · refine .inr fun s hs => ?_
      obtain ⟨p, -, rfl⟩ := List.mem_map.mp (List.mem_reverse.mp hs)
      rfl
    · exact .inl h

end Scope

end FlowExpr
