import FlowExpr.Scope.Earlier

/-!
# What a row of steps leaves behind, and whose declarations it is

A step can stand deep in the branches of other steps. Its place is given by the chain of steps
and branches around it, and with that it can be said which declarations a row of steps leaves
behind:

* `Step.Stands steps chain t`: the step `t` stands in the row, below the chain;
* `Step.Counts withBranches steps t`: it stands in the row itself, or branches count;
* `Step.mem_leftByAll`: what is left behind was declared by a step that counts;
* `Step.named_leftByAll`: and every name that such a step declares is left behind;
* `Step.leftByAll_redeclare`: the declarations of other steps play no part.
-/

namespace FlowExpr

/-! ## 1. Declarations -/

namespace Declared

/-- One of the symbols has the name. -/
def Named (symbols : List Symbol) (name : String) : Prop := ∃ s ∈ symbols, s.name = name

@[simp] theorem not_named_nil (name : String) : ¬Named [] name := by simp [Named]

@[simp] theorem named_cons {symbol : Symbol} {symbols : List Symbol} {name : String} :
    Named (symbol :: symbols) name ↔ symbol.name = name ∨ Named symbols name := by
  simp [Named]

theorem Named.ne_nil {symbols : List Symbol} {name : String} (h : Named symbols name) :
    symbols ≠ [] := by
  rintro rfl
  exact not_named_nil name h

/-- A look-up finds a symbol of the name. -/
theorem Named.exists_find? {symbols : List Symbol} {name : String} (h : Named symbols name) :
    ∃ s, find? symbols name = some s := by
  obtain ⟨s, hs, hname⟩ := h
  exact Option.isSome_iff_exists.mp (List.find?_isSome.mpr ⟨s, hs, beq_iff_eq.mpr hname⟩)

theorem named_append {xs ys : List Symbol} {name : String} :
    Named (xs ++ ys) name ↔ Named xs name ∨ Named ys name := by
  simp [Named, or_and_right, exists_or]

theorem named_declare {symbols : List Symbol} {symbol : Symbol} {name : String} :
    Named (declare symbols symbol) name ↔ Named symbols name ∨ symbol.name = name := by
  simp only [Named, mem_declare]
  constructor
  · rintro ⟨s, ⟨hs, -⟩ | rfl, hname⟩
    · exact .inl ⟨s, hs, hname⟩
    · exact .inr hname
  · rintro (⟨s, hs, hname⟩ | hname)
    · -- a symbol of the new one's name gives way to it
      by_cases hsame : s.name = symbol.name
      · exact ⟨symbol, .inr rfl, hsame ▸ hname⟩
      · exact ⟨s, .inl ⟨hs, hsame⟩, hname⟩
    · exact ⟨symbol, .inr rfl, hname⟩

theorem mem_declareAll {symbols more : List Symbol} {s : Symbol}
    (h : s ∈ declareAll symbols more) : s ∈ symbols ∨ s ∈ more := by
  induction more generalizing symbols with
  | nil => exact .inl h
  | cons m more ih =>
    rcases ih h with h | h
    · rcases mem_declare.mp h with ⟨h, -⟩ | rfl
      · exact .inl h
      · exact .inr List.mem_cons_self
    · exact .inr (List.mem_cons_of_mem _ h)

theorem named_declareAll {symbols more : List Symbol} {name : String} :
    Named (declareAll symbols more) name ↔ Named symbols name ∨ Named more name := by
  induction more generalizing symbols with
  | nil => simp
  | cons m more ih => rw [declareAll_cons, ih, named_declare, or_assoc, named_cons]

theorem mem_addAlternative {symbol s : Symbol} {symbols : List Symbol}
    (h : s ∈ addAlternative symbol symbols) :
    (∃ first ∈ symbols, first.same s = true) ∨ s = symbol := by
  induction symbols with
  | nil => exact .inr (List.mem_singleton.mp h)
  | cons x rest ih =>
    unfold addAlternative at h
    split at h
    · rcases List.mem_cons.mp h with rfl | h
      · exact .inl ⟨x, List.mem_cons_self, same_iff.mpr ⟨rfl, rfl, rfl⟩⟩
      · exact .inl ⟨s, List.mem_cons_of_mem _ h, same_refl s⟩
    · rcases List.mem_cons.mp h with rfl | h
      · exact .inl ⟨s, List.mem_cons_self, same_refl s⟩
      · rcases ih h with ⟨first, hfirst, hsame⟩ | rfl
        · exact .inl ⟨first, List.mem_cons_of_mem _ hfirst, hsame⟩
        · exact .inr rfl

theorem named_addAlternative {symbol : Symbol} {symbols : List Symbol} {name : String} :
    Named (addAlternative symbol symbols) name ↔ Named symbols name ∨ symbol.name = name := by
  induction symbols with
  | nil => simp [addAlternative]
  | cons x rest ih =>
    unfold addAlternative
    split
    · rename_i hname
      rw [named_cons, named_cons, ← hname]
      exact ⟨.inl, fun h => h.elim id .inl⟩
    · rw [named_cons, named_cons, ih, or_assoc]

theorem mem_foldl_addAlternative {xs merged : List Symbol} {s : Symbol}
    (h : s ∈ xs.foldl (fun merged symbol => addAlternative symbol merged) merged) :
    ∃ first ∈ merged ++ xs, first.same s = true := by
  induction xs generalizing merged with
  | nil => exact ⟨s, List.mem_append_left _ h, same_refl s⟩
  | cons x xs ih =>
    obtain ⟨first, hfirst, hsame⟩ := ih h
    rcases List.mem_append.mp hfirst with hfirst | hfirst
    · rcases mem_addAlternative hfirst with ⟨m, hm, hsame'⟩ | rfl
      · exact ⟨m, List.mem_append_left _ hm, same_trans hsame' hsame⟩
      · exact ⟨first, List.mem_append_right _ List.mem_cons_self, hsame⟩
    · exact ⟨first, List.mem_append_right _ (List.mem_cons_of_mem _ hfirst), hsame⟩

/-- A symbol of merged branches stands for a declaration of one of them. -/
theorem mem_mergeAlternatives {branches : List (List Symbol)} {s : Symbol}
    (h : s ∈ mergeAlternatives branches) : ∃ first ∈ branches.flatten, first.same s = true :=
  mem_foldl_addAlternative h

theorem named_foldl_addAlternative {xs merged : List Symbol} {name : String} :
    Named (xs.foldl (fun merged symbol => addAlternative symbol merged) merged) name ↔
      Named merged name ∨ Named xs name := by
  induction xs generalizing merged with
  | nil => simp
  | cons x xs ih => rw [List.foldl_cons, ih, named_addAlternative, or_assoc, named_cons]

theorem named_mergeAlternatives {branches : List (List Symbol)} {name : String} :
    Named (mergeAlternatives branches) name ↔ Named branches.flatten name := by
  rw [mergeAlternatives, named_foldl_addAlternative, or_iff_right (not_named_nil name)]

end Declared

/-! ## 2. Places of steps -/

/-- The steps around a place, the outermost first: the range of each, with that of the branch of
    it that the place is in. -/
abbrev Chain := List (Span × Span)

namespace Step

/-- The step stands in the row itself, or further down in a branch of one of its steps. -/
inductive Stands : List Step → Chain → Step → Prop where
  | here {steps : List Step} {t : Step} (h : t ∈ steps) : Stands steps [] t
  | within {steps : List Step} {u t : Step} {b : Branch} {chain : Chain} (hu : u ∈ steps)
      (hb : b ∈ u.branches) (h : Stands b.steps chain t) :
      Stands steps ((u.span, b.span) :: chain) t

theorem sizeOf_branch_lt {steps : List Step} {u : Step} {b : Branch} (hu : u ∈ steps)
    (hb : b ∈ u.branches) : sizeOf b.steps < sizeOf steps := by
  have hstep := List.sizeOf_lt_of_mem hu
  have hbranch := List.sizeOf_lt_of_mem hb
  cases u with
  | mk kind span declarations outSpan hasLoop branches =>
    cases b with
    | mk label bspan bsteps =>
      simp only [Step.branches, mk.sizeOf_spec, BranchOf.mk.sizeOf_spec] at *
      omega

/-- What holds of a row of steps whenever it holds of the branches of its steps holds of every
    row. -/
theorem rows_induction {P : List Step → Prop}
    (h : ∀ steps, (∀ u ∈ steps, ∀ b ∈ u.branches, P b.steps) → P steps) (steps : List Step) :
    P steps :=
  h steps fun _ hu b hb =>
    have _hlt := sizeOf_branch_lt hu hb
    rows_induction h b.steps
termination_by sizeOf steps
decreasing_by exact _hlt

/-- The declarations of the step count for what the row leaves behind: it stands in the row
    itself, or branches count. -/
def Counts (withBranches : Bool) (steps : List Step) (t : Step) : Prop :=
  ∃ chain, Stands steps chain t ∧ (chain = [] ∨ withBranches = true)

variable {withBranches : Bool}

theorem counts_iff {steps : List Step} {t : Step} :
    Counts withBranches steps t ↔ ∃ u ∈ steps, t = u ∨
      (withBranches = true ∧ ∃ b ∈ u.branches, Counts withBranches b.steps t) := by
  constructor
  · rintro ⟨chain, hstands, hcounts⟩
    cases hstands with
    | here h => exact ⟨t, h, .inl rfl⟩
    | within hu hb h =>
      have hon : withBranches = true := hcounts.resolve_left (List.cons_ne_nil _ _)
      exact ⟨_, hu, .inr ⟨hon, _, hb, _, h, .inr hon⟩⟩
  · rintro ⟨u, hu, rfl | ⟨hon, b, hb, chain, h, -⟩⟩
    · exact ⟨[], .here hu, .inl rfl⟩
    · exact ⟨_, .within hu hb h, .inr hon⟩

theorem counts_cons {u t : Step} {steps : List Step} :
    Counts withBranches (u :: steps) t ↔
      Counts withBranches [u] t ∨ Counts withBranches steps t := by
  rw [counts_iff, counts_iff, counts_iff]
  simp

/-! ## 3. Whose declarations are left behind -/

/-- The symbol stands for a declaration of a step that counts. -/
def Provided (withBranches : Bool) (steps : List Step) (s : Symbol) : Prop :=
  ∃ t, Counts withBranches steps t ∧ ∃ declared ∈ t.declarations, declared.same s = true

theorem Provided.of_branch {u : Step} {b : Branch} {s : Symbol} (hb : b ∈ u.branches)
    (hon : withBranches = true) (h : Provided withBranches b.steps s) :
    Provided withBranches [u] s := by
  obtain ⟨t, ht, hdeclared⟩ := h
  exact ⟨t, counts_iff.mpr ⟨u, List.mem_singleton_self _, .inr ⟨hon, b, hb, ht⟩⟩, hdeclared⟩

theorem leftByEach_eq_map (branches : List (BranchOf Step)) :
    leftByEach withBranches branches =
      branches.map fun b => leftByAll withBranches [] b.steps := by
  induction branches with
  | nil => rfl
  | cons b rest ih => rw [leftByEach, ih, List.map_cons]

theorem mem_leftByBranches {branches : List (BranchOf Step)} {before : List Symbol} {s : Symbol}
    (ih : ∀ b ∈ branches, ∀ before, s ∈ leftByAll withBranches before b.steps →
      s ∈ before ∨ Provided withBranches b.steps s)
    (h : s ∈ leftByBranches withBranches before branches) :
    s ∈ before ∨ ∃ b ∈ branches, Provided withBranches b.steps s := by
  induction branches generalizing before with
  | nil => exact .inl h
  | cons b rest ihs =>
    rw [leftByBranches] at h
    rcases ihs (fun c hc => ih c (List.mem_cons_of_mem _ hc)) h with h | ⟨c, hc, h⟩
    · rcases ih b List.mem_cons_self before h with h | h
      · exact .inl h
      · exact .inr ⟨b, List.mem_cons_self, h⟩
    · exact .inr ⟨c, List.mem_cons_of_mem _ hc, h⟩

theorem mem_leftBy {u : Step} {before : List Symbol} {s : Symbol}
    (ih : ∀ b ∈ u.branches, ∀ before s, s ∈ leftByAll withBranches before b.steps →
      s ∈ before ∨ Provided withBranches b.steps s)
    (h : s ∈ u.leftBy withBranches before) : s ∈ before ∨ Provided withBranches [u] s := by
  cases u with
  | mk kind span declarations outSpan hasLoop branches =>
    rw [leftBy] at h
    rcases Declared.mem_declareAll h with h | h
    · split at h
      · rename_i hon
        split at h
        · -- one of the branches runs
          rcases Declared.mem_declareAll h with h | h
          · exact .inl h
          · obtain ⟨first, hfirst, hsame⟩ := Declared.mem_mergeAlternatives h
            rw [leftByEach_eq_map] at hfirst
            obtain ⟨symbols, hsymbols, hfirst⟩ := List.mem_flatten.mp hfirst
            obtain ⟨b, hb, rfl⟩ := List.mem_map.mp hsymbols
            obtain ⟨t, ht, declared, hdeclared, hsame'⟩ :=
              (ih b hb [] first hfirst).resolve_left List.not_mem_nil
            exact .inr (.of_branch hb hon
              ⟨t, ht, declared, hdeclared, Declared.same_trans hsame' hsame⟩)
        · -- all branches run
          rcases mem_leftByBranches (fun b hb before => ih b hb before s) h with h | ⟨b, hb, h⟩
          · exact .inl h
          · exact .inr (.of_branch hb hon h)
      · exact .inl h
    · exact .inr ⟨_, counts_iff.mpr ⟨_, List.mem_singleton_self _, .inl rfl⟩, s, h,
        Declared.same_refl s⟩

/-- **What a row of steps leaves behind was there before or was declared by a step that
    counts.** -/
theorem mem_leftByAll {steps : List Step} {before : List Symbol} {s : Symbol}
    (h : s ∈ leftByAll withBranches before steps) :
    s ∈ before ∨ Provided withBranches steps s := by
  induction steps using rows_induction generalizing before s with
  | h steps ih =>
    induction steps generalizing before with
    | nil => exact .inl h
    | cons u rest ihs =>
      rw [leftByAll] at h
      rcases ihs (fun v hv => ih v (List.mem_cons_of_mem _ hv)) h with h | ⟨t, ht, hdeclared⟩
      · rcases mem_leftBy (fun b hb _ _ => ih u List.mem_cons_self b hb) h with
          h | ⟨t, ht, hdeclared⟩
        · exact .inl h
        · exact .inr ⟨t, counts_cons.mpr (.inl ht), hdeclared⟩
      · exact .inr ⟨t, counts_cons.mpr (.inr ht), hdeclared⟩

/-! ## 4. Every name is left behind -/

/-- A step that counts declares the name. -/
def Names (withBranches : Bool) (steps : List Step) (name : String) : Prop :=
  ∃ t, Counts withBranches steps t ∧ Declared.Named t.declarations name

theorem names_cons {u : Step} {steps : List Step} {name : String} :
    Names withBranches (u :: steps) name ↔
      Names withBranches [u] name ∨ Names withBranches steps name := by
  constructor
  · rintro ⟨t, ht, hname⟩
    exact (counts_cons.mp ht).imp (fun h => ⟨t, h, hname⟩) fun h => ⟨t, h, hname⟩
  · rintro (⟨t, ht, hname⟩ | ⟨t, ht, hname⟩)
    · exact ⟨t, counts_cons.mpr (.inl ht), hname⟩
    · exact ⟨t, counts_cons.mpr (.inr ht), hname⟩

theorem names_singleton {u : Step} {name : String} :
    Names withBranches [u] name ↔ Declared.Named u.declarations name ∨
      (withBranches = true ∧ ∃ b ∈ u.branches, Names withBranches b.steps name) := by
  constructor
  · rintro ⟨t, ht, hname⟩
    obtain ⟨v, hv, hcounts⟩ := counts_iff.mp ht
    obtain rfl := List.mem_singleton.mp hv
    rcases hcounts with rfl | ⟨hon, b, hb, ht⟩
    · exact .inl hname
    · exact .inr ⟨hon, b, hb, t, ht, hname⟩
  · rintro (hname | ⟨hon, b, hb, t, ht, hname⟩)
    · exact ⟨u, counts_iff.mpr ⟨u, List.mem_singleton_self _, .inl rfl⟩, hname⟩
    · exact ⟨t, counts_iff.mpr ⟨u, List.mem_singleton_self _, .inr ⟨hon, b, hb, ht⟩⟩, hname⟩

theorem named_leftByEach {branches : List (BranchOf Step)} {name : String}
    (ih : ∀ b ∈ branches, ∀ before, Declared.Named (leftByAll withBranches before b.steps) name ↔
      Declared.Named before name ∨ Names withBranches b.steps name) :
    Declared.Named (leftByEach withBranches branches).flatten name ↔
      ∃ b ∈ branches, Names withBranches b.steps name := by
  induction branches with
  | nil => simp [leftByEach]
  | cons b rest ihs =>
    rw [leftByEach, List.flatten_cons, Declared.named_append,
      ihs fun c hc => ih c (List.mem_cons_of_mem _ hc), ih b List.mem_cons_self]
    simp

theorem named_leftByBranches {branches : List (BranchOf Step)} {before : List Symbol}
    {name : String}
    (ih : ∀ b ∈ branches, ∀ before, Declared.Named (leftByAll withBranches before b.steps) name ↔
      Declared.Named before name ∨ Names withBranches b.steps name) :
    Declared.Named (leftByBranches withBranches before branches) name ↔
      Declared.Named before name ∨ ∃ b ∈ branches, Names withBranches b.steps name := by
  induction branches generalizing before with
  | nil => simp [leftByBranches]
  | cons b rest ihs =>
    rw [leftByBranches, ihs fun c hc => ih c (List.mem_cons_of_mem _ hc),
      ih b List.mem_cons_self, or_assoc]
    simp

theorem named_leftBy {u : Step} {before : List Symbol} {name : String}
    (ih : ∀ b ∈ u.branches, ∀ before,
      Declared.Named (leftByAll withBranches before b.steps) name ↔
        Declared.Named before name ∨ Names withBranches b.steps name) :
    Declared.Named (u.leftBy withBranches before) name ↔
      Declared.Named before name ∨ Names withBranches [u] name := by
  rw [names_singleton]
  cases u with
  | mk kind span declarations outSpan hasLoop branches =>
    dsimp only [Step.branches, Step.declarations] at ih ⊢
    rw [leftBy, Declared.named_declareAll]
    cases withBranches with
    | false => simp
    | true =>
      have hinner : Declared.Named (if kind.isExclusive then Declared.declareAll before
          (Declared.mergeAlternatives (leftByEach true branches))
          else leftByBranches true before branches) name ↔
            Declared.Named before name ∨ ∃ b ∈ branches, Names true b.steps name := by
        split
        · rw [Declared.named_declareAll, Declared.named_mergeAlternatives, named_leftByEach ih]
        · exact named_leftByBranches ih
      rw [if_pos rfl, hinner, eq_self_iff_true, true_and]
      exact or_assoc.trans (or_congr_right Or.comm)

/-- **A name is left behind exactly if it was there before or a step that counts declares it.** -/
theorem named_leftByAll {steps : List Step} {before : List Symbol} {name : String} :
    Declared.Named (leftByAll withBranches before steps) name ↔
      Declared.Named before name ∨ Names withBranches steps name := by
  induction steps using rows_induction generalizing before with
  | h steps ih =>
    induction steps generalizing before with
    | nil =>
      have hnone : ¬Names withBranches [] name := by
        rintro ⟨t, ht, -⟩
        obtain ⟨u, hu, -⟩ := counts_iff.mp ht
        exact absurd hu List.not_mem_nil
      rw [leftByAll]
      simp [hnone]
    | cons u rest ihs =>
      rw [leftByAll, ihs fun v hv => ih v (List.mem_cons_of_mem _ hv),
        named_leftBy fun b hb _ => ih u List.mem_cons_self b hb, or_assoc, ← names_cons]

/-! ## 5. Other declarations play no part -/

mutual

/-- The step, and all steps in its branches, with other declarations, given for each by its
    place. -/
def redeclare (given : Chain → Step → List Symbol) : Step → Step
  | mk kind span declarations outSpan hasLoop branches =>
    mk kind span (given [] (mk kind span declarations outSpan hasLoop branches)) outSpan hasLoop
      (redeclareBranches given span branches)

/-- Branches of a step at a range with other declarations. -/
def redeclareBranches (given : Chain → Step → List Symbol) (outer : Span) :
    List (BranchOf Step) → List (BranchOf Step)
  | [] => []
  | ⟨label, span, steps⟩ :: rest =>
    ⟨label, span, redeclareAll (fun chain => given ((outer, span) :: chain)) steps⟩ ::
      redeclareBranches given outer rest

/-- A row of steps with other declarations. -/
def redeclareAll (given : Chain → Step → List Symbol) : List Step → List Step
  | [] => []
  | step :: rest => step.redeclare given :: redeclareAll given rest

end

variable {given : Chain → Step → List Symbol}

theorem redeclareAll_eq_map (steps : List Step) :
    redeclareAll given steps = steps.map (redeclare given) := by
  induction steps with
  | nil => rfl
  | cons step rest ih => rw [redeclareAll, ih, List.map_cons]

/-- The branch of a step at a range with other declarations. -/
def redeclareBranch (given : Chain → Step → List Symbol) (outer : Span) (b : Branch) : Branch :=
  { b with steps := redeclareAll (fun chain => given ((outer, b.span) :: chain)) b.steps }

theorem redeclareBranches_eq_map (outer : Span) (branches : List (BranchOf Step)) :
    redeclareBranches given outer branches = branches.map (redeclareBranch given outer) := by
  induction branches with
  | nil => rfl
  | cons b rest ih => rw [redeclareBranches, ih, List.map_cons]; rfl

@[simp] theorem span_redeclare (u : Step) : (u.redeclare given).span = u.span := by
  cases u
  rw [redeclare]
  rfl

@[simp] theorem declarations_redeclare (u : Step) :
    (u.redeclare given).declarations = given [] u := by
  cases u
  rw [redeclare]
  rfl

/-- All but the declarations stays as it is. -/
theorem redeclare_frame (given : Chain → Step → List Symbol) (u : Step) :
    (u.redeclare given).kind = u.kind ∧ (u.redeclare given).outSpan = u.outSpan ∧
      (u.redeclare given).hasLoop = u.hasLoop ∧
      (u.redeclare given).branches = u.branches.map (redeclareBranch given u.span) := by
  cases u
  rw [redeclare, redeclareBranches_eq_map]
  exact ⟨rfl, rfl, rfl, rfl⟩

/-- Steps whose declarations are given as they are stay as they are. -/
theorem redeclareAll_eq_self {steps : List Step}
    (h : ∀ chain t, Stands steps chain t → given chain t = t.declarations) :
    redeclareAll given steps = steps := by
  induction steps using rows_induction generalizing given with
  | h steps ih =>
    have hstep : ∀ u ∈ steps, u.redeclare given = u := by
      intro u hu
      have hbranch : ∀ b ∈ u.branches, redeclareBranch given u.span b = b := by
        intro b hb
        have hsteps := ih u hu b hb fun chain t ht => h _ t (.within hu hb ht)
        rw [redeclareBranch, hsteps]
      have hown := h [] u (.here hu)
      cases u with
      | mk kind span declarations outSpan hasLoop branches =>
        have hbranches : branches.map (redeclareBranch given span) = branches :=
          (List.map_congr_left hbranch).trans (List.map_id' _)
        rw [redeclare, hown, redeclareBranches_eq_map, hbranches]
        rfl
    rw [redeclareAll_eq_map, List.map_congr_left hstep, List.map_id']

/-- Without its branches, a step leaves its own declarations. -/
theorem leftBy_false (u : Step) (before : List Symbol) :
    u.leftBy false before = Declared.declareAll before u.declarations := by
  cases u with
  | mk kind span declarations outSpan hasLoop branches => rfl

/-- **The declarations of steps that do not count play no part** in what a row leaves behind. -/
theorem leftByAll_redeclare {steps : List Step} {before : List Symbol}
    (h : ∀ chain t, Stands steps chain t → (chain = [] ∨ withBranches = true) →
      given chain t = t.declarations) :
    leftByAll withBranches before (redeclareAll given steps) =
      leftByAll withBranches before steps := by
  cases withBranches with
  | true => rw [redeclareAll_eq_self fun chain t ht => h chain t ht (.inr rfl)]
  | false =>
    have hown : ∀ u ∈ steps, given [] u = u.declarations := fun u hu =>
      h [] u (.here hu) (.inl rfl)
    clear h
    induction steps generalizing before with
    | nil => rfl
    | cons u rest ih =>
      rw [redeclareAll, leftByAll, leftByAll, leftBy_false, leftBy_false, declarations_redeclare,
        hown u List.mem_cons_self, ih fun v hv => hown v (List.mem_cons_of_mem _ hv)]

end Step

end FlowExpr
