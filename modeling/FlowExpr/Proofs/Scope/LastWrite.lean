import FlowExpr.Proofs.Scope.Branches

/-!
# The last declaration wins

The variables that a row of steps leaves behind are kept in one list while the walk goes down
into branches and up again: branches that all run add to the list of the row, branches of which
one runs begin with lists of their own, and every declaration takes out an older one of its name.
Seen from one name, nothing of this can be noticed. Each step contributes at most one declaration
of the name, and the last step that has one decides:

* `Declared.find?_declareAll`: declared one after the other, the last of a name is found;
* `Step.contribution?`: what a step alone has to say about a name;
* `Step.Overlays`: what a row of steps leaves lies over what was there before;
* `Step.find?_leftBy`: one step, over any list;
* `Step.leftByAll_last_wins`: a whole row.
-/

namespace FlowExpr

namespace Declared

variable {symbols more : List Symbol} {symbol s : Symbol} {name : String}

/-! ## 1. One name at a time -/

/-- The last symbol of a name. -/
def findLast? (symbols : List Symbol) (name : String) : Option Symbol := find? symbols.reverse name

theorem findLast?_cons (symbol : Symbol) (more : List Symbol) (name : String) :
    findLast? (symbol :: more) name =
      (findLast? more name).or (if symbol.name = name then some symbol else none) := by
  unfold findLast? find?
  rw [List.reverse_cons, List.find?_append, List.find?_singleton]
  simp only [beq_iff_eq]

/-- Where no name is repeated, the last symbol of a name is the first. -/
theorem findLast?_of_nodup (h : (symbols.map Declared.name).Nodup) (name : String) :
    findLast? symbols name = find? symbols name := by
  have hreverse : (symbols.reverse.map Declared.name).Nodup := by
    rw [List.map_reverse]
    exact List.nodup_reverse.mpr h
  ext s
  unfold findLast?
  rw [find?_eq_some_iff hreverse, find?_eq_some_iff h, List.mem_reverse]

theorem find?_declare (symbols : List Symbol) (symbol : Symbol) (name : String) :
    find? (declare symbols symbol) name =
      if symbol.name = name then some symbol else find? symbols name := by
  unfold find? declare
  rw [List.find?_append, List.find?_filter, List.find?_singleton]
  by_cases hname : symbol.name = name
  · -- the older symbols of the name are gone
    subst hname
    rw [List.find?_eq_none.mpr (by simp)]
    simp
  · have hsame : ∀ s : Symbol, (s.name ≠ symbol.name ∧ s.name = name) ↔ s.name = name :=
      fun s => ⟨And.right, fun hs => ⟨fun h => hname (h.symm.trans hs), hs⟩⟩
    simp only [bne_iff_ne, beq_iff_eq, hsame, hname, if_false, Option.or_none]
    rfl

/-- **Declared one after the other, the last symbol of a name is found**, and an older one only if
    there is none. -/
theorem find?_declareAll (symbols more : List Symbol) (name : String) :
    find? (declareAll symbols more) name = (findLast? more name).or (find? symbols name) := by
  induction more generalizing symbols with
  | nil => rfl
  | cons symbol more ih =>
    rw [declareAll_cons, ih, find?_declare, findLast?_cons, Option.or_assoc]
    congr 1
    split <;> rfl

theorem nodup_declare (h : (symbols.map Declared.name).Nodup) :
    ((declare symbols symbol).map Declared.name).Nodup := by
  unfold declare
  rw [List.map_append, List.nodup_append]
  refine ⟨h.sublist (List.filter_sublist.map _), List.nodup_singleton _, fun a ha b hb => ?_⟩
  obtain ⟨s, hs, rfl⟩ := List.mem_map.mp ha
  rw [List.map_singleton, List.mem_singleton] at hb
  rw [hb]
  simpa using (List.mem_filter.mp hs).2

theorem nodup_declareAll (h : (symbols.map Declared.name).Nodup) :
    ((declareAll symbols more).map Declared.name).Nodup := by
  induction more generalizing symbols with
  | nil => exact h
  | cons symbol more ih => exact ih (nodup_declare h)

theorem named_iff_isSome_find? : Named symbols name ↔ (find? symbols name).isSome = true := by
  unfold Named find?
  rw [List.find?_isSome]
  simp only [beq_iff_eq]

end Declared

namespace Step

variable {withBranches : Bool} {steps : List Step} {u : Step} {before : List Symbol}
  {name : String}

/-! ## 2. What a step contributes -/

/-- What the branches of a step leave, taken for themselves: as alternatives where only one of
    them runs, else as one row of steps. -/
def leftInBranches (withBranches : Bool) (u : Step) : List Symbol :=
  if u.kind.isExclusive then
    Declared.mergeAlternatives (u.branches.map fun b => leftByAll withBranches [] b.steps)
  else leftByAll withBranches [] (u.branches.flatMap BranchOf.steps)

/-- What a step has to say about a name: the last of its own declarations of it, or else, where
    branches count, what the branches leave of it. -/
def contribution? (withBranches : Bool) (u : Step) (name : String) : Option Symbol :=
  (Declared.findLast? u.declarations name).or
    (if withBranches then Declared.find? (u.leftInBranches withBranches) name else none)

theorem leftByBranches_eq_leftByAll (before : List Symbol) (branches : List (BranchOf Step)) :
    leftByBranches withBranches before branches =
      leftByAll withBranches before (branches.flatMap BranchOf.steps) := by
  induction branches generalizing before with
  | nil => rfl
  | cons b rest ih => rw [leftByBranches, ih, List.flatMap_cons, leftByAll_append]

/-- A step first leaves what is in its branches, then its own declarations. -/
theorem leftBy_true (u : Step) (before : List Symbol) :
    u.leftBy true before = Declared.declareAll
      (if u.kind.isExclusive then Declared.declareAll before
          (Declared.mergeAlternatives (u.branches.map fun b => leftByAll true [] b.steps))
        else leftByAll true before (u.branches.flatMap BranchOf.steps)) u.declarations := by
  cases u with
  | mk kind span declarations outSpan hasLoop branches =>
    rw [leftBy, leftByEach_eq_map, leftByBranches_eq_leftByAll]
    rfl

/-- What the row leaves lies over what was there before: under each name the row's own symbol is
    found, and an older one only if there is none. -/
def Overlays (withBranches : Bool) (steps : List Step) : Prop :=
  ∀ before name, Declared.find? (leftByAll withBranches before steps) name =
    (Declared.find? (leftByAll withBranches [] steps) name).or (Declared.find? before name)

theorem Overlays.append {xs ys : List Step} (hx : Overlays withBranches xs)
    (hy : Overlays withBranches ys) : Overlays withBranches (xs ++ ys) := by
  intro before name
  rw [leftByAll_append, leftByAll_append, hy, hx, hy (leftByAll withBranches [] xs),
    Option.or_assoc]

theorem overlays_flatMap {branches : List (BranchOf Step)}
    (h : ∀ b ∈ branches, Overlays withBranches b.steps) :
    Overlays withBranches (branches.flatMap BranchOf.steps) := by
  induction branches with
  | nil => exact fun before name => rfl
  | cons b rest ih =>
    rw [List.flatMap_cons]
    exact (h b List.mem_cons_self).append (ih fun c hc => h c (List.mem_cons_of_mem _ hc))

/-- **After a step, a name is what the step contributes**, or else what it was before. -/
theorem find?_leftBy (h : ∀ b ∈ u.branches, Overlays withBranches b.steps)
    (before : List Symbol) (name : String) :
    Declared.find? (u.leftBy withBranches before) name =
      (u.contribution? withBranches name).or (Declared.find? before name) := by
  unfold contribution?
  cases withBranches with
  | false => rw [leftBy_false, Declared.find?_declareAll, if_neg Bool.false_ne_true, Option.or_none]
  | true =>
    rw [leftBy_true, Declared.find?_declareAll, if_pos rfl, Option.or_assoc]
    congr 1
    unfold leftInBranches
    split
    · -- each name is among the alternatives once
      rw [Declared.find?_declareAll,
        Declared.findLast?_of_nodup (Declared.nodup_mergeAlternatives _)]
    · exact overlays_flatMap h before name

theorem overlays_of_branches (h : ∀ u ∈ steps, ∀ b ∈ u.branches, Overlays withBranches b.steps) :
    Overlays withBranches steps := by
  induction steps with
  | nil => exact fun before name => rfl
  | cons u rest ih =>
    have hstep := find?_leftBy (h u List.mem_cons_self)
    have hrest := ih fun v hv => h v (List.mem_cons_of_mem _ hv)
    intro before name
    have hnone : Declared.find? [] name = none := rfl
    rw [leftByAll, leftByAll, hrest, hrest (u.leftBy withBranches []), hstep, hstep, hnone,
      Option.or_none, Option.or_assoc]

/-- Every row of steps lies over what was there before. -/
theorem overlays (withBranches : Bool) (steps : List Step) : Overlays withBranches steps := by
  induction steps using rows_induction with
  | h steps ih => exact overlays_of_branches ih

/-! ## 3. Rows of steps -/

theorem nodup_leftBy (h : ∀ b ∈ u.branches, ∀ before : List Symbol,
      (before.map Declared.name).Nodup →
        ((leftByAll withBranches before b.steps).map Declared.name).Nodup)
    (hbefore : (before.map Declared.name).Nodup) :
    ((u.leftBy withBranches before).map Declared.name).Nodup := by
  cases withBranches with
  | false =>
    rw [leftBy_false]
    exact Declared.nodup_declareAll hbefore
  | true =>
    rw [leftBy_true]
    refine Declared.nodup_declareAll ?_
    split
    · exact Declared.nodup_declareAll hbefore
    · rw [← leftByBranches_eq_leftByAll]
      generalize u.branches = branches at h
      induction branches generalizing before with
      | nil => exact hbefore
      | cons b rest ih =>
        rw [leftByBranches]
        exact ih (h b List.mem_cons_self _ hbefore) fun c hc => h c (List.mem_cons_of_mem _ hc)

/-- Every name is left once. -/
theorem nodup_leftByAll (hbefore : (before.map Declared.name).Nodup) :
    ((leftByAll withBranches before steps).map Declared.name).Nodup := by
  induction steps using rows_induction generalizing before with
  | h steps ih =>
    induction steps generalizing before with
    | nil => exact hbefore
    | cons u rest ihs =>
      rw [leftByAll]
      refine ihs (fun v hv => ih v (List.mem_cons_of_mem _ hv)) (nodup_leftBy ?_ hbefore)
      exact fun b hb before hbefore => ih u List.mem_cons_self b hb hbefore

theorem named_leftByAll_nil : Declared.Named (leftByAll withBranches [] steps) name ↔
    Names withBranches steps name := by
  rw [named_leftByAll, or_iff_right (Declared.not_named_nil name)]

theorem isSome_contribution? : (u.contribution? withBranches name).isSome = true ↔
    Names withBranches [u] name := by
  have hstep := find?_leftBy (fun b _ => overlays withBranches b.steps) (u := u) [] name
  have hnone : Declared.find? [] name = none := rfl
  rw [hnone, Option.or_none] at hstep
  rw [← hstep, ← Declared.named_iff_isSome_find?, ← named_leftByAll_nil]
  rfl

/-- **The last declaration wins.** A row of steps leaves each name once, and it leaves the names
    that one of its steps declares, itself or, where branches count, further down in its branches.
    What it leaves of a name is the contribution of the last step that declares the name. -/
theorem leftByAll_last_wins (withBranches : Bool) (steps : List Step) :
    let left := leftByAll withBranches [] steps
    (left.map Declared.name).Nodup ∧
    (∀ name, Declared.Named left name ↔ Names withBranches steps name) ∧
    ∀ front u rest name, steps = front ++ u :: rest → Names withBranches [u] name →
      ¬Names withBranches rest name →
      ∃ s, u.contribution? withBranches name = some s ∧
        ∀ t, t ∈ left ∧ t.name = name ↔ t = s := by
  intro left
  have hnodup : (left.map Declared.name).Nodup := nodup_leftByAll List.nodup_nil
  refine ⟨hnodup, fun name => named_leftByAll_nil, ?_⟩
  rintro front u rest name rfl hlast hlater
  obtain ⟨s, hs⟩ := Option.isSome_iff_exists.mp (isSome_contribution?.mpr hlast)
  refine ⟨s, hs, fun t => ?_⟩
  -- the steps after the last one that declares the name have nothing to say about it
  have hnone : Declared.find? (leftByAll withBranches [] rest) name = none := by
    rw [← Option.not_isSome_iff_eq_none, ← Declared.named_iff_isSome_find?, named_leftByAll_nil]
    exact hlater
  have hfind : Declared.find? left name = some s := by
    show Declared.find? (leftByAll withBranches [] (front ++ u :: rest)) name = some s
    rw [leftByAll_append, leftByAll, overlays, hnone, Option.none_or,
      find?_leftBy (fun b _ => overlays withBranches b.steps), hs]
    rfl
  rw [← Declared.find?_eq_some_iff hnodup, hfind, Option.some.injEq, eq_comm]

/-- A variable that is set before a step with two ways to go on, set in the first way, and set
    twice in the second, in branches that both run. What is left of it is the alternative of the
    first way and of the later branch of the second. -/
theorem leftByAll_last_wins_nested :
    let sets (place : Nat) (hint : TypeHint) (name : String) : Step :=
      .mk .set ⟨place, place + 1⟩
        [⟨name, .document ⟨place, place + 1⟩, hint, .setStep, none, none⟩] none false []
    let both : Step := .mk .parallel ⟨20, 40⟩ [] none false
      [⟨"first", ⟨20, 30⟩, [sets 20 .boolean "v"]⟩, ⟨"second", ⟨30, 40⟩, [sets 30 .string "v"]⟩]
    let attempt : Step := .mk .tryCatch ⟨10, 40⟩ [] none false
      [⟨"try", ⟨10, 20⟩, [sets 10 .string "v", sets 11 .int "w"]⟩, ⟨"error", ⟨20, 40⟩, [both]⟩]
    let left := leftByAll true [] [sets 0 .int "v", attempt, sets 40 .string "w"]
    Names true [attempt] "v" ∧ ¬Names true [sets 40 .string "w"] "v" ∧
      ∀ t, t ∈ left ∧ t.name = "v" ↔
        t = ⟨"v", .document ⟨10, 11⟩, .string, .setStep, none, none⟩ := by
  intro sets both attempt left
  have hlast : Names true [attempt] "v" := isSome_contribution?.mp rfl
  have hlater : ¬Names true [sets 40 .string "w"] "v" :=
    fun h => absurd (isSome_contribution?.mpr h) Bool.false_ne_true
  obtain ⟨-, -, hwins⟩ :=
    leftByAll_last_wins true [sets 0 .int "v", attempt, sets 40 .string "w"]
  obtain ⟨s, hs, hleft⟩ :=
    hwins [sets 0 .int "v"] attempt [sets 40 .string "w"] "v" rfl hlast hlater
  obtain rfl := Option.some.inj hs
  exact ⟨hlast, hlater, hleft⟩

end Step

end FlowExpr
