import FlowExpr.Proofs.Scope.Earlier
import FlowExpr.Proofs.Span
import FlowExpr.Scope.Visible

/-!
# What is visible at an offset

Which declarations the scope at an offset is made of. In a well nested outline the answer is a
matter of places alone:

* `Step.WellNested`: steps follow one another, and so do the branches of a step inside it and
  the steps of a branch inside that, at every depth;
* `Step.Visible`: a step is visible at an offset if it is over and stands in a row of steps on
  the way to the offset, or, where branches count, in a branch of a step of such a row that is
  over;
* `Step.OnPath`: the rows on the way to an offset. The layers of declared variables are what
  the steps of these rows that are over leave behind (`Step.mem_layers`).
-/

namespace FlowExpr

namespace Step

/-! ## 1. Places -/

/-- Every step and every branch of the chain contains the offset. -/
def Encloses (o : Nat) (chain : Chain) : Prop :=
  ∀ link ∈ chain, link.1.contains o = true ∧ link.2.contains o = true

/-- The step at the place is over at the offset, and its row is on the way to the offset, or,
    where branches count, it is in a branch of a step that is over and whose row is on the way. -/
def Visible (withBranches : Bool) (o : Nat) (chain : Chain) (t : Step) : Prop :=
  t.span.stop ≤ o ∧ (Encloses o chain ∨
    (withBranches = true ∧ ∃ outer step branch inner,
      chain = outer ++ (step, branch) :: inner ∧ Encloses o outer ∧ step.stop ≤ o))

/-- Steps in order without overlaps; in each step its branches, and in each branch its steps. -/
structure WellNested (steps : List Step) : Prop where
  row : ∃ lo hi, Span.Row lo (steps.map Step.span) hi
  branches : ∀ chain t, Stands steps chain t →
    Span.Row t.span.start (t.branches.map BranchOf.span) t.span.stop
  inner : ∀ chain t, Stands steps chain t → ∀ b ∈ t.branches,
    Span.Row b.span.start (b.steps.map Step.span) b.span.stop

/-- The offset is not the end of a step or of a branch. -/
def NoEnd (o : Nat) (steps : List Step) : Prop :=
  ∀ chain t, Stands steps chain t → t.span.stop ≠ o ∧ ∀ b ∈ t.branches, b.span.stop ≠ o

variable {o : Nat} {steps : List Step} {u t : Step} {b : Branch} {chain : Chain}

/-- Well nested steps, built from the branches up. -/
theorem WellNested.of_branches (hrow : ∃ lo hi, Span.Row lo (steps.map Step.span) hi)
    (hbranches : ∀ u ∈ steps, Span.Row u.span.start (u.branches.map BranchOf.span) u.span.stop)
    (hinner : ∀ u ∈ steps, ∀ b ∈ u.branches,
      Span.Row b.span.start (b.steps.map Step.span) b.span.stop ∧ WellNested b.steps) :
    WellNested steps := by
  refine ⟨hrow, fun chain t ht => ?_, fun chain t ht => ?_⟩
  · cases ht with
    | here h => exact hbranches t h
    | within hu hb h => exact (hinner _ hu _ hb).2.branches _ t h
  · cases ht with
    | here h => exact fun b hb => (hinner t h b hb).1
    | within hu hb h => exact (hinner _ hu _ hb).2.inner _ t h

/-- An offset that is no end, from the branches up. -/
theorem NoEnd.of_branches (h : ∀ u ∈ steps, u.span.stop ≠ o ∧
    ∀ b ∈ u.branches, b.span.stop ≠ o ∧ NoEnd o b.steps) : NoEnd o steps := by
  intro chain t ht
  cases ht with
  | here ht => exact ⟨(h t ht).1, fun b hb => ((h t ht).2 b hb).1⟩
  | within hu hb ht => exact ((h _ hu).2 _ hb).2 _ t ht

theorem WellNested.branch (h : WellNested steps) (hu : u ∈ steps) (hb : b ∈ u.branches) :
    WellNested b.steps :=
  ⟨⟨_, _, h.inner [] u (.here hu) b hb⟩, fun _ t ht => h.branches _ t (.within hu hb ht),
    fun _ t ht => h.inner _ t (.within hu hb ht)⟩

theorem NoEnd.branch (h : NoEnd o steps) (hu : u ∈ steps) (hb : b ∈ u.branches) :
    NoEnd o b.steps :=
  fun _ t ht => h _ t (.within hu hb ht)

/-- The steps of a branch end with its step at the latest. -/
theorem WellNested.member_stop_le (h : WellNested steps) (hu : u ∈ steps) (hb : b ∈ u.branches)
    (ht : t ∈ b.steps) : t.span.stop ≤ u.span.stop :=
  Nat.le_trans ((h.inner [] u (.here hu) b hb).inside (List.mem_map_of_mem ht)).2.2
    ((h.branches [] u (.here hu)).inside (List.mem_map_of_mem hb)).2.2

/-- If the steps of a row are over, so are those in their branches. -/
theorem WellNested.stop_le (h : WellNested steps) {x : Nat} (hx : ∀ u ∈ steps, u.span.stop ≤ x)
    (ht : Stands steps chain t) : t.span.stop ≤ x := by
  induction ht with
  | here ht => exact hx _ ht
  | within hu hb _ ih =>
    exact ih (h.branch hu hb) fun v hv => Nat.le_trans (h.member_stop_le hu hb hv) (hx _ hu)

/-- What is in a branch of a step ends with it at the latest. -/
theorem WellNested.branch_stop_le (h : WellNested steps) (hu : u ∈ steps) (hb : b ∈ u.branches)
    (ht : Stands b.steps chain t) : t.span.stop ≤ u.span.stop :=
  (h.branch hu hb).stop_le (fun _ hv => h.member_stop_le hu hb hv) ht

/-- Below a chain that encloses an offset there is more of the way to it. -/
theorem Visible.cons {withBranches : Bool} {step branch : Span} (hs : step.contains o = true)
    (hb : branch.contains o = true) (h : Visible withBranches o chain t) :
    Visible withBranches o ((step, branch) :: chain) t := by
  have hcons : ∀ {c : Chain}, Encloses o c → Encloses o ((step, branch) :: c) := fun hc =>
    List.forall_mem_cons.mpr ⟨⟨hs, hb⟩, hc⟩
  refine ⟨h.1, h.2.imp hcons ?_⟩
  rintro ⟨hon, outer, step', branch', inner, rfl, houter, hover⟩
  exact ⟨hon, (step, branch) :: outer, step', branch', inner, rfl, hcons houter, hover⟩

/-! ## 2. The rows on the way to an offset -/

/-- The row is on the way to the offset: it is the whole row, or the row of a branch that
    contains the offset. -/
inductive OnPath (o : Nat) : List Step → Chain → List Step → Prop where
  | here {steps : List Step} : OnPath o steps [] steps
  | within {steps row : List Step} {u : Step} {b : Branch} {chain : Chain} (hu : u ∈ steps)
      (huo : u.span.contains o = true) (hb : b ∈ u.branches) (hbo : b.span.contains o = true)
      (h : OnPath o b.steps chain row) : OnPath o steps ((u.span, b.span) :: chain) row

variable {row : List Step}

theorem OnPath.encloses (h : OnPath o steps chain row) : Encloses o chain := by
  induction h with
  | here => exact fun _ h => absurd h List.not_mem_nil
  | within _ huo _ hbo _ ih => exact List.forall_mem_cons.mpr ⟨⟨huo, hbo⟩, ih⟩

theorem OnPath.wellNested (h : OnPath o steps chain row) (hs : WellNested steps) :
    WellNested row := by
  induction h with
  | here => exact hs
  | within hu _ hb _ _ ih => exact ih (hs.branch hu hb)

theorem OnPath.stands (h : OnPath o steps chain row) {inner : Chain} (ht : Stands row inner t) :
    Stands steps (chain ++ inner) t := by
  induction h with
  | here => exact ht
  | within hu _ hb _ _ ih => exact .within hu hb (ih ht)

/-- A place below a chain that encloses an offset is a place in a row on the way to it. -/
theorem Stands.exists_onPath {outer inner : Chain} (ho : Encloses o outer)
    (ht : Stands steps (outer ++ inner) t) :
    ∃ row, OnPath o steps outer row ∧ Stands row inner t := by
  induction outer generalizing steps with
  | nil => exact ⟨steps, .here, ht⟩
  | cons link outer ih =>
    obtain ⟨⟨huo, hbo⟩, houter⟩ := List.forall_mem_cons.mp ho
    cases ht with
    | within hu hb ht =>
      obtain ⟨row, hpath, hrow⟩ := ih houter ht
      exact ⟨row, .within hu huo hb hbo hpath, hrow⟩

/-- The steps of a row that are over at an offset. -/
def finished (o : Nat) (row : List Step) : List Step := row.filter fun u => u.span.stop ≤ o

theorem mem_finished : u ∈ finished o row ↔ u ∈ row ∧ u.span.stop ≤ o := by simp [finished]

theorem Stands.of_finished (h : Stands (finished o row) chain t) : Stands row chain t := by
  cases h with
  | here h => exact .here (mem_finished.mp h).1
  | within hu hb h => exact .within (mem_finished.mp hu).1 hb h

variable {withBranches : Bool}

/-- What counts of the steps that are over in a row on the way is visible. -/
theorem OnPath.visible (h : OnPath o steps chain row) (hs : WellNested steps) {inner : Chain}
    (ht : Stands (finished o row) inner t) (hc : inner = [] ∨ withBranches = true) :
    Visible withBranches o (chain ++ inner) t := by
  cases ht with
  | here ht =>
    rw [List.append_nil]
    exact ⟨(mem_finished.mp ht).2, .inl h.encloses⟩
  | within hu hb ht =>
    obtain ⟨hu, huo⟩ := mem_finished.mp hu
    have hstop := Nat.le_trans ((h.wellNested hs).branch_stop_le hu hb ht) huo
    have hon : withBranches = true := hc.resolve_left (List.cons_ne_nil _ _)
    exact ⟨hstop, .inr ⟨hon, chain, _, _, _, rfl, h.encloses, huo⟩⟩

/-- **What is visible counts among the steps that are over in a row on the way.** -/
theorem Visible.exists_onPath (hv : Visible withBranches o chain t) (ht : Stands steps chain t) :
    ∃ outer row, OnPath o steps outer row ∧ Counts withBranches (finished o row) t := by
  obtain ⟨hover, henclosed | ⟨hon, outer, step, branch, inner, rfl, houter, hstep⟩⟩ := hv
  · obtain ⟨row, hpath, hrow⟩ := (List.append_nil chain ▸ ht).exists_onPath henclosed
    cases hrow with
    | here hrow => exact ⟨chain, row, hpath, [], .here (mem_finished.mpr ⟨hrow, hover⟩), .inl rfl⟩
  · obtain ⟨row, hpath, hrow⟩ := ht.exists_onPath houter
    cases hrow with
    | within hu hb hrow =>
      exact ⟨outer, row, hpath, _, .within (mem_finished.mpr ⟨hu, hstep⟩) hb hrow, .inr hon⟩

/-- The chain above a place is made of steps that stand there. -/
theorem Stands.exists_link {outer inner : Chain} {step branch : Span}
    (ht : Stands steps (outer ++ (step, branch) :: inner) t) :
    ∃ v, Stands steps outer v ∧ v.span = step := by
  induction outer generalizing steps with
  | nil =>
    cases ht with
    | within hu _ _ => exact ⟨_, .here hu, rfl⟩
  | cons link outer ih =>
    cases ht with
    | within hu hb ht =>
      obtain ⟨v, hv, hspan⟩ := ih ht
      exact ⟨v, .within hu hb hv, hspan⟩

/-- Below a step that is over, everything is over. -/
theorem WellNested.stop_le_of_link (hs : WellNested steps) {outer inner : Chain}
    {step branch : Span} (ho : Encloses o outer) (hover : step.stop ≤ o)
    (ht : Stands steps (outer ++ (step, branch) :: inner) t) : t.span.stop ≤ o := by
  obtain ⟨row, hpath, hrow⟩ := ht.exists_onPath ho
  cases hrow with
  | within hu hb hrow => exact Nat.le_trans ((hpath.wellNested hs).branch_stop_le hu hb hrow) hover

/-- **Steps of a sibling branch are not visible**: those in a branch that does not contain the
    offset, of a step that does. -/
theorem not_visible_of_sibling (hs : WellNested steps) {outer inner : Chain} {step branch : Span}
    (ht : Stands steps (outer ++ (step, branch) :: inner) t) (hstep : step.contains o = true)
    (hbranch : branch.contains o = false) :
    ¬Visible withBranches o (outer ++ (step, branch) :: inner) t := by
  have hlink : ∀ c : Chain, Encloses o c → (step, branch) ∉ c := fun c hc hmem =>
    absurd (hc _ hmem).2 (by simp [hbranch])
  have hopen := (Span.contains_iff.mp hstep).2
  rintro ⟨-, henclosed | ⟨-, outer', step', branch', inner', hsplit, houter, hover⟩⟩
  · exact hlink _ henclosed (by simp)
  · have hother : (step, branch) ≠ (step', branch') := by
      rintro ⟨⟩
      omega
    rcases List.append_eq_append_iff.mp hsplit with ⟨more, rfl, hrest⟩ | ⟨more, rfl, hrest⟩
    · cases more with
      | nil => exact hother (List.cons.inj hrest).1
      | cons link more =>
        obtain ⟨rfl, -⟩ := List.cons.inj hrest
        exact hlink _ houter (by simp)
    · cases more with
      | nil => exact hother (List.cons.inj hrest).1.symm
      | cons link more =>
        -- the enclosing step would be in a branch of one that is over
        obtain ⟨rfl, -⟩ := List.cons.inj hrest
        obtain ⟨v, hv, rfl⟩ := ht.exists_link
        have hstop := hs.stop_le_of_link houter hover hv
        omega

/-- **A step is not visible in itself or before it.** -/
theorem WellNested.not_visible_of_open (hs : WellNested steps) (he : NoEnd o steps)
    (ht : Stands steps chain t) (hplace : t.span.contains o = true ∨ o ≤ t.span.start) :
    ¬Visible withBranches o chain t := by
  have horder := (hs.branches chain t ht).le
  have hend := (he chain t ht).1
  rintro ⟨hover, -⟩
  rcases hplace with hplace | hplace
  · have hopen := (Span.contains_iff.mp hplace).2
    omega
  · omega

/-! ## 3. The steps that are over -/

/-- At an offset that is no end, the current step is the one that contains it. -/
theorem current?_eq (hends : ∀ u ∈ steps, u.span.stop ≠ o) :
    current? o steps = steps.findIdx? fun u => u.span.contains o := by
  have hlast : (steps.getLast?.filter fun u => u.span.stop == o) = none := by
    refine Option.filter_eq_none_iff.mpr fun u hu => ?_
    simpa using hends u (List.mem_of_getLast? hu)
  rw [current?, hlast]
  exact Option.or_none

/-- Steps that begin after an offset are not over, and none of them contains it. -/
theorem finished_of_lt {lo hi : Nat} (hrow : Span.Row lo (steps.map Step.span) hi) (hlo : o < lo) :
    finished o steps = [] ∧ (steps.findIdx? fun u => u.span.contains o) = none := by
  have hlate : ∀ u ∈ steps, o < u.span.start ∧ o < u.span.stop := by
    intro u hu
    obtain ⟨h₁, h₂, -⟩ := hrow.inside (List.mem_map_of_mem hu)
    dsimp only at h₁
    omega
  constructor
  · exact List.filter_eq_nil_iff.mpr fun u hu => by simpa using (hlate u hu).2
  · refine List.findIdx?_eq_none_iff.mpr fun u hu => Bool.eq_false_iff.mpr fun hcontains => ?_
    have hstart := (Span.contains_iff.mp hcontains).1
    have hlater := (hlate u hu).1
    omega

/-- **The earlier steps of a row are those that are over.** -/
theorem earlier_eq_finished {lo hi : Nat} (hrow : Span.Row lo (steps.map Step.span) hi)
    (hends : ∀ u ∈ steps, u.span.stop ≠ o) : earlier o steps = finished o steps := by
  rw [earlier, current?_eq hends]
  clear hends
  induction steps generalizing lo with
  | nil => rfl
  | cons u rest ih =>
    obtain ⟨-, hle, hrest⟩ := hrow
    rw [List.findIdx?_cons]
    by_cases hover : u.span.stop ≤ o
    · -- the step is over: it is earlier whatever follows
      have hnot : u.span.contains o = false := by
        simp [Span.contains, hover]
      have hcons : finished o (u :: rest) = u :: finished o rest := by simp [finished, hover]
      rw [hnot, hcons, ← ih hrest]
      cases (rest.findIdx? fun u => u.span.contains o) with
      | none => simp [hover]
      | some i => simp
    · -- nothing from here on is over
      obtain ⟨hnone, hindex⟩ := finished_of_lt hrest (Nat.lt_of_not_le hover)
      have hcons : finished o (u :: rest) = [] := by
        rw [finished, List.filter_cons_of_neg (by simpa using hover)]
        exact hnone
      rw [hcons, hindex]
      split <;> simp_all

/-! ## 4. Layers -/

/-- Layers inside the step that contains the offset. -/
theorem layersAt_findIdx? (settings : Settings) (steps : List Step) :
    layersAt settings o (steps.findIdx? fun u => u.span.contains o) steps =
      ((steps.find? fun u => u.span.contains o).map (layersIn settings o)).getD [] := by
  induction steps with
  | nil => rfl
  | cons u rest ih =>
    rw [List.findIdx?_cons, List.find?_cons]
    cases u.span.contains o with
    | true => rfl
    | false =>
      rw [← ih]
      cases rest.findIdx? fun u => u.span.contains o with
      | none => simp [layersAt]
      | some i => rfl

/-- Layers inside the branch that contains the offset, which is the end of none. -/
theorem layersInBranches_eq (settings : Settings) {branches : List (BranchOf Step)}
    (hends : ∀ b ∈ branches, b.span.stop ≠ o) :
    layersInBranches settings o branches =
      ((branches.find? fun b => b.span.contains o).map fun b =>
        layers settings o b.steps).getD [] := by
  induction branches with
  | nil => rfl
  | cons b rest ih =>
    have hsame : b.span.touches o = b.span.contains o := by
      have hne := hends b List.mem_cons_self
      rw [Bool.eq_iff_iff, Span.touches_iff, Span.contains_iff]
      omega
    rw [layersInBranches, List.find?_cons, hsame]
    cases b.span.contains o with
    | true => rfl
    | false => exact ih fun c hc => hends c (List.mem_cons_of_mem _ hc)

/-- The layers inside a step: those of the branch that contains the offset, then its own. -/
theorem layersIn_eq (settings : Settings) (hends : ∀ b ∈ u.branches, b.span.stop ≠ o) :
    layersIn settings o u = ((u.branches.find? fun b => b.span.contains o).map fun b =>
      layers settings o b.steps).getD [] ++ ownLayers o u.kind u.outSpan u.hasLoop := by
  cases u with
  | mk kind span declarations outSpan hasLoop branches =>
    have hbranches : ∀ b ∈ branches, b.span.stop ≠ o := hends
    rw [layersIn, layersInBranches_eq settings hbranches]
    rfl

/-- The layer of declared variables, if there are any. -/
def declaredLayer (symbols : List Symbol) : List Layer :=
  match symbols with
  | [] => []
  | symbols => [.declaredVariables symbols]

theorem mem_declaredLayer {symbols found : List Symbol} :
    Layer.declaredVariables found ∈ declaredLayer symbols ↔ found = symbols ∧ symbols ≠ [] := by
  cases symbols with
  | nil => simp [declaredLayer]
  | cons s rest => simp [declaredLayer]

/-- **The layers at an offset** that is no end: those inside the step that contains it, then
    what the steps that are over leave behind. -/
theorem layers_eq (settings : Settings) {lo hi : Nat}
    (hrow : Span.Row lo (steps.map Step.span) hi) (hends : ∀ u ∈ steps, u.span.stop ≠ o) :
    layers settings o steps =
      ((steps.find? fun u => u.span.contains o).map (layersIn settings o)).getD [] ++
        declaredLayer (leftByAll settings.branchDeclarations [] (finished o steps)) := by
  rw [layers, earlierLayer, earlier_eq_finished hrow hends, current?_eq hends,
    layersAt_findIdx? settings steps]
  rfl

theorem not_mem_ownLayers (symbols : List Symbol) (kind : StepKind) (outSpan : Option Span)
    (hasLoop : Bool) : Layer.declaredVariables symbols ∉ ownLayers o kind outSpan hasLoop := by
  unfold ownLayers
  split <;> split <;> simp

/-- What comes from the one item that is found comes from an item that meets the test. -/
theorem mem_getD_find? {α β : Type} {xs : List α} {p : α → Bool} {f : α → List β} {y : β}
    (hfind : ∀ x ∈ xs, p x = true → xs.find? p = some x) :
    y ∈ ((xs.find? p).map f).getD [] ↔ ∃ x ∈ xs, p x = true ∧ y ∈ f x := by
  constructor
  · intro hy
    cases h : xs.find? p with
    | none =>
      rw [h] at hy
      exact absurd hy List.not_mem_nil
    | some x =>
      rw [h] at hy
      exact ⟨x, List.mem_of_find?_eq_some h, List.find?_some h, hy⟩
  · rintro ⟨x, hx, hpx, hy⟩
    rw [hfind x hx hpx]
    exact hy

/-- A layer of declared variables inside the current step is one of the branch that contains the
    offset. -/
theorem mem_currentLayers (settings : Settings) (hs : WellNested steps) (he : NoEnd o steps)
    {symbols : List Symbol} :
    Layer.declaredVariables symbols ∈
        ((steps.find? fun u => u.span.contains o).map (layersIn settings o)).getD [] ↔
      ∃ u ∈ steps, u.span.contains o = true ∧ ∃ b ∈ u.branches, b.span.contains o = true ∧
        Layer.declaredVariables symbols ∈ layers settings o b.steps := by
  obtain ⟨lo, hi, hrow⟩ := hs.row
  rw [mem_getD_find? fun u hu huo => hrow.find?_contains hu huo]
  refine exists_congr fun u => and_congr_right fun hu => and_congr_right fun _ => ?_
  have hown := not_mem_ownLayers (o := o) symbols u.kind u.outSpan u.hasLoop
  rw [layersIn_eq settings (he [] u (.here hu)).2, List.mem_append, or_iff_left hown,
    mem_getD_find? fun b hb hbo => (hs.branches [] u (.here hu)).find?_contains hb hbo]

/-- **The layers of declared variables** are what the steps that are over leave behind, in the
    rows on the way to the offset. -/
theorem mem_layers (settings : Settings) (hs : WellNested steps) (he : NoEnd o steps)
    {symbols : List Symbol} :
    Layer.declaredVariables symbols ∈ layers settings o steps ↔
      ∃ chain row, OnPath o steps chain row ∧ symbols ≠ [] ∧
        symbols = leftByAll settings.branchDeclarations [] (finished o row) := by
  induction steps using rows_induction with
  | h steps ih =>
    obtain ⟨lo, hi, hrow⟩ := hs.row
    rw [layers_eq settings hrow fun u hu => (he [] u (.here hu)).1, List.mem_append,
      mem_currentLayers settings hs he, mem_declaredLayer]
    constructor
    · rintro (⟨u, hu, huo, b, hb, hbo, hin⟩ | ⟨rfl, hne⟩)
      · obtain ⟨chain, row, hpath, hsymbols⟩ :=
          (ih u hu b hb (hs.branch hu hb) (he.branch hu hb)).mp hin
        exact ⟨_, row, .within hu huo hb hbo hpath, hsymbols⟩
      · exact ⟨[], steps, .here, hne, rfl⟩
    · rintro ⟨chain, row, hpath, hne, hsymbols⟩
      cases hpath with
      | here => exact .inr ⟨hsymbols, hsymbols ▸ hne⟩
      | @within _ _ u b chain hu huo hb hbo hpath =>
        have hin := (ih u hu b hb (hs.branch hu hb) (he.branch hu hb)).mpr
          ⟨chain, row, hpath, hne, hsymbols⟩
        exact .inl ⟨u, hu, huo, b, hb, hbo, hin⟩

/-! ## 5. Other declarations -/

section Redeclared

variable {given : Chain → Step → List Symbol}

theorem finished_redeclareAll (steps : List Step) :
    finished o (redeclareAll given steps) = redeclareAll given (finished o steps) := by
  simp only [finished, redeclareAll_eq_map, List.filter_map, Function.comp_def, span_redeclare]

theorem map_span_redeclareAll (steps : List Step) :
    (redeclareAll given steps).map Step.span = steps.map Step.span := by
  simp only [redeclareAll_eq_map, List.map_map, Function.comp_def, span_redeclare]

theorem find?_redeclareAll (steps : List Step) :
    ((redeclareAll given steps).find? fun u => u.span.contains o) =
      (steps.find? fun u => u.span.contains o).map (redeclare given) := by
  rw [redeclareAll_eq_map, List.find?_map]
  simp only [Function.comp_def, span_redeclare]

theorem layersIn_redeclare (settings : Settings) (he : ∀ b ∈ u.branches, b.span.stop ≠ o)
    (h : ∀ b ∈ u.branches, b.span.contains o = true →
      layers settings o (redeclareBranch given u.span b).steps = layers settings o b.steps) :
    layersIn settings o (u.redeclare given) = layersIn settings o u := by
  obtain ⟨hkind, hout, hloop, hbranches⟩ := u.redeclare_frame given
  have he' : ∀ b ∈ (u.redeclare given).branches, b.span.stop ≠ o := by
    rw [hbranches]
    exact List.forall_mem_map.mpr he
  have hfind : ((u.branches.map (redeclareBranch given u.span)).find? fun b =>
      b.span.contains o) = (u.branches.find? fun b => b.span.contains o).map
        (redeclareBranch given u.span) := List.find?_map
  rw [layersIn_eq settings he', layersIn_eq settings he, hkind, hout, hloop, hbranches, hfind]
  cases hb : u.branches.find? fun b => b.span.contains o with
  | none => rfl
  | some b =>
    have hbo : b.span.contains o = true := by simpa using List.find?_some hb
    exact congrArg (· ++ ownLayers o u.kind u.outSpan u.hasLoop)
      (h b (List.mem_of_find?_eq_some hb) hbo)

/-- **Declarations that are not visible play no part**: other ones in their place leave the
    layers as they are. -/
theorem layers_redeclare (settings : Settings) (hs : WellNested steps) (he : NoEnd o steps)
    (hgiven : ∀ chain t, Stands steps chain t →
      Visible settings.branchDeclarations o chain t → given chain t = t.declarations) :
    layers settings o (redeclareAll given steps) = layers settings o steps := by
  induction steps using rows_induction generalizing given with
  | h steps ih =>
    obtain ⟨lo, hi, hrow⟩ := hs.row
    have hends : ∀ u ∈ steps, u.span.stop ≠ o := fun u hu => (he [] u (.here hu)).1
    have hspans : (redeclareAll given steps).map Step.span = steps.map Step.span :=
      map_span_redeclareAll steps
    have hends' : ∀ u ∈ redeclareAll given steps, u.span.stop ≠ o := by
      intro u hu
      obtain ⟨v, hv, hspan⟩ := List.mem_map.mp (hspans ▸ List.mem_map_of_mem hu)
      exact hspan ▸ hends v hv
    have hleft : leftByAll settings.branchDeclarations [] (finished o (redeclareAll given steps)) =
        leftByAll settings.branchDeclarations [] (finished o steps) := by
      rw [finished_redeclareAll]
      refine leftByAll_redeclare fun chain t ht hc => hgiven chain t ht.of_finished ?_
      exact OnPath.here.visible hs ht hc
    rw [layers_eq settings (hspans ▸ hrow) hends', layers_eq settings hrow hends, hleft,
      find?_redeclareAll]
    cases hu : steps.find? fun u => u.span.contains o with
    | none => rfl
    | some u =>
      have huo : u.span.contains o = true := by simpa using List.find?_some hu
      have hmem := List.mem_of_find?_eq_some hu
      refine congrArg (· ++ _) (layersIn_redeclare settings (he [] u (.here hmem)).2 ?_)
      intro b hb hbo
      exact ih u hmem b hb (hs.branch hmem hb) (he.branch hmem hb) fun chain t ht hv =>
        hgiven _ t (.within hmem hb ht) (hv.cons huo hbo)

end Redeclared

end Step

/-! ## 6. Documents -/

/-- The flow with other declarations of its steps. -/
def Flow.redeclare (given : Flow → Chain → Step → List Symbol) (f : Flow) : Flow :=
  { f with steps := Step.redeclareAll (given f) f.steps }

namespace Document

/-- The document with other declarations of its steps, given for each by its flow and place. -/
def redeclare (given : Flow → Chain → Step → List Symbol) (d : Document) : Document :=
  { d with outline := { d.outline with flows := d.flows.map (Flow.redeclare given) } }

variable {d : Document} {settings : Settings} {o : Nat} {flow : Flow}

theorem flowAt?_redeclare (given : Flow → Chain → Step → List Symbol) :
    (d.redeclare given).flowAt? o = (d.flowAt? o).map (Flow.redeclare given) := by
  have hflows : (d.redeclare given).flows = d.flows.map (Flow.redeclare given) := rfl
  rw [flowAt?, flowAt?, hflows, List.find?_map, List.getLast?_map, Option.map_or,
    Option.filter_map]
  rfl

/-- An offset inside a flow is inside the flow around it. -/
theorem exists_flowAt? (h : ∃ f ∈ d.flows, f.span.contains o = true) :
    ∃ flow ∈ d.flows, flow.span.contains o = true ∧ d.flowAt? o = some flow := by
  obtain ⟨flow, hflow⟩ := Option.isSome_iff_exists.mp (List.find?_isSome.mpr h)
  refine ⟨flow, List.mem_of_find?_eq_some hflow, ?_, ?_⟩
  · simpa using List.find?_some hflow
  · rw [flowAt?, hflow]
    rfl

/-- The layers of declared variables are those of the steps of the flow. -/
theorem mem_scopeAt (h : d.flowAt? o = some flow) {symbols : List Symbol} :
    Layer.declaredVariables symbols ∈ (d.scopeAt settings o).layers ↔
      Layer.declaredVariables symbols ∈ Step.layers settings o flow.steps := by
  have harguments : Layer.declaredVariables symbols ∉ argumentLayer d settings := by
    unfold argumentLayer
    split <;> simp
  simp [scopeAt, h, flowLayers, harguments]

/-- A symbol of a layer of declared variables stands for a declaration of a visible step. -/
theorem exists_visible (h : d.flowAt? o = some flow) (hs : Step.WellNested flow.steps)
    (he : Step.NoEnd o flow.steps) {symbols : List Symbol}
    (hlayer : Layer.declaredVariables symbols ∈ (d.scopeAt settings o).layers) {s : Symbol}
    (hsymbol : s ∈ symbols) :
    ∃ chain t, Step.Stands flow.steps chain t ∧
      Step.Visible settings.branchDeclarations o chain t ∧
      ∃ declared ∈ t.declarations, declared.same s = true := by
  obtain ⟨outer, row, hpath, -, rfl⟩ :=
    (Step.mem_layers settings hs he).mp ((mem_scopeAt h).mp hlayer)
  obtain ⟨t, ⟨inner, ht, hcounts⟩, hdeclared⟩ :=
    (Step.mem_leftByAll hsymbol).resolve_left List.not_mem_nil
  exact ⟨outer ++ inner, t, hpath.stands ht.of_finished, hpath.visible hs ht hcounts, hdeclared⟩

/-- A name that a visible step declares is found in a layer of declared variables. -/
theorem exists_lookup (h : d.flowAt? o = some flow) (hs : Step.WellNested flow.steps)
    (he : Step.NoEnd o flow.steps) {chain : Chain} {t : Step}
    (ht : Step.Stands flow.steps chain t)
    (hv : Step.Visible settings.branchDeclarations o chain t) {declared : Symbol}
    (hdeclared : declared ∈ t.declarations) :
    ∃ layer ∈ (d.scopeAt settings o).layers, (∃ symbols, layer = .declaredVariables symbols) ∧
      ∃ s, layer.lookup declared.name = some s := by
  obtain ⟨outer, row, hpath, hcounts⟩ := hv.exists_onPath ht
  have hnamed : Declared.Named
      (Step.leftByAll settings.branchDeclarations [] (Step.finished o row)) declared.name :=
    Step.named_leftByAll.mpr (.inr ⟨t, hcounts, declared, hdeclared, rfl⟩)
  have hlayer := (mem_scopeAt h).mpr ((Step.mem_layers settings hs he).mpr
    ⟨outer, row, hpath, hnamed.ne_nil, rfl⟩)
  exact ⟨_, hlayer, ⟨_, rfl⟩, hnamed.exists_find?⟩

/-- Other declarations in the place of those that are not visible leave the scope as it is. -/
theorem scopeAt_redeclare (h : d.flowAt? o = some flow) (hs : Step.WellNested flow.steps)
    (he : Step.NoEnd o flow.steps) {given : Flow → Chain → Step → List Symbol}
    (hgiven : ∀ chain t, Step.Stands flow.steps chain t →
      Step.Visible settings.branchDeclarations o chain t → given flow chain t = t.declarations) :
    (d.redeclare given).scopeAt settings o = d.scopeAt settings o := by
  have hlayers : flowLayers settings o (flow.redeclare given) = flowLayers settings o flow :=
    congrArg (· ++ _) (Step.layers_redeclare settings hs he hgiven)
  rw [scopeAt, scopeAt, flowAt?_redeclare, h, Option.map_some, Option.map_some, Option.map_some,
    hlayers]
  rfl

end Document

/-- **Sequential and branch visibility.** At an offset inside a flow of well nested steps that
    is not the end of any of them, the layers of declared variables are made of the declarations
    of visible steps: each symbol in them stands for one, other declarations of the steps that
    are not visible leave the scope as it is, and every name that a visible step declares is
    found. A step is not visible in itself or before it, nor are the steps of a sibling branch. -/
theorem declaredVariables_visible (d : Document) (settings : Settings) {o : Nat}
    (hnested : ∀ f ∈ d.flows, Step.WellNested f.steps)
    (hin : ∃ f ∈ d.flows, f.span.contains o = true)
    (hends : ∀ f ∈ d.flows, Step.NoEnd o f.steps) :
    ∃ flow ∈ d.flows, flow.span.contains o = true ∧ d.flowAt? o = some flow ∧
      (∀ symbols, Layer.declaredVariables symbols ∈ (d.scopeAt settings o).layers →
        ∀ s ∈ symbols, ∃ chain t, Step.Stands flow.steps chain t ∧
          Step.Visible settings.branchDeclarations o chain t ∧
          ∃ declared ∈ t.declarations, declared.same s = true) ∧
      (∀ given : Flow → Chain → Step → List Symbol,
        (∀ chain t, Step.Stands flow.steps chain t →
          Step.Visible settings.branchDeclarations o chain t →
            given flow chain t = t.declarations) →
        (d.redeclare given).scopeAt settings o = d.scopeAt settings o) ∧
      (∀ chain t, Step.Stands flow.steps chain t →
        Step.Visible settings.branchDeclarations o chain t → ∀ declared ∈ t.declarations,
          ∃ layer ∈ (d.scopeAt settings o).layers,
            (∃ symbols, layer = .declaredVariables symbols) ∧
            ∃ s, layer.lookup declared.name = some s) ∧
      (∀ chain t, Step.Stands flow.steps chain t →
        t.span.contains o = true ∨ o ≤ t.span.start →
          ¬Step.Visible settings.branchDeclarations o chain t) ∧
      (∀ outer step branch inner t, Step.Stands flow.steps (outer ++ (step, branch) :: inner) t →
        step.contains o = true → branch.contains o = false →
          ¬Step.Visible settings.branchDeclarations o (outer ++ (step, branch) :: inner) t) := by
  obtain ⟨flow, hflow, hcontains, hat⟩ := Document.exists_flowAt? hin
  have hs := hnested flow hflow
  have he := hends flow hflow
  refine ⟨flow, hflow, hcontains, hat, ?_, ?_, ?_, ?_, ?_⟩
  · exact fun symbols hlayer s hsymbol => Document.exists_visible hat hs he hlayer hsymbol
  · exact fun given hgiven => Document.scopeAt_redeclare hat hs he hgiven
  · exact fun chain t ht hv declared hdeclared => Document.exists_lookup hat hs he ht hv hdeclared
  · exact fun chain t ht hplace => hs.not_visible_of_open he ht hplace
  · exact fun outer step branch inner t ht hstep hbranch =>
      Step.not_visible_of_sibling hs ht hstep hbranch

/-- A step at a range that sets one variable. -/
def settingStep (span : Span) (name : String) : Step :=
  .mk .set span [⟨name, .document span, .unknown, .setStep, none, none⟩] none false []

@[simp] theorem span_settingStep (span : Span) (name : String) :
    (settingStep span name).span = span := rfl

@[simp] theorem branches_settingStep (span : Span) (name : String) :
    (settingStep span name).branches = [] := rfl

/-- A step of two branches, the first with one step, the second with two. -/
def choosingStep : Step :=
  .mk .ifElse ⟨20, 80⟩ [] none false
    [⟨"then", ⟨25, 45⟩, [settingStep ⟨30, 40⟩ "chosen"]⟩,
     ⟨"else", ⟨45, 75⟩, [settingStep ⟨50, 60⟩ "other", settingStep ⟨60, 70⟩ "last"]⟩]

@[simp] theorem span_choosingStep : choosingStep.span = ⟨20, 80⟩ := rfl

@[simp] theorem branches_choosingStep : choosingStep.branches =
    [⟨"then", ⟨25, 45⟩, [settingStep ⟨30, 40⟩ "chosen"]⟩,
     ⟨"else", ⟨45, 75⟩, [settingStep ⟨50, 60⟩ "other", settingStep ⟨60, 70⟩ "last"]⟩] := rfl

/-- In the last step of the second branch, the variable of the step before it is found, and what
    the first branch declares plays no part. -/
theorem declaredVariables_second_branch :
    let steps := [settingStep ⟨10, 20⟩ "early", choosingStep]
    let d : Document :=
      ⟨[], ⟨[]⟩, { flows := [⟨"default", ⟨0, 7⟩, ⟨0, 100⟩, steps, none, []⟩] }, [], none⟩
    (∀ f ∈ d.flows, Step.WellNested f.steps) ∧ (∃ f ∈ d.flows, f.span.contains 65 = true) ∧
      (∀ f ∈ d.flows, Step.NoEnd 65 f.steps) ∧
      (∃ layer ∈ (d.scopeAt {} 65).layers, (∃ symbols, layer = .declaredVariables symbols) ∧
        ∃ s, layer.lookup "other" = some s) ∧
      (d.redeclare fun _ chain t => if chain = [(⟨20, 80⟩, ⟨25, 45⟩)] then [] else
        t.declarations).scopeAt {} 65 = d.scopeAt {} 65 := by
  intro steps d
  have hfirst : Step.WellNested [settingStep ⟨30, 40⟩ "chosen"] := by
    refine .of_branches ⟨30, 40, ?_⟩ ?_ ?_ <;> simp [Span.Row]
  have hsecond :
      Step.WellNested [settingStep ⟨50, 60⟩ "other", settingStep ⟨60, 70⟩ "last"] := by
    refine .of_branches ⟨50, 70, ?_⟩ ?_ ?_ <;> simp [Span.Row]
  have hsteps : Step.WellNested steps := by
    refine .of_branches ⟨10, 80, ?_⟩ ?_ ?_
    · simp [steps, Span.Row]
    · simp [steps, Span.Row]
    · simp [steps, Span.Row, hfirst, hsecond]
  have hnested : ∀ f ∈ d.flows, Step.WellNested f.steps := List.forall_mem_singleton.mpr hsteps
  have hin : ∃ f ∈ d.flows, f.span.contains 65 = true :=
    ⟨_, List.mem_singleton_self _, by decide⟩
  have hend : Step.NoEnd 65 steps := by
    have hfirst : Step.NoEnd 65 [settingStep ⟨30, 40⟩ "chosen"] := .of_branches (by simp)
    have hsecond : Step.NoEnd 65
        [settingStep ⟨50, 60⟩ "other", settingStep ⟨60, 70⟩ "last"] := .of_branches (by simp)
    refine .of_branches ?_
    simp [steps, hfirst, hsecond]
  have hends : ∀ f ∈ d.flows, Step.NoEnd 65 f.steps := List.forall_mem_singleton.mpr hend
  obtain ⟨flow, hflow, -, -, -, hother, hfound, -, hsibling⟩ :=
    declaredVariables_visible d {} hnested hin hends
  obtain rfl := List.mem_singleton.mp hflow
  refine ⟨hnested, hin, hends, ?_, ?_⟩
  · refine hfound [(⟨20, 80⟩, ⟨45, 75⟩)] (settingStep ⟨50, 60⟩ "other") ?_ ?_ _
      (List.mem_singleton_self _)
    · exact .within (u := choosingStep) (by simp [steps])
        (List.mem_cons_of_mem _ (List.mem_singleton_self _)) (.here List.mem_cons_self)
    · exact ⟨by decide, .inl (List.forall_mem_singleton.mpr (by decide))⟩
  · refine hother _ fun chain t ht hv => if_neg ?_
    rintro rfl
    exact hsibling [] _ _ [] t ht (by decide) (by decide) hv

end FlowExpr
