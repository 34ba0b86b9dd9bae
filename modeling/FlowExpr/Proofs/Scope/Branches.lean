import FlowExpr.Proofs.Scope.Alternatives

/-!
# Branches in any order

Of a step that runs only one of its branches, the declarations of all branches are left behind as
alternatives. They are gathered one after the other, and a type that was given up can come back
as that of an object, so it is not plain from the walk that the order of the branches does not
matter. It decides only which declaration of a name stands for all of them:

* `find?_mergeAlternatives`: what is left of a name is made from its declarations alone;
* `Declared.Alike`: two symbols are of one type and have the same alternatives;
* `alike_alternative_comm`, `alike_alternative_right_comm`: neighbours in the walk change places;
* `mergeAlternatives_perm`: the branches change places.
-/

namespace FlowExpr

namespace Declared

variable {s t u x y : Symbol} {symbols xs ys : List Symbol} {name : String}

/-! ## 1. One name at a time -/

/-- Declarations of one name as one, the first of them with what the others add. -/
def joined? : List Symbol → Option Symbol
  | [] => none
  | first :: rest => some (rest.foldl alternative first)

theorem joined?_concat (xs : List Symbol) (x : Symbol) :
    joined? (xs ++ [x]) = some ((joined? xs).elim x fun s => s.alternative x) := by
  cases xs with
  | nil => rfl
  | cons first rest => simp [joined?, List.foldl_append]

theorem find?_addAlternative (symbols : List Symbol) (x : Symbol) (name : String) :
    find? (addAlternative x symbols) name =
      if x.name = name then some ((find? symbols name).elim x fun s => s.alternative x)
      else find? symbols name := by
  induction symbols with
  | nil => by_cases hx : x.name = name <;> simp [addAlternative, find?, hx]
  | cons s rest ih =>
    unfold find? at ih ⊢
    unfold addAlternative
    have hkept : (s.alternative x).name = s.name := rfl
    by_cases hsame : s.name = x.name
    · rw [if_pos hsame, List.find?_cons, List.find?_cons, hkept, hsame]
      by_cases hx : x.name = name
      · simp [hx]
      · rw [beq_false_of_ne hx, if_neg hx]
    · rw [if_neg hsame, List.find?_cons, List.find?_cons, ih]
      by_cases hs : s.name = name
      · have hx : x.name ≠ name := fun hx => hsame (hs.trans hx.symm)
        simp [hs, hx]
      · rw [beq_false_of_ne hs]

theorem nodup_addAlternative (h : (symbols.map Declared.name).Nodup) :
    ((addAlternative x symbols).map Declared.name).Nodup := by
  induction symbols with
  | nil => exact List.nodup_singleton _
  | cons s rest ih =>
    obtain ⟨hs, hrest⟩ := List.nodup_cons.mp h
    unfold addAlternative
    split
    · exact h
    · rename_i hne
      refine List.nodup_cons.mpr ⟨fun hmem => ?_, ih hrest⟩
      obtain ⟨t, ht, hname⟩ := List.mem_map.mp hmem
      rcases named_addAlternative.mp ⟨t, ht, hname⟩ with ⟨t, ht, hname⟩ | hname
      · exact hs (List.mem_map.mpr ⟨t, ht, hname⟩)
      · exact hne hname.symm

/-- Every name is left once. -/
theorem nodup_mergeAlternatives (branches : List (List Symbol)) :
    ((mergeAlternatives branches).map Declared.name).Nodup := by
  unfold mergeAlternatives
  induction branches.flatten using List.reverseRecOn with
  | nil => exact List.nodup_nil
  | append_singleton xs x ih =>
    rw [List.foldl_append]
    exact nodup_addAlternative ih

/-- **What is left of a name** is made from its declarations, in their order. -/
theorem find?_mergeAlternatives (branches : List (List Symbol)) (name : String) :
    find? (mergeAlternatives branches) name =
      joined? (branches.flatten.filter fun s => s.name == name) := by
  unfold mergeAlternatives
  induction branches.flatten using List.reverseRecOn with
  | nil => rfl
  | append_singleton xs x ih =>
    rw [List.foldl_append, List.foldl_cons, List.foldl_nil, find?_addAlternative, ih,
      List.filter_append]
    by_cases hx : x.name = name
    · simp [hx, joined?_concat]
    · simp [hx]

/-! ## 2. Neighbours change places -/

/-- The shapes that the symbol's values can have. -/
def alternatives (s : Symbol) : List Shape := s.shape.elim [] Shape.alternatives

/-- Two symbols of one type, with the same alternatives, or both without a known shape. -/
structure Alike (s t : Symbol) : Prop where
  typeHint : s.typeHint = t.typeHint
  known : s.shape.isSome = t.shape.isSome
  alternatives : s.alternatives.Perm t.alternatives

theorem Alike.refl (s : Symbol) : s.Alike s := ⟨rfl, rfl, .refl _⟩

theorem Alike.trans (h : s.Alike t) (h' : t.Alike u) : s.Alike u :=
  ⟨h.typeHint.trans h'.typeHint, h.known.trans h'.known, h.alternatives.trans h'.alternatives⟩

theorem known_alternative (s x : Symbol) :
    (s.alternative x).shape.isSome = (s.shape.isSome || x.shape.isSome) := by
  unfold alternative
  cases s.shape with
  | none => rfl
  | some a => cases x.shape <;> rfl

theorem alternatives_alternative (s x : Symbol) :
    (s.alternative x).alternatives = s.alternatives ++ x.alternatives := by
  unfold alternatives alternative
  cases s.shape with
  | none => rfl
  | some a =>
    cases x.shape with
    | none => exact (List.append_nil _).symm
    | some b => rfl

/-- A type for both is kept, others are given up; an unknown type with a known shape is that of
    an object. -/
def jointHint (known : Bool) (a b : TypeHint) : TypeHint :=
  let hint := if a = b then a else .unknown
  if known && hint == .unknown then .object else hint

theorem typeHint_alternative (s x : Symbol) : (s.alternative x).typeHint =
    jointHint (s.shape.isSome || x.shape.isSome) s.typeHint x.typeHint := by
  rw [← known_alternative]
  rfl

theorem jointHint_comm (known : Bool) (a b : TypeHint) :
    jointHint known a b = jointHint known b a := by
  unfold jointHint
  by_cases hab : a = b
  · rw [hab]
  · rw [if_neg hab, if_neg (Ne.symm hab)]

theorem jointHint_right_comm (k kx ky : Bool) (a x y : TypeHint) :
    jointHint (k || kx || ky) (jointHint (k || kx) a x) y =
      jointHint (k || ky || kx) (jointHint (k || ky) a y) x := by
  -- types that are all the same stay; among others one is given up on the way, in either order,
  -- and then it only matters whether a shape is known in the end
  by_cases hx : a = x
  · by_cases hy : a = y
    · rw [← hx, ← hy, Bool.or_right_comm]
      cases k <;> cases kx <;> cases ky <;> grind [jointHint]
    · grind [jointHint]
  · grind [jointHint]

theorem Alike.alternative_left (h : s.Alike t) (x : Symbol) :
    (s.alternative x).Alike (t.alternative x) where
  typeHint := by rw [typeHint_alternative, typeHint_alternative, h.typeHint, h.known]
  known := by rw [known_alternative, known_alternative, h.known]
  alternatives := by
    rw [alternatives_alternative, alternatives_alternative]
    exact h.alternatives.append_right _

theorem alike_alternative_comm (x y : Symbol) : (x.alternative y).Alike (y.alternative x) where
  typeHint := by
    rw [typeHint_alternative, typeHint_alternative, jointHint_comm, Bool.or_comm]
  known := by rw [known_alternative, known_alternative, Bool.or_comm]
  alternatives := by
    rw [alternatives_alternative, alternatives_alternative]
    exact List.perm_append_comm

theorem alike_alternative_right_comm (s x y : Symbol) :
    ((s.alternative x).alternative y).Alike ((s.alternative y).alternative x) where
  typeHint := by
    simp only [typeHint_alternative, known_alternative]
    exact jointHint_right_comm _ _ _ _ _ _
  known := by
    simp only [known_alternative]
    exact Bool.or_right_comm _ _ _
  alternatives := by
    simp only [alternatives_alternative, List.append_assoc]
    exact List.perm_append_comm.append_left _

theorem Alike.foldl (h : s.Alike t) (xs : List Symbol) :
    (xs.foldl Declared.alternative s).Alike (xs.foldl Declared.alternative t) := by
  induction xs generalizing s t with
  | nil => exact h
  | cons x xs ih => exact ih (h.alternative_left x)

/-- Declarations that others are joined to change places. -/
theorem alike_foldl_perm (h : xs.Perm ys) (s : Symbol) :
    (xs.foldl Declared.alternative s).Alike (ys.foldl Declared.alternative s) := by
  induction h generalizing s with
  | nil => exact .refl s
  | cons x h ih => exact ih _
  | swap x y xs => exact (alike_alternative_right_comm s y x).foldl xs
  | trans h h' ih ih' => exact (ih s).trans (ih' s)

/-- **The order of declarations does not matter**: joined, they are alike. -/
theorem exists_joined?_perm (h : xs.Perm ys) (hs : joined? xs = some s) :
    ∃ t, joined? ys = some t ∧ s.Alike t := by
  induction h generalizing s with
  | nil => cases hs
  | cons x h ih =>
    obtain rfl := Option.some.inj hs
    exact ⟨_, rfl, alike_foldl_perm h x⟩
  | swap x y xs =>
    obtain rfl := Option.some.inj hs
    exact ⟨_, rfl, (alike_alternative_comm y x).foldl xs⟩
  | trans _ _ ih ih' =>
    obtain ⟨u, hu, hsu⟩ := ih hs
    obtain ⟨t, ht, hut⟩ := ih' hu
    exact ⟨t, ht, hsu.trans hut⟩

/-! ## 3. What a name offers -/

/-- The symbol's values are known to have a property of the name. -/
def Offers (s : Symbol) (name : String) : Prop :=
  ∃ shape, s.shape = some shape ∧ Named shape.properties name

theorem offers_alternative (s x : Symbol) (name : String) :
    (s.alternative x).Offers name ↔ s.Offers name ∨ x.Offers name := by
  unfold Offers alternative
  cases s.shape with
  | none => simp [mergeShapes]
  | some a =>
    cases x.shape with
    | none => simp [mergeShapes]
    | some b => simp [mergeShapes, Shape.named_properties_merge]

/-- What comes from one of two declarations comes from one of all. -/
theorem iff_of_joined? {P : Symbol → Prop} (hP : ∀ s x, P (s.alternative x) ↔ P s ∨ P x)
    (h : joined? xs = some s) : P s ↔ ∃ d ∈ xs, P d := by
  cases xs with
  | nil => cases h
  | cons first rest =>
    obtain rfl := Option.some.inj h
    clear h
    induction rest generalizing first with
    | nil => simp
    | cons x rest ih => rw [List.foldl_cons, ih, List.exists_mem_cons_iff, hP, or_assoc,
        List.exists_mem_cons_iff, List.exists_mem_cons_iff]

/-- What is left of a name is made from the declarations of the name. -/
theorem joined?_of_mem {branches : List (List Symbol)} (hs : s ∈ mergeAlternatives branches) :
    joined? (branches.flatten.filter fun d => d.name == s.name) = some s := by
  rw [← find?_mergeAlternatives, find?_eq_some_iff (nodup_mergeAlternatives branches)]
  exact ⟨hs, rfl⟩

theorem iff_of_mem {branches : List (List Symbol)} {P : Symbol → Prop}
    (hP : ∀ s x, P (s.alternative x) ↔ P s ∨ P x) (hs : s ∈ mergeAlternatives branches) :
    P s ↔ ∃ d ∈ branches.flatten, d.name = s.name ∧ P d := by
  rw [iff_of_joined? hP (joined?_of_mem hs)]
  simp only [List.mem_filter, beq_iff_eq, and_assoc]

/-- **The order of the branches does not matter.** In any order they leave the same names, each
    once, and for each name one type and the same alternatives. A name has a known shape if and
    only if a branch declares it with one, and it offers what its declarations offer. A branch
    may even declare a name twice. -/
theorem mergeAlternatives_perm {branches branches' : List (List Symbol)}
    (h : branches.Perm branches') :
    let left := mergeAlternatives branches
    let left' := mergeAlternatives branches'
    (left.map Declared.name).Nodup ∧ (left.map Declared.name).Perm (left'.map Declared.name) ∧
    (∀ s ∈ left, ∀ t ∈ left', s.name = t.name → s.Alike t) ∧
    ∀ s ∈ left,
      (s.shape = none ↔ ∀ d ∈ branches.flatten, d.name = s.name → d.shape = none) ∧
      ∀ name, s.Offers name ↔ ∃ d ∈ branches.flatten, d.name = s.name ∧ d.Offers name := by
  intro left left'
  refine ⟨nodup_mergeAlternatives branches, ?_, ?_, ?_⟩
  · refine (List.perm_ext_iff_of_nodup (nodup_mergeAlternatives branches)
      (nodup_mergeAlternatives branches')).mpr fun name => ?_
    have hnamed : Named left name ↔ Named left' name := by
      rw [named_mergeAlternatives, named_mergeAlternatives]
      simp only [Named, h.flatten.mem_iff]
    simpa only [Named, List.mem_map] using hnamed
  · intro s hs t ht hname
    have hjoined := joined?_of_mem hs
    have hjoined' := joined?_of_mem ht
    rw [← hname] at hjoined'
    obtain ⟨t', ht', hlike⟩ := exists_joined?_perm (h.flatten.filter _) hjoined
    rw [hjoined'] at ht'
    exact Option.some.inj ht' ▸ hlike
  · intro s hs
    refine ⟨?_, fun name =>
      iff_of_mem (P := fun d => d.Offers name) (fun s x => offers_alternative s x name) hs⟩
    have hknown := iff_of_mem (P := fun s => s.shape.isSome = true)
      (fun s x => by rw [known_alternative, Bool.or_eq_true]) hs
    rw [← Option.not_isSome_iff_eq_none, hknown]
    simp

/-- A text, a number and an object, in this order and with the object first: the name is an object
    in the end, although text and number have been given up for an unknown type before, and it
    offers the property of the object. Only the place of its declaration differs. -/
theorem mergeAlternatives_perm_object_first :
    let host : Symbol := ⟨"host", .document ⟨30, 34⟩, .string, .setStep, none, none⟩
    let text : Symbol := ⟨"v", .document ⟨0, 1⟩, .string, .setStep, none, none⟩
    let number : Symbol := ⟨"v", .document ⟨10, 11⟩, .int, .setStep, none, none⟩
    let object : Symbol :=
      ⟨"v", .document ⟨20, 21⟩, .object, .setStep, none, some (Shape.ofSymbols [host])⟩
    ∃ s t, mergeAlternatives [[text], [number], [object]] = [s] ∧
      mergeAlternatives [[object], [text], [number]] = [t] ∧ s.declaredAt ≠ t.declaredAt ∧
      s.Alike t ∧ s.typeHint = .object ∧ s.Offers "host" := by
  intro host text number object
  have hperm : ([[text], [number]] ++ [[object]]).Perm ([[object]] ++ [[text], [number]]) :=
    List.perm_append_comm
  obtain ⟨-, -, halike, hoffers⟩ := mergeAlternatives_perm hperm
  refine ⟨_, _, rfl, rfl, by decide, halike _ List.mem_cons_self _ List.mem_cons_self rfl, rfl, ?_⟩
  refine ((hoffers _ List.mem_cons_self).2 "host").mpr ⟨object, by simp, rfl, _, rfl, ?_⟩
  exact ⟨host, List.mem_cons_self, rfl⟩

end Declared

end FlowExpr
