import FlowExpr.Proofs.Scope.References
import Mathlib.Data.List.Forall2
import Mathlib.Data.List.Nodup

/-!
# Names inside lambdas

The parameters of lambdas are kept in one flat row while references are collected: entering a
lambda adds its parameters at the end, and a look-up goes through the row from the back. Nothing
in the row tells one lambda from the next. What it comes to is lexical scoping all the same:

* `Expr.at?`: the part of a tree at a place, given by the number of the part at each level;
* `Expr.lambdasAt`: the lambdas whose body the place is in, each with its parameters;
* `Param.Binds`: the parameter that a name means inside lambdas;
* `exists_places`: every reference stands at a place of its own, with the parameters of the
  lambdas around that place;
* `resolve_withParams`: what a bare name means inside lambdas.
-/

namespace FlowExpr

namespace Expr

/-! ## 1. Places -/

/-- The part of a tree at a place. -/
def at? : Expr → List Nat → Option Expr
  | e, [] => some e
  | e, i :: place => e.children[i]?.bind fun x => x.at? place

/-- The parameters that a node binds in its parts, as one lambda or none. -/
def binders : Expr → List (List Param)
  | lambda params _ _ => [params]
  | _ => []

/-- The lambdas whose body a place is in, the outermost first, each with its parameters. -/
def lambdasAt : Expr → List Nat → List (List Param)
  | _, [] => []
  | e, i :: place => e.binders ++ e.children[i]?.elim [] fun x => x.lambdasAt place

/-- The name, if the node is a name or a call of a bare name. -/
def bareName? : Expr → Option String
  | identifier name _ => some name
  | call (identifier name _) _ _ => some name
  | _ => none

end Expr

/-- The reference stands at a place of a tree that is itself inside lambdas which bind the given
    parameters. -/
structure Reference.StandsAt (params : List Param) (e : Expr) (place : List Nat)
    (r : Reference) : Prop where
  node : e.at? place = some r.node
  params : r.params = params ++ (e.lambdasAt place).flatten

variable {params : List Param} {e x : Expr} {r : Reference} {place : List Nat}

theorem Reference.StandsAt.of_child {i : Nat} (hx : e.children[i]? = some x)
    (h : r.StandsAt (params ++ e.binders.flatten) x place) : r.StandsAt params e (i :: place) where
  node := by
    rw [Expr.at?, hx]
    exact h.node
  params := by
    rw [h.params, Expr.lambdasAt, hx, List.flatten_append, List.append_assoc]
    rfl

/-- Each of the references has a place of its own in the tree. -/
def Reference.OwnPlaces (params : List Param) (e : Expr) (places : List (List Nat))
    (rs : List Reference) : Prop :=
  places.Nodup ∧ List.Forall₂ (fun place r => r.StandsAt params e place) places rs

/-- References of a row of parts, in the tree that has these parts from a number on. -/
theorem exists_places_of_children (params : List Param) (k : Nat) {xs : List Expr}
    (hxs : e.children.drop k = xs)
    (ih : ∀ x ∈ xs, ∀ params, ∃ places,
      Reference.OwnPlaces params x places (referencesIn params x)) :
    ∃ places, Reference.OwnPlaces params e places
        (xs.flatMap (referencesIn (params ++ e.binders.flatten))) ∧
      ∀ place ∈ places, ∃ i tail, place = i :: tail ∧ k ≤ i := by
  induction xs generalizing k with
  | nil => exact ⟨[], ⟨List.nodup_nil, .nil⟩, by simp⟩
  | cons x xs ihs =>
    have hx : e.children[k]? = some x := by
      rw [← List.head?_drop, hxs]
      rfl
    have hrest : e.children.drop (k + 1) = xs := by
      rw [← List.tail_drop, hxs]
      rfl
    obtain ⟨inner, hinner, hsites⟩ := ih x List.mem_cons_self (params ++ e.binders.flatten)
    obtain ⟨later, ⟨hlater, hsites'⟩, hheads⟩ :=
      ihs (k + 1) hrest fun y hy => ih y (List.mem_cons_of_mem _ hy)
    refine ⟨inner.map (k :: ·) ++ later, ⟨?_, ?_⟩, ?_⟩
    · -- the places of later parts begin with a greater number
      refine (hinner.map (List.cons_injective)).append hlater fun place hplace hplace' => ?_
      obtain ⟨tail, -, rfl⟩ := List.mem_map.mp hplace
      obtain ⟨i, tail', heq, hle⟩ := hheads _ hplace'
      have := (List.cons.inj heq).1
      omega
    · rw [List.flatMap_cons]
      refine List.rel_append ?_ hsites'
      rw [List.forall₂_map_left_iff]
      exact hsites.imp fun place r h => h.of_child hx
    · intro place hplace
      rcases List.mem_append.mp hplace with h | h
      · obtain ⟨tail, -, rfl⟩ := List.mem_map.mp h
        exact ⟨k, tail, rfl, Nat.le_refl k⟩
      · obtain ⟨i, tail, rfl, hle⟩ := hheads place h
        exact ⟨i, tail, rfl, by omega⟩

/-- The node itself, as a reference, stands at the empty place. -/
theorem Reference.standsAt_root (nameSpan : Span) :
    (Reference.mk e nameSpan params).StandsAt params e [] := ⟨rfl, (List.append_nil _).symm⟩

/-- **Every reference stands at a place of its own**, with the parameters of the lambdas around
    that place. -/
theorem exists_places (e : Expr) (params : List Param) :
    ∃ places, Reference.OwnPlaces params e places (referencesIn params e) := by
  induction e using Expr.children_induction generalizing params with
  | h e ih =>
    have hparts := exists_places_of_children params 0 rfl ih
    have hjoin : e.isJoin = true → e.callee? = none → e.binders = [] →
        ∃ places, Reference.OwnPlaces params e places (referencesIn params e) := by
      intro hj hc hb
      obtain ⟨places, hplaces, -⟩ := hparts
      rw [hb, List.flatten_nil, List.append_nil] at hplaces
      exact ⟨places, referencesIn_of_isJoin hj hc params ▸ hplaces⟩
    cases e with
    | literal | error => exact ⟨[], List.nodup_nil, .nil⟩
    | identifier name s =>
      exact ⟨[[]], List.nodup_singleton _, .cons (Reference.standsAt_root s) .nil⟩
    | property target name nameSpan s =>
      obtain ⟨places, ⟨hnodup, hsites⟩, hheads⟩ := hparts
      cases name with
      | none =>
        exact ⟨places, hnodup, by simpa [Expr.children, Expr.binders, referencesIn] using hsites⟩
      | some name =>
        refine ⟨places ++ [[]], hnodup.append (List.nodup_singleton _) ?_,
          List.rel_append ?_ (.cons (Reference.standsAt_root nameSpan) .nil)⟩
        · rw [List.disjoint_singleton]
          exact fun h => by simpa using hheads [] h
        · simpa [Expr.children, Expr.binders] using hsites
    | lambda inner body s =>
      obtain ⟨places, hplaces, -⟩ := hparts
      exact ⟨places, by simpa [Expr.children, Expr.binders, referencesIn] using hplaces⟩
    | call target args s =>
      cases target with
      | identifier name nameSpan =>
        -- the name that is called is no reference of its own
        obtain ⟨places, ⟨hnodup, hsites⟩, hheads⟩ := exists_places_of_children
          (e := .call (.identifier name nameSpan) args s) params 1 rfl
          fun x hx => ih x (List.mem_of_mem_drop hx)
        refine ⟨[] :: places, List.nodup_cons.mpr ⟨fun h => by simpa using hheads [] h, hnodup⟩,
          .cons (Reference.standsAt_root nameSpan) ?_⟩
        simpa [Expr.children, Expr.binders, referencesInList_eq_flatMap] using hsites
      | _ => exact hjoin rfl rfl rfl
    | _ => exact hjoin rfl rfl rfl

/-! ## 2. What a name means inside lambdas -/

/-- Inside lambdas, given by their parameters with the outermost first, a name means the parameter
    of the innermost lambda that has one of that name, and of several in that lambda the last. -/
def Param.Binds (lambdas : List (List Param)) (name : String) (p : Param) : Prop :=
  ∃ outer front rest inner, lambdas = outer ++ (front ++ p :: rest) :: inner ∧ p.name = name ∧
    (∀ q ∈ rest, q.name ≠ name) ∧ ∀ params ∈ inner, ∀ q ∈ params, q.name ≠ name

/-- No lambda has a parameter of the name. -/
def Param.Free (lambdas : List (List Param)) (name : String) : Prop :=
  ∀ params ∈ lambdas, ∀ q ∈ params, q.name ≠ name

/-- The last parameter of a name, in a flat row. -/
def Param.last? (params : List Param) (name : String) : Option Param :=
  params.reverse.find? fun p => p.name == name

theorem Param.Binds.name_eq {lambdas : List (List Param)} {name : String} {p : Param}
    (h : Binds lambdas name p) : p.name = name := by
  obtain ⟨outer, front, rest, inner, -, hname, -, -⟩ := h
  exact hname

theorem Param.Binds.last? {lambdas : List (List Param)} {name : String} {p : Param}
    (h : Binds lambdas name p) : Param.last? lambdas.flatten name = some p := by
  obtain ⟨outer, front, rest, inner, rfl, hname, hrest, hinner⟩ := h
  have hlater : ∀ q ∈ (rest ++ inner.flatten).reverse, ¬((q.name == name) = true) := by
    intro q hq
    rw [beq_iff_eq]
    rcases List.mem_append.mp (List.mem_reverse.mp hq) with hq | hq
    · exact hrest q hq
    · obtain ⟨params, hparams, hq⟩ := List.mem_flatten.mp hq
      exact hinner params hparams q hq
  have hrow : (outer ++ (front ++ p :: rest) :: inner).flatten.reverse =
      (rest ++ inner.flatten).reverse ++ p :: (outer.flatten ++ front).reverse := by simp
  unfold Param.last?
  rw [hrow, List.find?_append, List.find?_eq_none.mpr hlater, Option.none_or,
    List.find?_cons_of_pos]
  exact beq_iff_eq.mpr hname

theorem Param.Free.last? {lambdas : List (List Param)} {name : String}
    (h : Free lambdas name) : Param.last? lambdas.flatten name = none := by
  refine List.find?_eq_none.mpr fun q hq => ?_
  obtain ⟨params, hparams, hq⟩ := List.mem_flatten.mp (List.mem_reverse.mp hq)
  rw [beq_iff_eq]
  exact h params hparams q hq

namespace Scope

variable {scope : Scope} {name : String}

theorem lookup_withParams (scope : Scope) (params : List Param) (name : String) :
    (scope.withParams params).lookup name =
      ((Param.last? params name).map lambdaParameter).or (scope.lookup name) := by
  unfold withParams
  split
  · rename_i hnone
    rw [List.isEmpty_iff.mp hnone]
    rfl
  · have hlayer : (Layer.lambdaParameters (params.map lambdaParameter)).lookup name =
        (Param.last? params name).map lambdaParameter := by
      rw [Layer.lookup_eq_find?, Layer.list, Declared.find?, ← List.map_reverse, List.find?_map]
      rfl
    unfold push lookup
    rw [List.findSome?_cons, hlayer]
    cases (Param.last? params name).map lambdaParameter <;> rfl

theorem function?_withParams (scope : Scope) (params : List Param) (name : String) :
    (scope.withParams params).function? name = scope.function? name := by
  unfold withParams
  split <;> rfl

end Scope

/-- **A bare name inside lambdas** means the last parameter of that name, or else what it means
    outside of them. -/
theorem resolve_withParams {name : String} (he : e.bareName? = some name) (scope : Scope)
    (params : List Param) :
    resolve (scope.withParams params) e =
      (Param.last? params name).elim (resolve scope e) fun p =>
        .resolved (Scope.lambdaParameter p) := by
  unfold Expr.bareName? at he
  split at he
  · obtain rfl := Option.some.inj he
    rw [resolve, resolve, Scope.lookup_withParams]
    cases Param.last? params _ <;> rfl
  · obtain rfl := Option.some.inj he
    rw [resolve, resolve, Scope.lookup_withParams, Scope.function?_withParams]
    cases Param.last? params _ <;> rfl
  · cases he

/-- **Lambdas are lexical.** Each reference of a tree has a place of its own in it. Let the
    reference be a name or a call of a bare name. It means the parameter of that name of the
    innermost lambda whose body the place is in, the last of that lambda if it has several; if no
    lambda around the place has one, it means what it means in the scope around the tree. The
    parameters of other lambdas are not looked at. -/
theorem references_lexical (root : Expr) (scope : Scope) :
    ∃ places : List (List Nat), places.Nodup ∧
      List.Forall₂ (fun place r =>
        root.at? place = some r.node ∧ r.params = (root.lambdasAt place).flatten ∧
        ∀ name, r.node.bareName? = some name →
          (∀ p, Param.Binds (root.lambdasAt place) name p →
            resolve (scope.withParams r.params) r.node =
              .resolved ⟨name, .document p.span, .unknown, .lambdaParameter, none, none⟩) ∧
          (Param.Free (root.lambdasAt place) name →
            resolve (scope.withParams r.params) r.node = resolve scope r.node))
        places (references root) := by
  obtain ⟨places, hnodup, hsites⟩ := exists_places root []
  refine ⟨places, hnodup, hsites.imp fun place r hr => ⟨hr.node, hr.params, fun name hname => ?_⟩⟩
  rw [resolve_withParams hname, hr.params]
  constructor
  · intro p hp
    rw [List.nil_append, hp.last?, ← hp.name_eq]
    rfl
  · intro hfree
    rw [List.nil_append, hfree.last?]
    rfl

/-- In `x -> (x, x) -> x(item)`, the call of `x` means the last parameter of the inner lambda, and
    `item` means the variable of the loop around the expression. -/
theorem references_lexical_shadowed :
    let inner : List Param := [⟨"x", ⟨6, 7⟩⟩, ⟨"x", ⟨9, 10⟩⟩]
    let item : Expr := .identifier "item" ⟨17, 21⟩
    let call : Expr := .call (.identifier "x" ⟨15, 16⟩) [item] ⟨15, 22⟩
    let root : Expr := .lambda [⟨"x", ⟨0, 1⟩⟩] (.lambda inner call ⟨5, 22⟩) ⟨0, 22⟩
    let scope : Scope := ⟨[.loop, .builtinContext], true⟩
    let params : List Param := ⟨"x", ⟨0, 1⟩⟩ :: inner
    references root = [⟨call, ⟨15, 16⟩, params⟩, ⟨item, ⟨17, 21⟩, params⟩] ∧
      Param.Binds (root.lambdasAt [0, 0]) "x" ⟨"x", ⟨9, 10⟩⟩ ∧
      Param.Free (root.lambdasAt [0, 0, 1]) "item" ∧
      resolve (scope.withParams params) call =
        .resolved ⟨"x", .document ⟨9, 10⟩, .unknown, .lambdaParameter, none, none⟩ ∧
      resolve (scope.withParams params) item = resolve scope item := by
  intro inner item call root scope params
  have hbinds : Param.Binds (root.lambdasAt [0, 0]) "x" ⟨"x", ⟨9, 10⟩⟩ :=
    ⟨[[⟨"x", ⟨0, 1⟩⟩]], [⟨"x", ⟨6, 7⟩⟩], [], [], rfl, rfl, by simp, by simp⟩
  have hfree : Param.Free (root.lambdasAt [0, 0, 1]) "item" := by
    show ∀ params ∈ [[⟨"x", ⟨0, 1⟩⟩], inner], ∀ q ∈ params, q.name ≠ "item"
    decide
  -- the parts of the tree have different ranges, so each has one place
  have hcall : ∀ place, root.at? place = some call → place = [0, 0] := by
    rintro (_ | ⟨_ | i, _ | ⟨_ | j, _ | ⟨_ | _ | k, _ | ⟨l, place⟩⟩⟩⟩) h <;>
      cases congrArg (Option.map Expr.span) h
    rfl
  have hitem : ∀ place, root.at? place = some item → place = [0, 0, 1] := by
    rintro (_ | ⟨_ | i, _ | ⟨_ | j, _ | ⟨_ | _ | k, _ | ⟨l, place⟩⟩⟩⟩) h <;>
      cases congrArg (Option.map Expr.span) h
    rfl
  refine ⟨rfl, hbinds, hfree, ?_⟩
  obtain ⟨places, -, hplaces⟩ := references_lexical root scope
  obtain _ | ⟨⟨hfirst, -, hinner⟩, _ | ⟨⟨hsecond, -, houter⟩, _⟩⟩ := hplaces
  obtain rfl := hcall _ hfirst
  obtain rfl := hitem _ hsecond
  exact ⟨(hinner "x" rfl).1 _ hbinds, (houter "item" rfl).2 hfree⟩

end FlowExpr
