import FlowExpr.Proofs.Scope.Completion
import FlowExpr.Symbol.Declare

/-!
# Declared paths

A dotted path is followed from the symbol of its first segment, by one property for each further
segment. Declaring a symbol under a path changes what is found at the path, makes an object of
everything that the path goes through, and leaves all other paths alone. The entry of the list
and the properties below it are changed in the same way, by grafting the symbol on an owner:

* `pathSegments_intercalate`: the segments of a dotted path;
* `Declared.find?_upsert`, `Properties.get?_insert`: one entry is changed, the others are kept;
* `Declared.Tidy`, `Declared.AllTidy`: one symbol for each name, in objects without alternatives;
* `Declared.below`, `Declared.follow`: what a path leads to;
* `Declared.graft`: a symbol at the end of a path below an owner;
* `Declared.follow_declarePath`: what every path leads to after a declaration.
-/

namespace FlowExpr

/-! ## 1. Segments -/

theorem splitDots_eq_splitOn (cs : List Char) : splitDots cs = cs.splitOn '.' := by
  induction cs with
  | nil => rfl
  | cons c cs ih =>
    rw [splitDots, ih, List.splitOn_cons_eq_if_modifyHead]
    simp only [beq_iff_eq]
    split
    · rfl
    · cases hsplit : cs.splitOn '.' with
      | nil => exact absurd hsplit (List.splitOn_ne_nil _ _)
      | cons first rest => rfl

/-- A name that can be a segment of a dotted path. -/
def IsSegment (name : String) : Prop := name ≠ "" ∧ '.' ∉ name.toList

/-- **Names joined by dots are the segments of the path.** -/
theorem pathSegments_intercalate {segments : List String} (hne : segments ≠ [])
    (h : ∀ name ∈ segments, IsSegment name) :
    pathSegments (".".intercalate segments) = segments := by
  have hsplit : splitDots (".".intercalate segments).toList = segments.map String.toList := by
    rw [splitDots_eq_splitOn, String.toList_intercalate]
    refine List.splitOn_intercalate '.' (fun cs hcs => ?_) (by simpa using hne)
    obtain ⟨name, hname, rfl⟩ := List.mem_map.mp hcs
    exact (h name hname).2
  have hempty : (segments.map String.toList).any List.isEmpty = false := by
    rw [List.any_map, List.any_eq_false]
    intro name hname
    simpa using (h name hname).1
  unfold pathSegments
  simp only [hsplit, hempty, Bool.false_eq_true, if_false, List.map_map]
  exact List.map_id'' (fun name => String.ofList_toList) segments

/-! ## 2. Entries of a name -/

theorem mem_of_lookup {κ ν : Type} [BEq κ] [LawfulBEq κ] {entries : List (κ × ν)} {key : κ}
    {value : ν} (h : entries.lookup key = some value) : (key, value) ∈ entries := by
  obtain ⟨front, back, rfl, -⟩ := List.lookup_eq_some_iff.mp h
  exact List.mem_append_right _ List.mem_cons_self

namespace Properties

theorem get?_cons (key : String) (value : Symbol) (rest : List (String × Symbol))
    (name : String) :
    get? ((key, value) :: rest) name = if name = key then some value else get? rest name := by
  unfold get?
  rw [List.lookup_cons]
  by_cases h : name = key
  · rw [if_pos h, beq_iff_eq.mpr h]
  · rw [if_neg h, beq_false_of_ne h]

/-- A property that is inserted is found, and the others are found as before. -/
theorem get?_insert (name : String) (s : Symbol) (properties : List (String × Symbol))
    (other : String) :
    get? (insert name s properties) other =
      if other = name then some s else get? properties other := by
  fun_induction insert name s properties with
  | case1 => exact get?_cons name s [] other
  | case2 key value rest hlt => exact get?_cons name s ((key, value) :: rest) other
  | case3 value rest hlt =>
    rw [get?_cons, get?_cons]
    split <;> rfl
  | case4 key value rest hlt hne ih =>
    rw [get?_cons, get?_cons, ih]
    by_cases hkey : other = key
    · rw [if_pos hkey, if_pos hkey, if_neg (hkey ▸ Ne.symm hne)]
    · rw [if_neg hkey, if_neg hkey]

end Properties

namespace Declared

theorem find?_cons (s : Symbol) (rest : List Symbol) (name : String) :
    find? (s :: rest) name = if s.name = name then some s else find? rest name := by
  unfold find?
  rw [List.find?_cons]
  by_cases h : s.name = name
  · rw [if_pos h, beq_iff_eq.mpr h]
  · rw [if_neg h, beq_false_of_ne h]

section Upsert

variable {name : String} {change : Symbol → Symbol} {fresh : Symbol} {symbols : List Symbol}

theorem mem_upsert {s : Symbol} (h : s ∈ upsert name change fresh symbols) :
    s ∈ symbols ∨ ∃ old ∈ fresh :: symbols, s = change old := by
  induction symbols with
  | nil => exact .inr ⟨fresh, List.mem_cons_self, List.mem_singleton.mp h⟩
  | cons first rest ih =>
    unfold upsert at h
    split at h
    · rcases List.mem_cons.mp h with rfl | h
      · exact .inr ⟨first, List.mem_cons_of_mem _ List.mem_cons_self, rfl⟩
      · exact .inl (List.mem_cons_of_mem _ h)
    · rcases List.mem_cons.mp h with rfl | h
      · exact .inl List.mem_cons_self
      · rcases ih h with h | ⟨old, hold, rfl⟩
        · exact .inl (List.mem_cons_of_mem _ h)
        · refine .inr ⟨old, ?_, rfl⟩
          rcases List.mem_cons.mp hold with rfl | hold
          · exact List.mem_cons_self
          · exact List.mem_cons_of_mem _ (List.mem_cons_of_mem _ hold)

/-- What the change keeps holds of all symbols after it. -/
theorem forall_mem_upsert {P : Symbol → Prop} (hchange : ∀ old, P old → P (change old))
    (hfresh : P fresh) (h : ∀ s ∈ symbols, P s) : ∀ s ∈ upsert name change fresh symbols, P s := by
  intro s hs
  rcases mem_upsert hs with hs | ⟨old, hold, rfl⟩
  · exact h s hs
  · exact hchange old (List.forall_mem_cons.mpr ⟨hfresh, h⟩ old hold)

/-- A changed symbol keeps its place, a fresh one comes last. -/
theorem map_name_upsert (hchange : ∀ s : Symbol, s.name = name → (change s).name = name)
    (hfresh : fresh.name = name) :
    (upsert name change fresh symbols).map Declared.name =
      if name ∈ symbols.map Declared.name then symbols.map Declared.name
      else symbols.map Declared.name ++ [name] := by
  induction symbols with
  | nil => simp [upsert, hchange fresh hfresh]
  | cons s rest ih =>
    unfold upsert
    by_cases hs : s.name = name
    · simp [hs, hchange s hs]
    · rw [if_neg hs, List.map_cons, ih]
      by_cases hrest : name ∈ rest.map Declared.name
      · rw [if_pos hrest, List.map_cons, if_pos (List.mem_cons_of_mem _ hrest)]
      · rw [if_neg hrest, List.map_cons, if_neg (by simp [Ne.symm hs, hrest]), List.cons_append]

/-- The changed symbol is found under its name, and the others are found as before. -/
theorem find?_upsert (hchange : ∀ s : Symbol, s.name = name → (change s).name = name)
    (hfresh : fresh.name = name) (other : String) :
    find? (upsert name change fresh symbols) other =
      if other = name then some (change ((find? symbols name).getD fresh))
      else find? symbols other := by
  induction symbols with
  | nil =>
    rw [upsert, find?_cons, hchange fresh hfresh]
    simp only [eq_comm]
    rfl
  | cons s rest ih =>
    unfold upsert
    rw [find?_cons s rest name, find?_cons s rest other]
    by_cases hs : s.name = name
    · rw [if_pos hs, if_pos hs, find?_cons, hchange s hs, hs]
      simp only [eq_comm]
      split <;> rfl
    · rw [if_neg hs, if_neg hs, find?_cons, ih]
      by_cases hother : other = name
      · rw [if_pos hother, if_pos hother, if_neg (hother ▸ hs)]
      · rw [if_neg hother, if_neg hother]

end Upsert

end Declared

/-! ## 3. Tidy shapes -/

/-- The shape is that of an object, and so are the shapes of its properties, at every depth. -/
inductive Shape.Plain : Shape → Prop where
  | object {properties : List (String × Symbol)}
      (inner : ∀ entry ∈ properties, ∀ shape, entry.2.shape = some shape → shape.Plain) :
      Plain (.object properties)

/-- The shape has no alternatives, and stores its properties under their own names, at every
    depth. -/
structure Shape.Tidy (shape : Shape) : Prop where
  keyed : shape.WellKeyed
  plain : shape.Plain

/-- The shape of the symbol, if it has one, is tidy. -/
def Declared.Tidy (s : Symbol) : Prop := ∀ shape, s.shape = some shape → shape.Tidy

/-- No name is declared twice, and all shapes are tidy. -/
structure Declared.AllTidy (symbols : List Symbol) : Prop where
  names : (symbols.map Declared.name).Nodup
  each : ∀ s ∈ symbols, s.Tidy

theorem Declared.tidy_of_none {s : Symbol} (h : s.shape = none) : s.Tidy := by
  intro shape hshape
  rw [h] at hshape
  cases hshape

namespace Shape

theorem tidy_object {properties : List (String × Symbol)} :
    (object properties).Tidy ↔ (properties.map Prod.fst).Pairwise (· < ·) ∧
      ∀ entry ∈ properties, entry.2.name = entry.1 ∧ entry.2.Tidy := by
  constructor
  · rintro ⟨⟨sorted, names, keyed⟩, ⟨plain⟩⟩
    exact ⟨sorted, fun entry hentry => ⟨names entry hentry, fun shape hshape =>
      ⟨keyed entry hentry shape hshape, plain entry hentry shape hshape⟩⟩⟩
  · rintro ⟨sorted, h⟩
    exact ⟨.object sorted (fun entry hentry => (h entry hentry).1)
        fun entry hentry shape hshape => ((h entry hentry).2 shape hshape).keyed,
      .object fun entry hentry shape hshape => ((h entry hentry).2 shape hshape).plain⟩

theorem tidy_empty : (object []).Tidy :=
  tidy_object.mpr ⟨.nil, List.forall_mem_nil _⟩

theorem Tidy.insert {properties : List (String × Symbol)} (h : (object properties).Tidy)
    {s : Symbol} {name : String} (hname : s.name = name) (hs : s.Tidy) :
    (object (Properties.insert name s properties)).Tidy := by
  obtain ⟨sorted, h⟩ := tidy_object.mp h
  refine tidy_object.mpr ⟨Properties.sorted_insert sorted, fun entry hentry => ?_⟩
  rcases Properties.mem_insert hentry with rfl | hentry
  · exact ⟨hname, hs⟩
  · exact h entry hentry

end Shape

/-- The shape of a tidy symbol is an object, if only an empty one. -/
theorem Declared.Tidy.exists_object {s : Symbol} (h : s.Tidy) :
    ∃ properties, s.shape.getD (.object []) = .object properties ∧
      (Shape.object properties).Tidy := by
  cases hshape : s.shape with
  | none => exact ⟨[], rfl, Shape.tidy_empty⟩
  | some shape =>
    have htidy := h shape hshape
    obtain ⟨inner⟩ := htidy.plain
    exact ⟨_, rfl, htidy⟩

namespace Declared

/-! ## 4. Following a path -/

/-- What a path of property names leads to from a symbol. -/
def below : List String → Symbol → List Symbol
  | [], s => [s]
  | name :: path, s => (s.shape.toList.flatMap (Shape.lookup name)).flatMap (below path)

/-- What a path leads to, where the first name is looked up in its own way. -/
def followBy (look : String → Option Symbol) : List String → List Symbol
  | [] => []
  | name :: path => (look name).toList.flatMap (below path)

/-- What a path leads to: its first name among the symbols, each further one as a property. -/
def follow (symbols : List Symbol) (path : List String) : List Symbol :=
  followBy (find? symbols) path

/-- Neither path leads on from the other. -/
def Diverges (p q : List String) : Prop := ¬p <+: q ∧ ¬q <+: p

section Follow

variable {look look' : String → Option Symbol} {s new fresh : Symbol} {head name : String}
  {path rest : List String}

theorem Diverges.ne_nil (h : Diverges path rest) : path ≠ [] := by
  rintro rfl
  exact h.1 List.nil_prefix

theorem diverges_cons :
    Diverges (name :: path) (head :: rest) ↔ name ≠ head ∨ Diverges path rest := by
  unfold Diverges
  rw [List.cons_prefix_cons, List.cons_prefix_cons]
  by_cases h : name = head
  · simp [h]
  · simp [h, Ne.symm h]

theorem below_of_object {properties : List (String × Symbol)}
    (h : s.shape.getD (.object []) = .object properties) (hpath : path ≠ []) :
    below path s = followBy (Properties.get? properties) path := by
  cases path with
  | nil => exact absurd rfl hpath
  | cons name path =>
    rw [below, followBy]
    cases hshape : s.shape with
    | none =>
      rw [hshape] at h
      cases h
      rfl
    | some shape =>
      rw [hshape] at h
      obtain rfl : shape = .object properties := h
      rw [Option.toList_some, List.flatMap_singleton]
      rfl

/-- A symbol without a shape leads nowhere, as if there were none. -/
theorem below_getD (hfresh : fresh.shape = none) (hpath : path ≠ []) (found : Option Symbol) :
    below path (found.getD fresh) = found.toList.flatMap (below path) := by
  cases found with
  | some s => exact (List.flatMap_singleton _ _).symm
  | none =>
    cases path with
    | nil => exact absurd rfl hpath
    | cons name path =>
      show below (name :: path) fresh = []
      rw [below, hfresh]
      rfl

theorem followBy_cons_self (h : ∀ n, look' n = if n = head then some new else look n) :
    followBy look' (head :: path) = below path new := by
  rw [followBy, h, if_pos rfl, Option.toList_some, List.flatMap_singleton]

/-- **One level of a declaration.** If only the entry of `head` is changed, and from there all
    paths that diverge from `rest` lead to what they led to before, the same holds of all paths
    that diverge from `head :: rest`. -/
theorem followBy_of_diverges (h : ∀ n, look' n = if n = head then some new else look n)
    (hnew : ∀ q, Diverges q rest → below q new = (look head).toList.flatMap (below q))
    (hpath : Diverges path (head :: rest)) : followBy look' path = followBy look path := by
  cases path with
  | nil => rfl
  | cons name path =>
    by_cases hname : name = head
    · subst hname
      rw [followBy_cons_self h, followBy]
      exact hnew path ((diverges_cons.mp hpath).resolve_left (absurd rfl))
    · rw [followBy, followBy, h, if_neg hname]

end Follow

/-! ## 5. A symbol on its owner -/

section Graft

variable {symbol owner : Symbol} {head : String} {path rest : List String}

/-- A symbol at the end of a path below its owner; the end of the empty path is the owner's own
    place. -/
def graft : List String → Symbol → Symbol → Symbol
  | [], symbol, _ => symbol
  | head :: rest, symbol, owner => owning (head :: rest) symbol owner

/-- The property on the way to a symbol, made where it is missing. -/
def passed (properties : List (String × Symbol)) (head : String) (symbol : Symbol) : Symbol :=
  (Properties.get? properties head).getD
    ⟨head, symbol.declaredAt, .object, symbol.origin, none, none⟩

theorem insertPath_cons (symbol : Symbol) (head : String) (rest : List String)
    (properties : List (String × Symbol)) :
    (Shape.object properties).insertPath symbol (head :: rest) =
      .object (Properties.insert head (graft rest symbol (passed properties head symbol))
        properties) := by
  cases rest with
  | nil => rfl
  | cons next rest => rfl

theorem shape_graft_cons {properties : List (String × Symbol)}
    (h : owner.shape.getD (.object []) = .object properties) (symbol : Symbol) (head : String)
    (rest : List String) :
    (graft (head :: rest) symbol owner).shape = some (.object (Properties.insert head
      (graft rest symbol (passed properties head symbol)) properties)) := by
  show some ((owner.shape.getD (.object [])).insertPath symbol (head :: rest)) = _
  rw [h, insertPath_cons]

theorem passed_tidy {properties : List (String × Symbol)} (h : (Shape.object properties).Tidy)
    (head : String) (symbol : Symbol) :
    (passed properties head symbol).name = head ∧ (passed properties head symbol).Tidy := by
  unfold passed
  cases hget : Properties.get? properties head with
  | none => exact ⟨rfl, tidy_of_none rfl⟩
  | some found => exact (Shape.tidy_object.mp h).2 (head, found) (mem_of_lookup hget)

/-- Grafting keeps shapes tidy, if the symbol has the name of the end of the path. -/
theorem Tidy.graft (howner : owner.Tidy) (hsymbol : symbol.Tidy)
    (hname : ∀ last ∈ path.getLast?, symbol.name = last) : (graft path symbol owner).Tidy := by
  induction path generalizing owner with
  | nil => exact hsymbol
  | cons head rest ih =>
    obtain ⟨properties, hobject, htidy⟩ := howner.exists_object
    obtain ⟨hpassed, hinner⟩ := passed_tidy htidy head symbol
    intro shape hshape
    rw [shape_graft_cons hobject] at hshape
    obtain rfl := Option.some.inj hshape
    cases rest with
    | nil => exact htidy.insert (hname head rfl) hsymbol
    | cons next rest =>
      refine htidy.insert hpassed (ih hinner fun last hlast => hname last ?_)
      rw [List.getLast?_cons_cons]
      exact hlast

/-- Some way down the path, what is left of the path has the symbol at its end. -/
theorem below_graft_append (howner : owner.Tidy) (path rest : List String) :
    ∃ inner : Symbol, below path (graft (path ++ rest) symbol owner) =
      [graft rest symbol inner] ∧ inner.Tidy := by
  induction path generalizing owner with
  | nil => exact ⟨owner, rfl, howner⟩
  | cons head path ih =>
    obtain ⟨properties, hobject, htidy⟩ := howner.exists_object
    obtain ⟨inner, hinner⟩ := ih (passed_tidy htidy head symbol).2
    refine ⟨inner, ?_, hinner.2⟩
    have hshape := shape_graft_cons hobject symbol head (path ++ rest)
    rw [List.cons_append,
      below_of_object (congrArg (Option.getD · _) hshape) (List.cons_ne_nil _ _),
      followBy_cons_self (Properties.get?_insert _ _ _)]
    exact hinner.1

/-- Paths that diverge from that of the symbol lead to what they led to before. -/
theorem below_graft_of_diverges (howner : owner.Tidy) {q : List String} (hq : Diverges q path) :
    below q (graft path symbol owner) = below q owner := by
  induction path generalizing owner q with
  | nil => exact absurd List.nil_prefix hq.2
  | cons head rest ih =>
    obtain ⟨properties, hobject, htidy⟩ := howner.exists_object
    have hshape := shape_graft_cons hobject symbol head rest
    rw [below_of_object (congrArg (Option.getD · _) hshape) hq.ne_nil,
      below_of_object hobject hq.ne_nil]
    refine followBy_of_diverges (Properties.get?_insert _ _ _) (fun q hq => ?_) hq
    rw [ih (passed_tidy htidy head symbol).2 hq]
    exact below_getD rfl hq.ne_nil _

theorem name_graft (hpath : path ≠ []) : (graft path symbol owner).name = owner.name := by
  cases path with
  | nil => exact absurd rfl hpath
  | cons head rest => rfl

theorem object_graft (howner : owner.Tidy) (hpath : path ≠ []) :
    (graft path symbol owner).typeHint = .object ∧
      ∃ properties, (graft path symbol owner).shape = some (.object properties) := by
  cases path with
  | nil => exact absurd rfl hpath
  | cons head rest =>
    obtain ⟨properties, hobject, -⟩ := howner.exists_object
    exact ⟨rfl, _, shape_graft_cons hobject symbol head rest⟩

end Graft

/-! ## 6. Declarations -/

section Declare

variable {symbols : List Symbol} {symbol : Symbol} {name root : String} {rest : List String}

/-- A symbol for the first segment of a path, where there is none yet. -/
def freshRoot (root : String) (symbol : Symbol) : Symbol :=
  ⟨root, rootDeclaration root symbol.declaredAt, .object, symbol.origin, none, none⟩

/-- The symbol as it stands at the end of its path: under the name of the last segment, and as a
    plain name without a shape of its own with the shape that the name had before. -/
def leaf (symbols : List Symbol) (root : String) (rest : List String) (symbol : Symbol) : Symbol :=
  { symbol with
    name := (root :: rest).getLast (List.cons_ne_nil _ _)
    shape := if rest = [] then symbol.shape.or ((find? symbols root).bind Declared.shape)
      else symbol.shape }

theorem declarePath_name (h : IsSegment name) (symbols : List Symbol) (symbol : Symbol) :
    declarePath symbols name symbol = upsert name (replacing { symbol with name := name })
      { symbol with name := name } symbols := by
  have hsegments : pathSegments name = [name] := by
    have hjoined := pathSegments_intercalate (List.cons_ne_nil name [])
      (List.forall_mem_singleton.mpr h)
    rwa [String.intercalate_singleton] at hjoined
  unfold declarePath
  rw [hsegments]

theorem declarePath_below (hrest : rest ≠ []) (h : ∀ name ∈ root :: rest, IsSegment name)
    (symbols : List Symbol) (symbol : Symbol) :
    declarePath symbols (".".intercalate (root :: rest)) symbol =
      upsert root (graft rest (leaf symbols root rest symbol)) (freshRoot root symbol) symbols := by
  obtain ⟨head, rest, rfl⟩ := List.exists_cons_of_ne_nil hrest
  unfold declarePath leaf
  rw [pathSegments_intercalate (List.cons_ne_nil _ _) h, if_neg hrest, List.getLast_cons hrest]
  simp only [List.getLast?_eq_some_getLast hrest, Option.getD_some]
  rfl

theorem Tidy.replacing {old : Symbol} (hsymbol : symbol.Tidy) (hold : old.Tidy) :
    (symbol.replacing old).Tidy := by
  intro shape hshape
  rcases Option.or_eq_some_iff.mp hshape with h | ⟨-, h⟩
  · exact hsymbol shape h
  · exact hold shape h

theorem AllTidy.upsert {change : Symbol → Symbol} {fresh : Symbol} (h : AllTidy symbols)
    (hname : ∀ s : Symbol, s.name = name → (change s).name = name) (hfresh : fresh.name = name)
    (hchange : ∀ s : Symbol, s.Tidy → (change s).Tidy) (htidy : fresh.Tidy) :
    AllTidy (upsert name change fresh symbols) := by
  refine ⟨?_, forall_mem_upsert hchange htidy h.each⟩
  rw [map_name_upsert hname hfresh]
  split
  · exact h.names
  · rename_i hnew
    refine List.nodup_append.mpr ⟨h.names, List.nodup_singleton _, fun a ha b hb => ?_⟩
    rw [List.mem_singleton.mp hb]
    exact ne_of_mem_of_not_mem ha hnew

/-- Declaring a path keeps names distinct and shapes tidy. -/
theorem AllTidy.declarePath (h : AllTidy symbols) (hsymbol : symbol.Tidy)
    (hsegments : ∀ name ∈ root :: rest, IsSegment name) :
    AllTidy (declarePath symbols (".".intercalate (root :: rest)) symbol) := by
  by_cases hrest : rest = []
  · subst hrest
    have hnamed : ({ symbol with name := root } : Symbol).Tidy := hsymbol
    rw [String.intercalate_singleton, declarePath_name (hsegments root List.mem_cons_self)]
    exact h.upsert (fun _ _ => rfl) rfl (fun _ => hnamed.replacing) hnamed
  · have hleaf : (leaf symbols root rest symbol).Tidy := fun shape hshape =>
      hsymbol shape ((if_neg hrest).symm.trans hshape)
    rw [declarePath_below hrest hsegments]
    refine h.upsert (fun _ hs => (name_graft hrest).trans hs) rfl
      (fun s hs => hs.graft hleaf fun last hlast => ?_) (tidy_of_none rfl)
    rw [List.getLast?_eq_some_getLast hrest] at hlast
    exact (List.getLast_cons hrest).trans (Option.some.inj hlast)

/-- **The entry that a declaration changes** is that of the first segment: the symbol is grafted
    on what was there, or on a fresh symbol. -/
theorem find?_declarePath (hsegments : ∀ name ∈ root :: rest, IsSegment name)
    (symbols : List Symbol) (symbol : Symbol) (name : String) :
    find? (declarePath symbols (".".intercalate (root :: rest)) symbol) name =
      if name = root then
        some (graft rest (leaf symbols root rest symbol)
          ((find? symbols root).getD (freshRoot root symbol)))
      else find? symbols name := by
  by_cases hrest : rest = []
  · subst hrest
    have hname : ∀ old : Symbol, old.name = root →
        (replacing { symbol with name := root } old).name = root := fun _ _ => rfl
    rw [String.intercalate_singleton, declarePath_name (hsegments root List.mem_cons_self),
      find?_upsert hname rfl]
    congr 2
    unfold leaf replacing graft
    rw [if_pos rfl, List.getLast_singleton]
    cases find? symbols root with
    | none => simp
    | some old => rfl
  · have hname : ∀ s : Symbol, s.name = root →
        (graft rest (leaf symbols root rest symbol) s).name = root :=
      fun _ hs => (name_graft hrest).trans hs
    rw [declarePath_below hrest hsegments]
    exact find?_upsert hname rfl name

/-- **Declaring a path.** Among tidy symbols, declaring a symbol under a dotted path leaves all
    symbols tidy. The path then leads to the symbol, under the name of the last segment; a plain
    name given without a shape keeps the shape that it had. Every path on the way leads to one
    object with properties, and every path that is neither on the way nor leads on from the
    declared one leads to what it led to before. -/
theorem follow_declarePath (h : AllTidy symbols) (hsymbol : symbol.Tidy)
    (hsegments : ∀ name ∈ root :: rest, IsSegment name) :
    let segments := root :: rest
    let after := declarePath symbols (".".intercalate segments) symbol
    AllTidy after ∧
    follow after segments =
      [{ symbol with
         name := segments.getLast (List.cons_ne_nil _ _)
         shape := if rest = [] then symbol.shape.or ((find? symbols root).bind Declared.shape)
           else symbol.shape }] ∧
    (∀ q, q ≠ [] → q <+: segments → q ≠ segments → ∃ s properties, follow after q = [s] ∧
      s.typeHint = .object ∧ s.shape = some (.object properties)) ∧
    ∀ q, ¬q <+: segments → ¬segments <+: q → follow after q = follow symbols q := by
  intro segments after
  have hfind := find?_declarePath hsegments symbols symbol
  have howner : ((find? symbols root).getD (freshRoot root symbol)).Tidy := by
    cases hroot : find? symbols root with
    | none => exact tidy_of_none rfl
    | some s => exact h.each s (List.mem_of_find?_eq_some hroot)
  -- along the path, the symbol is met at the end of what is left of the path
  have halong : ∀ q r, q ++ r = rest → ∃ inner : Symbol,
      follow after (root :: q) = [graft r (leaf symbols root rest symbol) inner] ∧
        inner.Tidy := by
    intro q r hsplit
    obtain ⟨inner, hinner, htidy⟩ := below_graft_append howner q r
    refine ⟨inner, ?_, htidy⟩
    rw [follow, followBy_cons_self hfind, ← hinner, hsplit]
  refine ⟨h.declarePath hsymbol hsegments, ?_, ?_, ?_⟩
  · obtain ⟨inner, hinner, -⟩ := halong rest [] (List.append_nil rest)
    exact hinner
  · rintro q hq ⟨r, hsplit⟩ hproper
    obtain ⟨name, q, rfl⟩ := List.exists_cons_of_ne_nil hq
    obtain ⟨rfl, hrest⟩ := List.cons.inj hsplit
    have hr : r ≠ [] := by
      rintro rfl
      exact hproper ((List.append_nil _).symm.trans hsplit)
    obtain ⟨inner, hinner, htidy⟩ := halong q r hrest
    obtain ⟨hhint, properties, hshape⟩ := object_graft htidy hr
    exact ⟨_, properties, hinner, hhint, hshape⟩
  · intro q hq hq'
    refine followBy_of_diverges hfind (fun q hq => ?_) ⟨hq, hq'⟩
    rw [below_graft_of_diverges howner hq]
    exact below_getD rfl hq.ne_nil _

/-- A path of three segments below two strings that already have properties. They become objects
    and keep their other properties. -/
theorem follow_declarePath_nested :
    let sets (place : Nat) (name : String) (properties : List Symbol) : Symbol :=
      ⟨name, .document ⟨place, place + 1⟩, .string, .setStep, none,
        some (.object (properties.map fun s => (s.name, s)))⟩
    let c := sets 4 "c" []
    let x := sets 6 "x" []
    let symbols := [sets 0 "a" [sets 2 "b" [c], x], sets 8 "k" []]
    let symbol := sets 10 "a.b.d" [sets 12 "e" []]
    let after := declarePath symbols "a.b.d" symbol
    AllTidy symbols ∧ symbol.Tidy ∧ (∀ name ∈ ["a", "b", "d"], IsSegment name) ∧
      AllTidy after ∧ follow after ["a", "b", "d"] = [{ symbol with name := "d" }] ∧
      (∃ s properties, follow after ["a", "b"] = [s] ∧ s.typeHint = .object ∧
        s.shape = some (.object properties)) ∧
      follow after ["a", "b", "c"] = [c] ∧ follow after ["a", "x"] = [x] := by
  intro sets c x symbols symbol after
  have hsets : ∀ place name properties, (properties.map Declared.name).Pairwise (· < ·) →
      (∀ s ∈ properties, s.Tidy) → (sets place name properties).Tidy := by
    rintro place name properties hsorted h _ ⟨⟩
    have hkeys : (properties.map fun s => (s.name, s)).map Prod.fst =
        properties.map Declared.name := List.map_map
    refine Shape.tidy_object.mpr ⟨hkeys ▸ hsorted, fun entry hentry => ?_⟩
    obtain ⟨s, hs, rfl⟩ := List.mem_map.mp hentry
    exact ⟨rfl, h s hs⟩
  have hempty : ∀ place name, (sets place name []).Tidy := fun place name =>
    hsets place name [] .nil (List.forall_mem_nil _)
  have hone : ∀ place name s, s.Tidy → (sets place name [s]).Tidy := fun place name s hs =>
    hsets place name [s] (List.pairwise_singleton _ _) (List.forall_mem_singleton.mpr hs)
  have htidy : AllTidy symbols := by
    refine ⟨by decide, List.forall_mem_cons.mpr ⟨hsets _ _ _ (by decide) ?_, ?_⟩⟩
    · exact List.forall_mem_cons.mpr ⟨hone _ _ _ (hempty _ _),
        List.forall_mem_singleton.mpr (hempty _ _)⟩
    · exact List.forall_mem_singleton.mpr (hempty _ _)
  have hsymbol : symbol.Tidy := hone _ _ _ (hempty _ _)
  have hsegments : ∀ name ∈ ["a", "b", "d"], IsSegment name := by
    unfold IsSegment
    decide
  obtain ⟨hafter, hend, hway, hother⟩ := follow_declarePath htidy hsymbol hsegments
  exact ⟨htidy, hsymbol, hsegments, hafter, hend,
    hway ["a", "b"] (by decide) (by decide) (by decide),
    hother ["a", "b", "c"] (by decide) (by decide),
    hother ["a", "x"] (by decide) (by decide)⟩

end Declare

end Declared

end FlowExpr
