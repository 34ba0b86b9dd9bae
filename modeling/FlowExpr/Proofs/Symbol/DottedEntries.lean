import FlowExpr.Proofs.Symbol.Paths

/-!
# Sequences of dotted entries

A mapping or a documentation block declares one path after another. A declaration makes its path
and all beginnings of it lead somewhere. What leads on from a declared path is lost, if the path
has more than one segment, and kept below a plain name. So a path is found in the end exactly if
an entry brought it and no later one cut it off:

* `DottedEntry`: a symbol without properties of its own, with the path that it is declared under;
* `DottedEntry.Brings`, `DottedEntry.Cuts`: the paths that an entry makes, and those that it ends;
* `Declared.follow_declareEntry`: what every path leads to after one entry;
* `Declared.follow_declareEntries`: which paths lead to a symbol after any sequence of entries.
-/

namespace FlowExpr

/-- A symbol without properties, and the segments of the path that it is declared under. -/
structure DottedEntry where
  root : String
  rest : List String
  symbol : Symbol
  isSegment : ∀ name ∈ root :: rest, IsSegment name
  shapeless : symbol.shape = none

namespace DottedEntry

/-- All segments of the path. -/
def segments (e : DottedEntry) : List String := e.root :: e.rest

/-- The path as it is written. -/
def path (e : DottedEntry) : String := ".".intercalate e.segments

/-- The path leads to a symbol once the entry is declared: it is a beginning of the entry's own. -/
def Brings (e : DottedEntry) (q : List String) : Prop := q ≠ [] ∧ q <+: e.segments

/-- The path leads on from that of the entry, which has more than one segment. -/
def Cuts (e : DottedEntry) (q : List String) : Prop :=
  e.rest ≠ [] ∧ e.segments <+: q ∧ q ≠ e.segments

/-- An entry of the sequence brings the path, and no later one cuts it off. -/
def Lasts (entries : List DottedEntry) (q : List String) : Prop :=
  ∃ front e back, entries = front ++ e :: back ∧ e.Brings q ∧ ∀ later ∈ back, ¬later.Cuts q

variable {entries : List DottedEntry} {e : DottedEntry} {q : List String}

theorem Cuts.two_lt (h : e.Cuts q) : 2 < q.length := by
  obtain ⟨hrest, ⟨more, rfl⟩, hne⟩ := h
  have hlonger := List.length_pos_iff.mpr hrest
  have hmore : more ≠ [] := by
    rintro rfl
    exact hne (List.append_nil _)
  have hmore := List.length_pos_iff.mpr hmore
  rw [List.length_append, segments, List.length_cons]
  omega

theorem not_lasts_nil : ¬Lasts [] q := by
  rintro ⟨front, e, back, hsplit, -⟩
  exact absurd hsplit.symm (List.append_ne_nil_of_right_ne_nil _ (List.cons_ne_nil _ _))

/-- One more entry brings its paths, and leaves of the others those that it does not cut. -/
theorem lasts_concat : Lasts (entries ++ [e]) q ↔ e.Brings q ∨ Lasts entries q ∧ ¬e.Cuts q := by
  constructor
  · rintro ⟨front, d, back, hsplit, hd, hback⟩
    rcases List.eq_nil_or_concat back with rfl | ⟨back, last, rfl⟩
    · obtain ⟨-, hlast⟩ := List.append_inj' hsplit rfl
      obtain rfl := List.cons.inj hlast |>.1
      exact .inl hd
    · rw [List.concat_eq_append, ← List.cons_append, ← List.append_assoc] at hsplit
      obtain ⟨hentries, hlast⟩ := List.append_inj' hsplit rfl
      obtain rfl := List.cons.inj hlast |>.1
      rw [List.concat_eq_append, List.forall_mem_append] at hback
      exact .inr ⟨⟨front, d, back, hentries, hd, hback.1⟩, hback.2 e (List.mem_singleton_self e)⟩
  · rintro (h | ⟨⟨front, d, back, rfl, hd, hback⟩, hcut⟩)
    · exact ⟨entries, e, [], rfl, h, List.forall_mem_nil _⟩
    · refine ⟨front, d, back ++ [e], by simp, hd, List.forall_mem_append.mpr ⟨hback, ?_⟩⟩
      exact List.forall_mem_singleton.mpr hcut

end DottedEntry

namespace Declared

/-! ## 1. One entry -/

section One

variable {symbols : List Symbol} {e : DottedEntry} {path q : List String} {s t : Symbol}

theorem below_append (path q : List String) (s : Symbol) :
    below (path ++ q) s = (below path s).flatMap (below q) := by
  induction path generalizing s with
  | nil => exact (List.flatMap_singleton _ _).symm
  | cons name path ih =>
    rw [List.cons_append, below, below]
    exact (List.flatMap_congr fun t _ => ih t).trans List.flatMap_assoc.symm

/-- What is below a symbol is a matter of its shape. -/
theorem below_congr (h : s.shape = t.shape) (hq : q ≠ []) : below q s = below q t := by
  cases q with
  | nil => exact absurd rfl hq
  | cons name q => rw [below, below, h]

/-- The symbols with one entry more. -/
def declareEntry (symbols : List Symbol) (e : DottedEntry) : List Symbol :=
  declarePath symbols e.path e.symbol

theorem AllTidy.declareEntry (h : AllTidy symbols) (e : DottedEntry) :
    AllTidy (declareEntry symbols e) :=
  h.declarePath (tidy_of_none e.shapeless) e.isSegment

theorem find?_declareEntry (symbols : List Symbol) (e : DottedEntry) (name : String) :
    find? (declareEntry symbols e) name =
      if name = e.root then
        some (graft e.rest (leaf symbols e.root e.rest e.symbol)
          ((find? symbols e.root).getD (freshRoot e.root e.symbol)))
      else find? symbols name :=
  find?_declarePath e.isSegment symbols e.symbol name

/-- What the entry's symbol is grafted on. -/
theorem tidy_owner (h : AllTidy symbols) (root : String) (symbol : Symbol) :
    ((find? symbols root).getD (freshRoot root symbol)).Tidy := by
  cases hroot : find? symbols root with
  | none => exact tidy_of_none rfl
  | some s => exact h.each s (List.mem_of_find?_eq_some hroot)

/-- Along the path of the entry, its symbol is met at the end of what is left of the path. -/
theorem exists_follow_declareEntry (h : AllTidy symbols) {r : List String}
    (hsplit : path ++ r = e.rest) : ∃ inner : Symbol,
      follow (declareEntry symbols e) (e.root :: path) =
        [graft r (leaf symbols e.root e.rest e.symbol) inner] := by
  obtain ⟨inner, hinner, -⟩ := @below_graft_append (leaf symbols e.root e.rest e.symbol) _
    (tidy_owner h e.root e.symbol) path r
  refine ⟨inner, ?_⟩
  rw [follow, followBy_cons_self (find?_declareEntry symbols e), ← hinner, hsplit]

theorem exists_of_brings (h : AllTidy symbols) (hq : e.Brings q) :
    ∃ s, follow (declareEntry symbols e) q = [s] := by
  obtain ⟨hne, r, hsplit⟩ := hq
  obtain ⟨name, path, rfl⟩ := List.exists_cons_of_ne_nil hne
  obtain ⟨rfl, hrest⟩ := List.cons.inj hsplit
  obtain ⟨inner, hinner⟩ := exists_follow_declareEntry h hrest
  exact ⟨_, hinner⟩

/-- Beyond the end of the path, everything is below the entry's symbol. -/
theorem follow_declareEntry_append (h : AllTidy symbols) (q : List String) :
    follow (declareEntry symbols e) (e.segments ++ q) =
      below q (leaf symbols e.root e.rest e.symbol) := by
  obtain ⟨inner, hinner⟩ := exists_follow_declareEntry (e := e) h (List.append_nil e.rest)
  have hend : follow (declareEntry symbols e) (e.root :: e.rest) =
      [leaf symbols e.root e.rest e.symbol] := hinner
  rw [follow, followBy_cons_self (find?_declareEntry symbols e)] at hend
  rw [DottedEntry.segments, List.cons_append, follow,
    followBy_cons_self (find?_declareEntry symbols e), below_append, hend,
    List.flatMap_singleton]

theorem follow_of_cuts (h : AllTidy symbols) (hq : e.Cuts q) :
    follow (declareEntry symbols e) q = [] := by
  obtain ⟨hrest, ⟨more, rfl⟩, hne⟩ := hq
  have hmore : more ≠ [] := by
    rintro rfl
    exact hne (List.append_nil _)
  -- the symbol has no shape, its own or that of an earlier declaration
  have hshape : (leaf symbols e.root e.rest e.symbol).shape = none :=
    (if_neg hrest).trans e.shapeless
  obtain ⟨name, more, rfl⟩ := List.exists_cons_of_ne_nil hmore
  rw [follow_declareEntry_append h, below, hshape]
  rfl

/-- **A plain name keeps its properties**, at every depth. -/
theorem follow_of_plain (h : AllTidy symbols) (hrest : e.rest = []) (hq : q ≠ []) :
    follow (declareEntry symbols e) (e.root :: q) = follow symbols (e.root :: q) := by
  have hsegments : e.root :: q = e.segments ++ q := by
    rw [DottedEntry.segments, hrest]
    rfl
  have hshape : (leaf symbols e.root e.rest e.symbol).shape =
      (find? symbols e.root).bind Declared.shape := by
    unfold leaf
    rw [if_pos hrest, e.shapeless, Option.none_or]
  rw [hsegments, follow_declareEntry_append h, ← hsegments, follow, followBy]
  cases hroot : find? symbols e.root with
  | none =>
    rw [hroot] at hshape
    obtain ⟨name, q, rfl⟩ := List.exists_cons_of_ne_nil hq
    rw [below, hshape]
    rfl
  | some s =>
    rw [hroot] at hshape
    rw [below_congr (t := s) hshape hq, Option.toList_some, List.flatMap_singleton]

/-- **What every path leads to after one entry**: the paths that it brings to one symbol, those
    that it cuts off nowhere, and all others to what they led to before. -/
theorem follow_declareEntry (h : AllTidy symbols) (e : DottedEntry) (q : List String) :
    (e.Brings q → ∃ s, follow (declareEntry symbols e) q = [s]) ∧
    (e.Cuts q → follow (declareEntry symbols e) q = []) ∧
    (¬e.Brings q → ¬e.Cuts q → follow (declareEntry symbols e) q = follow symbols q) := by
  refine ⟨exists_of_brings h, follow_of_cuts h, fun hbrings hcuts => ?_⟩
  by_cases hq : q = []
  · subst hq
    rfl
  have hbegins : ¬q <+: e.segments := fun hbegins => hbrings ⟨hq, hbegins⟩
  by_cases hlonger : e.segments <+: q
  · -- the path leads on from a plain name
    have hrest : e.rest = [] := by
      refine Classical.byContradiction fun hrest => hcuts ⟨hrest, hlonger, ?_⟩
      rintro rfl
      exact hbegins (List.prefix_refl _)
    obtain ⟨more, rfl⟩ := hlonger
    have hmore : more ≠ [] := by
      rintro rfl
      exact hbegins ⟨[], by simp⟩
    have hsegments : e.segments = [e.root] := by rw [DottedEntry.segments, hrest]
    rw [hsegments]
    exact follow_of_plain h hrest hmore
  · refine followBy_of_diverges (find?_declareEntry symbols e)
      (fun q hq => ?_) ⟨hbegins, hlonger⟩
    rw [below_graft_of_diverges (tidy_owner h e.root e.symbol) hq]
    exact below_getD rfl hq.ne_nil _

end One

/-! ## 2. Sequences of entries -/

/-- The symbols of entries that are declared one after another. -/
def declareEntries (entries : List DottedEntry) : List Symbol := entries.foldl declareEntry []

theorem declareEntries_concat (entries : List DottedEntry) (e : DottedEntry) :
    declareEntries (entries ++ [e]) = declareEntry (declareEntries entries) e := by
  unfold declareEntries
  rw [List.foldl_append, List.foldl_cons, List.foldl_nil]

theorem allTidy_declareEntries (entries : List DottedEntry) : AllTidy (declareEntries entries) :=
  List.foldlRecOn (motive := AllTidy) entries _ ⟨List.nodup_nil, List.forall_mem_nil _⟩
    fun _ h e _ => h.declareEntry e

/-- **Paths found after a sequence.** The paths that last lead to one symbol each. -/
theorem exists_of_lasts {entries : List DottedEntry} {q : List String}
    (h : DottedEntry.Lasts entries q) : ∃ s, follow (declareEntries entries) q = [s] := by
  induction entries using List.reverseRecOn with
  | nil => exact absurd h DottedEntry.not_lasts_nil
  | append_singleton entries e ih =>
    obtain ⟨hbrings, -, hkeeps⟩ := follow_declareEntry (allTidy_declareEntries entries) e q
    rw [declareEntries_concat]
    by_cases hnew : e.Brings q
    · exact hbrings hnew
    · obtain ⟨hlasts, hcuts⟩ := (DottedEntry.lasts_concat.mp h).resolve_left hnew
      rw [hkeeps hnew hcuts]
      exact ih hlasts

/-- All other paths lead nowhere. -/
theorem follow_eq_nil {entries : List DottedEntry} {q : List String}
    (h : ¬DottedEntry.Lasts entries q) : follow (declareEntries entries) q = [] := by
  induction entries using List.reverseRecOn with
  | nil =>
    cases q with
    | nil => rfl
    | cons name q => rfl
  | append_singleton entries e ih =>
    rw [DottedEntry.lasts_concat, not_or] at h
    obtain ⟨-, hcut, hkeeps⟩ := follow_declareEntry (allTidy_declareEntries entries) e q
    rw [declareEntries_concat]
    by_cases hcuts : e.Cuts q
    · exact hcut hcuts
    · rw [hkeeps h.1 hcuts]
      exact ih fun hlasts => h.2 ⟨hlasts, hcuts⟩

/-- **Declared one after another.** Among symbols without properties of their own that are
    declared under dotted paths, in any order, a path leads to one symbol if an entry brings it
    and no later entry cuts it off, and nowhere otherwise. Beginnings of declared paths that have
    one or two segments are always found. A name that is declared again as a plain name keeps
    what earlier entries put below it, at every depth. -/
theorem follow_declareEntries (entries : List DottedEntry) :
    let after := declareEntries entries
    (∀ q, DottedEntry.Lasts entries q → ∃ s, follow after q = [s]) ∧
    (∀ q, ¬DottedEntry.Lasts entries q → follow after q = []) ∧
    (∀ e ∈ entries, ∀ q, q ≠ [] → q <+: e.segments → q.length ≤ 2 →
      ∃ s, follow after q = [s]) ∧
    (∀ e : DottedEntry, e.rest = [] → ∀ q, q ≠ [] →
      follow (declarePath after e.path e.symbol) (e.root :: q) = follow after (e.root :: q)) := by
  intro after
  refine ⟨fun q => exists_of_lasts, fun q => follow_eq_nil, fun e he q hne hq hlength => ?_,
    fun e hrest q hq => follow_of_plain (allTidy_declareEntries entries) hrest hq⟩
  obtain ⟨front, back, rfl⟩ := List.append_of_mem he
  refine exists_of_lasts ⟨front, e, back, rfl, ⟨hne, hq⟩, fun later _ hcuts => ?_⟩
  exact absurd hcuts.two_lt (Nat.not_lt.mpr hlength)

/-- A path of three segments outlasts the plain name that it begins with, declared after it. -/
theorem follow_declareEntries_plain_last :
    let path : DottedEntry := ⟨"a", ["b", "c"],
      ⟨"a.b.c", .document ⟨0, 5⟩, .int, .setStep, none, none⟩,
      by unfold IsSegment; decide, rfl⟩
    let name : DottedEntry := ⟨"a", [],
      ⟨"a", .document ⟨9, 10⟩, .string, .setStep, none, none⟩,
      by unfold IsSegment; decide, rfl⟩
    DottedEntry.Lasts [path, name] ["a", "b", "c"] ∧
      ∃ s, follow (declareEntries [path, name]) ["a", "b", "c"] = [s] := by
  intro path name
  have hlasts : DottedEntry.Lasts [path, name] ["a", "b", "c"] :=
    ⟨[], path, [name], rfl, ⟨List.cons_ne_nil _ _, List.prefix_refl _⟩,
      List.forall_mem_singleton.mpr fun hcuts => hcuts.1 rfl⟩
  exact ⟨hlasts, (follow_declareEntries [path, name]).1 _ hlasts⟩

/-- A path of three segments is lost where its first two are declared after it. -/
theorem follow_declareEntries_shorter_last :
    let path : DottedEntry := ⟨"a", ["b", "c"],
      ⟨"a.b.c", .document ⟨0, 5⟩, .int, .setStep, none, none⟩,
      by unfold IsSegment; decide, rfl⟩
    let shorter : DottedEntry := ⟨"a", ["b"],
      ⟨"a.b", .document ⟨9, 12⟩, .string, .setStep, none, none⟩,
      by unfold IsSegment; decide, rfl⟩
    (∃ s, follow (declareEntries [path]) path.segments = [s]) ∧
      follow (declareEntries [path, shorter]) path.segments = [] := by
  intro path shorter
  constructor
  · exact exists_of_brings (allTidy_declareEntries []) ⟨List.cons_ne_nil _ _, List.prefix_refl _⟩
  · exact follow_of_cuts (allTidy_declareEntries [path])
      ⟨List.cons_ne_nil _ _, ⟨["c"], rfl⟩, by decide⟩

end Declared

end FlowExpr
