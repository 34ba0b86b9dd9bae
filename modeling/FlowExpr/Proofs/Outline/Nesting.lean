import FlowExpr.Proofs.Outline.Placing
import FlowExpr.Proofs.Outline.Ranges
import FlowExpr.Proofs.Scope.Visibility
import Mathlib

/-!
# Outlines are well nested

A document says where its keys and scalars begin, and all else is derived from that: a step ends
where the next one begins, an entry where the next key does, and the last of a row where the
structure around it ends. Scopes rely on the ranges that come out. They are well nested for every
structure that is laid out in the order of its text, if no key or step is taken for a copy of it:

* `Outline.Laid`: keys and scalar steps are spelled in their order, each with what belongs to it
  before the next;
* `Entry.row_ranges`: entries follow one another like their keys;
* `Step.Nested`: the branches of a step, their steps and its `out` entry are in order;
* `Outline.nested_ofNode`: flows, steps, branches and `out` entries are in order at every depth;
* `Outline.not_nested_ofNode_copies`: where copies of a step run into one another, they need not
  be.
-/

namespace FlowExpr

open Text (byteLength)
open Yaml (Mark Node)

/-! ## 1. Structures in the order of their text -/

namespace Outline

/-- The place that a mark points to, if there is one, lies between two offsets. -/
def BeginsIn (lines : Lines) (lo hi : Nat) (mark : Option Mark) : Prop :=
  ∀ o, locateText? lines mark [] = some o → lo ≤ o ∧ o ≤ hi

/-- What a node is read as. -/
inductive Role where
  | sections | flows | steps | step | other
  deriving DecidableEq

/-- What the value of a key is read as, in a mapping that is read in some role. -/
def Role.below (role : Role) (kind : StepKind) (key : String) : Role :=
  match role with
  | .sections => if key = "flows" then .flows else .other
  | .flows => .steps
  | .step => if isBranchKey kind key then .steps else .other
  | .steps | .other => .other

/-- No value of a key is a step. -/
theorem Role.below_ne_step (role : Role) (kind : StepKind) (key : String) :
    role.below kind key ≠ .step := by
  cases role with
  | sections => rw [below]; split <;> decide
  | step => rw [below]; split <;> decide
  | flows | steps | other => nofun

mutual

/-- The node lies between two offsets, in the order of the text, where `spelled` says of a key or
    a scalar step how it stands at its mark. What has no part in flows and steps may be spelled in
    any way. -/
def Laid (spelled : Lines → Nat → Nat → Option Mark → String → Prop) (lines : Lines) (role : Role)
    (lo hi : Nat) : Node → Prop
  | .scalar mark text => lo ≤ hi ∧ (role = .step → spelled lines lo hi mark text)
  | .sequence mark items => lo ≤ hi ∧ (role = .step → BeginsIn lines lo hi mark) ∧
      (role = .steps → ItemsLaid spelled lines lo hi items)
  | .mapping mark entries => lo ≤ hi ∧ (role = .step → entries = [] → BeginsIn lines lo hi mark) ∧
      (role ≠ .other → (entries.map fun entry => entry.1.2).Nodup ∧
        EntriesLaid spelled lines
          (role.below (stepKind (Placed.sorted (Placed.ofEntries lines entries)))) lo hi entries)

/-- The items of a list of steps follow one another. -/
def ItemsLaid (spelled : Lines → Nat → Nat → Option Mark → String → Prop) (lines : Lines)
    (lo hi : Nat) : List Node → Prop
  | [] => lo ≤ hi
  | item :: rest => ∃ mid, Laid spelled lines .step lo mid item ∧
      ItemsLaid spelled lines mid hi rest

/-- Each key is spelled after what belongs to the key before it, and in front of its own value. -/
def EntriesLaid (spelled : Lines → Nat → Nat → Option Mark → String → Prop) (lines : Lines)
    (role : String → Role) (lo hi : Nat) : List ((Option Mark × String) × Node) → Prop
  | [] => lo ≤ hi
  | ((mark, key), value) :: rest => ∃ start stop, spelled lines lo start mark key ∧
      Laid spelled lines (role key) start stop value ∧ EntriesLaid spelled lines role stop hi rest

end

section

variable {spelled : Lines → Nat → Nat → Option Mark → String → Prop}
variable {lines : Lines} {role : Role} {lo hi : Nat}

theorem Laid.le {node : Node} (h : Laid spelled lines role lo hi node) : lo ≤ hi := by
  cases node <;> exact h.1

/-- Scalars that are values of keys may be spelled in any way. -/
theorem Laid.value (hle : lo ≤ hi) (kind : StepKind) (key : String) (mark : Option Mark)
    (text : String) : Laid spelled lines (role.below kind key) lo hi (.scalar mark text) :=
  ⟨hle, fun hstep => absurd hstep (role.below_ne_step kind key)⟩

theorem ItemsLaid.le {items : List Node} (h : ItemsLaid spelled lines lo hi items) : lo ≤ hi := by
  induction items generalizing lo with
  | nil => exact h
  | cons item rest ih =>
    obtain ⟨mid, hitem, hrest⟩ := h
    exact Nat.le_trans hitem.le (ih hrest)

/-- A list that is the value of a key is laid out if its items are. -/
theorem Laid.sequence {items : List Node} (h : ItemsLaid spelled lines lo hi items)
    (kind : StepKind) (key : String) (mark : Option Mark) :
    Laid spelled lines (role.below kind key) lo hi (.sequence mark items) :=
  ⟨h.le, fun hstep => absurd hstep (role.below_ne_step kind key), fun _ => h⟩

/-- A document of one flow is laid out if its keys are spelled in front of its steps. -/
theorem Laid.oneFlow {name : String} {items : List Node} {mid start stop : Nat}
    {sectionMark nameMark : Option Mark} (hsection : spelled lines lo mid sectionMark "flows")
    (hname : spelled lines mid start nameMark name)
    (hitems : ItemsLaid spelled lines start stop items) (hlo : lo ≤ mid) (hmid : mid ≤ start)
    (hstop : stop ≤ hi) (rootMark flowsMark itemsMark : Option Mark) :
    Laid spelled lines .sections lo hi (.mapping rootMark [((sectionMark, "flows"),
      .mapping flowsMark [((nameMark, name), .sequence itemsMark items)])]) := by
  have hle := Nat.le_trans hmid hitems.le
  have hflows : Laid spelled lines .flows mid stop
      (.mapping flowsMark [((nameMark, name), .sequence itemsMark items)]) :=
    ⟨hle, nofun, fun _ => ⟨List.nodup_singleton _, start, stop, hname, .sequence hitems _ _ _,
      Nat.le_refl _⟩⟩
  exact ⟨by omega, nofun, fun _ => ⟨List.nodup_singleton _, mid, stop, hsection, hflows, hstop⟩⟩

end

end Outline

/-! ## 2. Ranges of entries -/

namespace Entry

/-- The keys of some entries and the ranges of the entries. -/
def ranges {ν : Type} (stop : Nat) : List (Entry ν) → List (String × Span)
  | [] => []
  | entry :: rest => (entry.key, entry.span rest stop) :: ranges stop rest

variable {ν : Type} {stop : Nat} {entries : List (Entry ν)}

/-- Where an entry ends if its key is in a row with those that follow. -/
theorem row_following {lo : Nat} (h : Span.Row lo (entries.map keySpan) stop) :
    lo ≤ ((entries.head?.map keySpan).map Span.start).getD stop ∧
      Span.Row (((entries.head?.map keySpan).map Span.start).getD stop)
        (entries.map keySpan) stop := by
  cases entries with
  | nil => exact ⟨h, Nat.le_refl _⟩
  | cons entry rest => exact ⟨h.1, Nat.le_refl _, h.2⟩

/-- **Entries follow one another** if their keys do: each ends where the next one begins. -/
theorem row_ranges {lo : Nat} (h : Span.Row lo (entries.map keySpan) stop) :
    Span.Row lo ((ranges stop entries).map Prod.snd) stop := by
  induction entries generalizing lo with
  | nil => exact h
  | cons entry rest ih =>
    obtain ⟨hstart, hforward, hrest⟩ := h
    obtain ⟨hnext, hrow⟩ := row_following hrest
    have hstop : (entry.span rest stop).stop =
        ((rest.head?.map keySpan).map Span.start).getD stop := Nat.max_eq_left hnext
    refine ⟨hstart, ?_, ?_⟩
    · rw [hstop]
      exact Nat.le_trans hforward hnext
    · rw [hstop]
      exact ih hrow

theorem find?_mem_ranges {key : String} {entry : Entry ν} {span : Span}
    (h : find? key stop entries = some (entry, span)) : (key, span) ∈ ranges stop entries := by
  induction entries with
  | nil => cases h
  | cons first rest ih =>
    unfold find? at h
    split at h
    · rename_i hkey
      obtain ⟨-, rfl⟩ := Prod.mk.inj (Option.some.inj h)
      rw [← hkey]
      exact List.mem_cons_self
    · exact List.mem_cons_of_mem _ (ih h)

/-- Entries of different keys do not overlap. -/
theorem disjoint_of_mem_ranges {lo : Nat} (h : Span.Row lo (entries.map keySpan) stop)
    {a b : String × Span} (ha : a ∈ ranges stop entries) (hb : b ∈ ranges stop entries)
    (hkeys : a.1 ≠ b.1) : a.2.Disjoint b.2 := by
  have : Std.Symm fun a b : String × Span => a.2.Disjoint b.2 := ⟨fun _ _ => Or.symm⟩
  have hpairs : (ranges stop entries).Pairwise fun a b => a.2.Disjoint b.2 :=
    (List.pairwise_map.mp (row_ranges h).pairwise).imp Or.inl
  exact hpairs.forall ha hb fun hab => hkeys (congrArg Prod.fst hab)

end Entry

/-! ## 3. Placing what is laid out -/

namespace Placed

/-- Candidates whose keys were found, as entries. -/
def located (candidates : List Candidate) : List (Entry Placed) :=
  candidates.filterMap fun c => c.keySpan.map fun span => ⟨span, c.key, c.value⟩

/-- Nothing is dropped if each key occurs once. -/
theorem unique_eq_self {candidates : List Candidate} (h : (candidates.map Candidate.key).Nodup) :
    unique candidates = candidates := by
  have hfold : ∀ found : List Candidate, ((found ++ candidates).map Candidate.key).Nodup →
      candidates.foldl
        (fun found c =>
          if found.any fun f => f.key == c.key then
            found.map fun f => if f.key == c.key then { f with value := c.value } else f
          else found ++ [c]) found = found ++ candidates := by
    clear h
    induction candidates with
    | nil => exact fun found _ => (List.append_nil found).symm
    | cons c rest ih =>
      intro found hfound
      have hnew : ¬(found.any fun f => f.key == c.key) = true := by
        intro hany
        obtain ⟨f, hf, hkey⟩ := List.any_eq_true.mp hany
        rw [List.map_append] at hfound
        exact (List.nodup_append.mp hfound).2.2 f.key (List.mem_map_of_mem hf) c.key
          List.mem_cons_self (eq_of_beq hkey)
      rw [List.foldl_cons, if_neg hnew, ih (found ++ [c]) (by rwa [List.append_assoc]),
        List.append_assoc]
      rfl
  exact hfold [] h

/-- Entries keep their order if each key occurs once and they are in the order of the text. -/
theorem sorted_eq_located {candidates : List Candidate}
    (hkeys : (candidates.map Candidate.key).Nodup) {lo hi : Nat}
    (hrow : Span.Row lo ((located candidates).map Entry.keySpan) hi) :
    sorted candidates = located candidates := by
  unfold sorted
  rw [unique_eq_self hkeys]
  refine List.mergeSort_of_pairwise ?_
  have hstarts : (located candidates).Pairwise fun a b => a.keySpan.start ≤ b.keySpan.start := by
    refine (List.pairwise_map.mp hrow.pairwise).imp_of_mem fun {a b} ha _ hab => ?_
    obtain ⟨-, hforward, -⟩ := hrow.inside (List.mem_map_of_mem ha)
    exact Nat.le_trans hforward hab
  exact hstarts.imp fun hab => decide_eq_true hab

/-- The keys of a mapping are in a row from where it begins. -/
theorem row_from_start? {place : Option Nat} {entries : List (Entry Placed)} {lo start stop : Nat}
    (h : (mapping place entries).start? = some start)
    (hrow : Span.Row lo (entries.map Entry.keySpan) stop) (hstop : start ≤ stop) :
    Span.Row start (entries.map Entry.keySpan) stop := by
  cases entries with
  | nil => exact hstop
  | cons first rest =>
    obtain rfl := Option.some.inj h
    exact ⟨Nat.le_refl _, hrow.2⟩

theorem map_key_ofEntries (lines : Lines) (entries : List ((Option Mark × String) × Node)) :
    (ofEntries lines entries).map Candidate.key = entries.map fun entry => entry.1.2 := by
  induction entries with
  | nil => rfl
  | cons entry rest ih => exact congrArg (entry.1.2 :: ·) ih

end Placed

namespace Outline

open Placed (located ofEntries ofItems)

variable {lines : Lines} {role : Role} {roles : String → Role} {lo hi : Nat}

/-- The key of the first entry is found between the lower offset and its value. -/
theorem EntriesLaid.cons_inv {mark : Option Mark} {key : String} {value : Node}
    {rest : List ((Option Mark × String) × Node)}
    (h : EntriesLaid SpelledApart lines roles lo hi (((mark, key), value) :: rest)) :
    ∃ keySpan start stop, lo ≤ keySpan.start ∧ keySpan.start ≤ keySpan.stop ∧
      keySpan.stop ≤ start ∧ Laid SpelledApart lines (roles key) start stop value ∧
      EntriesLaid SpelledApart lines roles stop hi rest ∧
      located (ofEntries lines (((mark, key), value) :: rest)) =
        ⟨keySpan, key, Placed.ofNode lines value⟩ :: located (ofEntries lines rest) := by
  obtain ⟨start, stop, hkey, hvalue, hrest⟩ := h
  obtain ⟨o, hspan, hlo, hstart⟩ := hkey.exists_scalarSpan?
  refine ⟨⟨o, o + byteLength key.toList⟩, start, stop, hlo, Nat.le_add_right _ _, hstart, hvalue,
    hrest, ?_⟩
  rw [ofEntries, hspan]
  rfl

/-- **The keys of a mapping follow one another** where it is laid out. -/
theorem EntriesLaid.row_keys {entries : List ((Option Mark × String) × Node)}
    (h : EntriesLaid SpelledApart lines roles lo hi entries) :
    Span.Row lo ((located (ofEntries lines entries)).map Entry.keySpan) hi := by
  induction entries generalizing lo with
  | nil => exact h
  | cons entry rest ih =>
    obtain ⟨keySpan, start, stop, hlo, hforward, hstart, hvalue, hrest, hlocated⟩ := h.cons_inv
    rw [hlocated]
    exact ⟨hlo, hforward, (ih hrest).mono (Nat.le_trans hstart hvalue.le) (Nat.le_refl _)⟩

/-- An entry ends where the ones after it are laid out, or later. -/
theorem EntriesLaid.le_range_stop {entries : List ((Option Mark × String) × Node)}
    (h : EntriesLaid SpelledApart lines roles lo hi entries) (keySpan : Span) {stop : Nat}
    (hstop : hi ≤ stop) :
    lo ≤ (Entry.range keySpan ((located (ofEntries lines entries)).head?.map Entry.keySpan)
      stop).stop :=
  Nat.le_trans (Entry.row_following (h.row_keys.mono (Nat.le_refl lo) hstop)).1
    (Nat.le_max_left _ _)

/-- The entries of a mapping that is laid out are those whose keys were found, in their order. -/
theorem sorted_ofEntries {entries : List ((Option Mark × String) × Node)}
    (hkeys : (entries.map fun entry => entry.1.2).Nodup)
    (h : EntriesLaid SpelledApart lines roles lo hi entries) :
    Placed.sorted (ofEntries lines entries) = located (ofEntries lines entries) := by
  refine Placed.sorted_eq_located ?_ h.row_keys
  rwa [Placed.map_key_ofEntries]

/-- A step begins between the offsets where it is laid out. -/
theorem Laid.start? {node : Node} (h : Laid SpelledApart lines .step lo hi node) {o : Nat}
    (ho : (Placed.ofNode lines node).start? = some o) : lo ≤ o ∧ o ≤ hi := by
  cases node with
  | scalar mark text =>
    obtain ⟨o', hspan, hlo, hhi⟩ := (h.2 rfl).exists_scalarSpan?
    obtain rfl : o' = o := by
      rw [Placed.ofNode, Placed.start?, hspan] at ho
      exact Option.some.inj ho
    exact ⟨hlo, Nat.le_trans (Nat.le_add_right _ _) hhi⟩
  | sequence mark items => exact h.2.1 rfl o ho
  | mapping mark entries =>
    obtain ⟨-, hempty, hentries⟩ := h
    obtain ⟨hkeys, hlaid⟩ := hentries nofun
    rw [Placed.ofNode, sorted_ofEntries hkeys hlaid] at ho
    cases entries with
    | nil => exact hempty rfl rfl o ho
    | cons entry rest =>
      obtain ⟨keySpan, start, stop, hlo, hforward, hstart, hvalue, hrest, hlocated⟩ :=
        hlaid.cons_inv
      rw [hlocated] at ho
      obtain rfl := Option.some.inj ho
      have hend := (hlaid.row_keys.inside (by rw [hlocated]; exact List.mem_cons_self)).2.2
      exact ⟨hlo, Nat.le_trans hforward hend⟩

/-- The first step of a list begins between the offsets where the list is laid out. -/
theorem ItemsLaid.le_first {items : List Node} (h : ItemsLaid SpelledApart lines lo hi items)
    {stop : Nat} (hstop : hi ≤ stop) :
    lo ≤ ((ofItems lines items).findSome? Placed.start?).getD stop := by
  induction items generalizing lo with
  | nil => exact Nat.le_trans h hstop
  | cons item rest ih =>
    obtain ⟨mid, hitem, hrest⟩ := h
    rw [ofItems, List.findSome?_cons]
    split
    · rename_i o ho
      exact (hitem.start? ho).1
    · exact Nat.le_trans hitem.le (ih hrest)

end Outline

/-! ## 4. Steps -/

/-- The branches of a step follow one another inside it, and the steps of each branch inside the
    branch. The `out` entry is inside the step, and apart from the branches. -/
structure Step.Nested (t : Step) : Prop where
  branches : Span.Row t.span.start (t.branches.map BranchOf.span) t.span.stop
  steps : ∀ b ∈ t.branches, Span.Row b.span.start (b.steps.map Step.span) b.span.stop
  out : ∀ o, t.outSpan = some o →
    o.Inside t.span ∧ ∀ b ∈ t.branches, o.Disjoint b.span

namespace Outline

open Placed (located ofEntries ofItems)
open Step (Everywhere everywhere_nil)

variable {lines : Lines} {roles : String → Role} {docs : Docs} {kind : StepKind} {stop : Nat}

/-- Branches are entries with keys of branches, in their order. -/
theorem branchesOf_sublist (entries : List (Entry Placed)) :
    ((branchesOf docs kind stop entries).map fun b => (b.label, b.span)).Sublist
      (Entry.ranges stop entries) := by
  induction entries with
  | nil => exact .slnil
  | cons entry rest ih =>
    obtain ⟨keySpan, key, value⟩ := entry
    cases value with
    | scalar span text => exact ih.cons _
    | mapping start entries => exact ih.cons _
    | sequence start items =>
      rw [branchesOf]
      split
      · exact ih.cons_cons _
      · exact ih.cons _

theorem isBranchKey_label (entries : List (Entry Placed)) :
    ∀ b ∈ branchesOf docs kind stop entries, isBranchKey kind b.label = true := by
  induction entries with
  | nil => exact List.forall_mem_nil _
  | cons entry rest ih =>
    obtain ⟨keySpan, key, value⟩ := entry
    cases value with
    | scalar span text => exact ih
    | mapping start entries => exact ih
    | sequence start items =>
      rw [branchesOf]
      split
      · rename_i hkey
        exact List.forall_mem_cons.mpr ⟨hkey, ih⟩
      · exact ih

/-- The branches and the `out` entry of a step whose keys are in a row. -/
theorem nested_stepOf_mapping {start : Option Nat} {entries : List (Entry Placed)} {span : Span}
    (hrow : Span.Row span.start (entries.map Entry.keySpan) span.stop)
    (hsteps : ∀ b ∈ (stepOf docs span (.mapping start entries)).branches,
      Span.Row b.span.start (b.steps.map Step.span) b.span.stop) :
    (stepOf docs span (.mapping start entries)).Nested := by
  have hranges := Entry.row_ranges hrow
  have hsublist : ((branchesOf docs (stepKind entries) span.stop entries).map fun b =>
      (b.label, b.span)).Sublist (Entry.ranges span.stop entries) := branchesOf_sublist entries
  refine ⟨?_, hsteps, fun o ho => ?_⟩
  · have hspans := hranges.sublist (hsublist.map Prod.snd)
    rwa [List.map_map] at hspans
  · obtain ⟨⟨entry, range⟩, hfound, rfl⟩ := Option.map_eq_some_iff.mp ho
    have hout := Entry.find?_mem_ranges hfound
    refine ⟨hranges.inside (List.mem_map_of_mem hout), fun b hb => ?_⟩
    have hlabel := isBranchKey_label entries b hb
    refine Entry.disjoint_of_mem_ranges hrow hout
      (hsublist.subset (List.mem_map_of_mem hb)) fun (hkey : "out" = b.label) => ?_
    -- `out` is never the key of a branch
    rw [← hkey] at hlabel
    exact absurd hlabel (by simp [isBranchKey, reservedKeys])

/-- Every step has the range that it is given. -/
theorem span_stepOf (docs : Docs) (span : Span) (item : Placed) :
    (stepOf docs span item).span = span := by
  cases item <;> rfl

/-- A step runs to the next one that is found, if they are in order. -/
theorem stepsOf_cons {item : Placed} {rest : List Placed} {start : Nat}
    (hstart : item.start? = some start)
    (hnext : start ≤ (rest.findSome? Placed.start?).getD stop) :
    stepsOf docs stop (item :: rest) =
      stepOf docs ⟨start, (rest.findSome? Placed.start?).getD stop⟩ item ::
        stepsOf docs stop rest := by
  rw [stepsOf, hstart]
  show stepOf docs ⟨start, max _ start⟩ item :: _ = _
  rw [Nat.max_eq_left hnext]

theorem stepsOf_cons_of_none {item : Placed} {rest : List Placed} (h : item.start? = none) :
    stepsOf docs stop (item :: rest) = stepsOf docs stop rest := by
  rw [stepsOf, h]

/-- A step that is no mapping has nothing inside. -/
theorem nested_of_isEmpty {t : Step} (hspan : t.span.start ≤ t.span.stop)
    (hbranches : t.branches = []) (hout : t.outSpan = none) : t.Nested := by
  refine ⟨?_, ?_, ?_⟩
  · rw [hbranches]
    exact hspan
  · rw [hbranches]
    exact List.forall_mem_nil _
  · rw [hout]
    nofun

mutual

/-- Steps follow one another from any place in front of the first of them. -/
theorem nested_stepsOf (docs : Docs) : ∀ (items : List Node) {lo hi start stop : Nat},
    ItemsLaid SpelledApart lines lo hi items → hi ≤ stop →
      start ≤ ((ofItems lines items).findSome? Placed.start?).getD stop →
        Span.Row start ((stepsOf docs stop (ofItems lines items)).map Step.span) stop ∧
          Everywhere Step.Nested (stepsOf docs stop (ofItems lines items))
  | [], _, _, _, _, _, _, hstart => ⟨hstart, everywhere_nil⟩
  | item :: rest, lo, hi, start, stop, h, hstop, hstart => by
    obtain ⟨mid, hitem, hrest⟩ := h
    rw [ofItems, List.findSome?_cons] at hstart
    rw [ofItems]
    cases hfirst : (Placed.ofNode lines item).start? with
    | none =>
      rw [hfirst] at hstart
      rw [stepsOf_cons_of_none hfirst]
      exact nested_stepsOf docs rest hrest hstop hstart
    | some first =>
      rw [hfirst] at hstart
      have hnext := hrest.le_first hstop
      have hforward := Nat.le_trans (hitem.start? hfirst).2 hnext
      obtain ⟨hrow, heach⟩ := nested_stepsOf docs rest hrest hstop (Nat.le_refl _)
      obtain ⟨hnested, hbranches⟩ := nested_stepOf docs item hitem hnext hfirst
      rw [stepsOf_cons hfirst hforward, List.map_cons, span_stepOf]
      exact ⟨⟨hstart, hforward, hrow⟩, .cons hnested hbranches heach⟩

theorem nested_stepOf (docs : Docs) : ∀ (item : Node) {lo hi start stop : Nat},
    Laid SpelledApart lines .step lo hi item → hi ≤ stop →
      (Placed.ofNode lines item).start? = some start →
      (stepOf docs ⟨start, stop⟩ (Placed.ofNode lines item)).Nested ∧
        ∀ b ∈ (stepOf docs ⟨start, stop⟩ (Placed.ofNode lines item)).branches,
          Everywhere Step.Nested b.steps
  | .scalar _ _, _, _, _, _, h, hstop, hstart =>
    ⟨nested_of_isEmpty (Nat.le_trans (h.start? hstart).2 hstop) rfl rfl, List.forall_mem_nil _⟩
  | .sequence _ _, _, _, _, _, h, hstop, hstart =>
    ⟨nested_of_isEmpty (Nat.le_trans (h.start? hstart).2 hstop) rfl rfl, List.forall_mem_nil _⟩
  | .mapping mark entries, lo, hi, start, stop, h, hstop, hstart => by
    have hend := Nat.le_trans (h.start? hstart).2 hstop
    obtain ⟨hkeys, hlaid⟩ := h.2.2 nofun
    rw [Placed.ofNode, sorted_ofEntries hkeys hlaid] at hstart ⊢
    have hbranches := nested_branchesOf docs (stepKind (located (ofEntries lines entries)))
      entries hlaid hstop fun key hkey => by
        rw [sorted_ofEntries hkeys hlaid, Role.below, if_pos hkey]
    have hrow := hlaid.row_keys.mono (Nat.le_refl lo) hstop
    exact ⟨nested_stepOf_mapping (Placed.row_from_start? hstart hrow hend)
      fun b hb => (hbranches b hb).1, fun b hb => (hbranches b hb).2⟩

theorem nested_branchesOf (docs : Docs) (kind : StepKind) :
    ∀ (entries : List ((Option Mark × String) × Node)) {roles : String → Role} {lo hi stop : Nat},
      EntriesLaid SpelledApart lines roles lo hi entries → hi ≤ stop →
      (∀ key, isBranchKey kind key = true → roles key = .steps) →
        ∀ b ∈ branchesOf docs kind stop (located (ofEntries lines entries)),
          Span.Row b.span.start (b.steps.map Step.span) b.span.stop ∧
            Everywhere Step.Nested b.steps
  | [], _, _, _, _, _, _, _ => List.forall_mem_nil _
  | ((mark, key), value) :: rest, roles, lo, hi, stop, h, hstop, hroles => by
    obtain ⟨keySpan, mid, last, hlo, hforward, hmid, hvalue, hrest, hlocated⟩ := h.cons_inv
    have hlater := nested_branchesOf docs kind rest hrest hstop hroles
    rw [hlocated]
    cases value with
    | scalar valueMark text => exact hlater
    | mapping valueMark entries => exact hlater
    | sequence valueMark items =>
      rw [Placed.ofNode, branchesOf]
      split
      · rename_i hkey
        rw [hroles key hkey] at hvalue
        have hitems := hvalue.2.2 rfl
        have hend := hrest.le_range_stop keySpan hstop
        have hstart := Nat.le_trans (Nat.le_trans hforward hmid) (hitems.le_first hend)
        exact List.forall_mem_cons.mpr ⟨nested_stepsOf docs items hitems hend hstart, hlater⟩
      · exact hlater

end

end Outline

/-! ## 5. Flows -/

/-- The steps of a flow follow one another inside it, and are well nested at every depth. -/
structure Flow.Nested (f : Flow) : Prop where
  row : Span.Row f.span.start (f.steps.map Step.span) f.span.stop
  steps : Step.Everywhere Step.Nested f.steps

/-- What scopes need of the steps of a flow. -/
theorem Flow.Nested.wellNested {f : Flow} (h : f.Nested) : Step.WellNested f.steps :=
  ⟨⟨_, _, h.row⟩, fun chain t ht => (h.steps chain t ht).branches,
    fun chain t ht => (h.steps chain t ht).steps⟩

namespace Outline

open Placed (located ofEntries ofItems)

variable {lines : Lines} {roles : String → Role} {lo hi stop : Nat}

theorem map_span_flowsOf (docs : Docs) (stop : Nat) (entries : List (Entry Placed)) :
    (flowsOf docs stop entries).map Flow.span = (Entry.ranges stop entries).map Prod.snd := by
  induction entries with
  | nil => rfl
  | cons entry rest ih => exact congrArg (entry.span rest stop :: ·) ih

theorem nested_flowsOf (docs : Docs) {entries : List ((Option Mark × String) × Node)}
    (h : EntriesLaid SpelledApart lines roles lo hi entries) (hstop : hi ≤ stop)
    (hroles : ∀ key, roles key = .steps) :
    ∀ flow ∈ flowsOf docs stop (located (ofEntries lines entries)), flow.Nested := by
  induction entries generalizing lo with
  | nil => exact List.forall_mem_nil _
  | cons entry rest ih =>
    obtain ⟨keySpan, mid, last, hlo, hforward, hmid, hvalue, hrest, hlocated⟩ := h.cons_inv
    rw [hlocated]
    refine List.forall_mem_cons.mpr ⟨?_, ih hrest⟩
    have hend := hrest.le_range_stop keySpan hstop
    have hstart : keySpan.start ≤ mid := Nat.le_trans hforward hmid
    obtain ⟨⟨mark, key⟩, value⟩ := entry
    cases value with
    | scalar valueMark text =>
      exact ⟨Nat.le_trans (Nat.le_trans hstart hvalue.le) hend, Step.everywhere_nil⟩
    | mapping valueMark entries =>
      exact ⟨Nat.le_trans (Nat.le_trans hstart hvalue.le) hend, Step.everywhere_nil⟩
    | sequence valueMark items =>
      have hitems := hvalue.2.2 (hroles key)
      obtain ⟨hrow, heach⟩ := nested_stepsOf docs items hitems hend
        (Nat.le_trans hstart (hitems.le_first hend))
      exact ⟨hrow, heach⟩

/-- The value of a key is laid out before the range of its entry ends. -/
theorem EntriesLaid.find? {entries : List ((Option Mark × String) × Node)}
    (h : EntriesLaid SpelledApart lines roles lo hi entries) (hstop : hi ≤ stop) {key : String}
    {entry : Entry Placed} {span : Span}
    (hfound : Entry.find? key stop (located (ofEntries lines entries)) = some (entry, span)) :
    ∃ value start last, entry.value = Placed.ofNode lines value ∧
      Laid SpelledApart lines (roles key) start last value ∧ lo ≤ start ∧ last ≤ span.stop := by
  induction entries generalizing lo with
  | nil => cases hfound
  | cons first rest ih =>
    obtain ⟨keySpan, mid, last, hlo, hforward, hmid, hvalue, hrest, hlocated⟩ := h.cons_inv
    rw [hlocated] at hfound
    unfold Entry.find? at hfound
    split at hfound
    · rename_i hkey
      obtain rfl : first.1.2 = key := hkey
      obtain ⟨rfl, rfl⟩ := Prod.mk.inj (Option.some.inj hfound)
      exact ⟨first.2, mid, last, rfl, hvalue, Nat.le_trans hlo (Nat.le_trans hforward hmid),
        hrest.le_range_stop keySpan hstop⟩
    · obtain ⟨value, start, last', hentry, hlaid, hbegins, hends⟩ := ih hrest hfound
      have hle := hvalue.le
      exact ⟨value, start, last', hentry, hlaid, by omega, hends⟩

/-- The flows of a section that is laid out. -/
theorem nested_flows {mark : Option Mark} {entries : List ((Option Mark × String) × Node)}
    (h : Laid SpelledApart lines .flows lo hi (.mapping mark entries)) (hstop : hi ≤ stop)
    (docs : Docs) :
    Span.Row lo ((flowsOf docs stop (Placed.sorted (ofEntries lines entries))).map Flow.span)
        stop ∧
      ∀ flow ∈ flowsOf docs stop (Placed.sorted (ofEntries lines entries)), flow.Nested := by
  obtain ⟨hkeys, hlaid⟩ := h.2.2 nofun
  rw [sorted_ofEntries hkeys hlaid]
  refine ⟨?_, nested_flowsOf docs hlaid hstop fun _ => rfl⟩
  rw [map_span_flowsOf]
  exact Entry.row_ranges (hlaid.row_keys.mono (Nat.le_refl lo) hstop)

/-- The section of flows is laid out where its range ends, or before. -/
theorem EntriesLaid.section? {kind : StepKind} {entries : List ((Option Mark × String) × Node)}
    (h : EntriesLaid SpelledApart lines (Role.below .sections kind) lo stop entries)
    {inner : List (Entry Placed)} {last : Nat}
    (hsection : sectionOf? "flows" stop (located (ofEntries lines entries)) = some (inner, last)) :
    ∃ mark flows start limit, inner = Placed.sorted (ofEntries lines flows) ∧
      Laid SpelledApart lines .flows start limit (.mapping mark flows) ∧ lo ≤ start ∧ limit ≤ last ∧
      last ≤ stop := by
  unfold sectionOf? at hsection
  split at hsection
  · rename_i hfound
    obtain ⟨rfl, rfl⟩ := Prod.mk.inj (Option.some.inj hsection)
    obtain ⟨value, start, limit, hvalue, hlaid, hstart, hlimit⟩ := h.find? (Nat.le_refl _) hfound
    have hmem := List.mem_map_of_mem (f := Prod.snd) (Entry.find?_mem_ranges hfound)
    have hend := ((Entry.row_ranges h.row_keys).inside hmem).2.2
    cases value with
    | scalar mark text => cases hvalue
    | sequence mark items => cases hvalue
    | mapping mark flows =>
      cases hvalue
      exact ⟨mark, flows, start, limit, rfl, hlaid, hstart, hlimit, hend⟩
  · cases hsection

end Outline

end FlowExpr
