import FlowExpr.Proofs.FlowDoc.Blocks
import FlowExpr.Proofs.Outline.Bounds
import FlowExpr.Proofs.Scope.Sources

/-!
# All ranges lie in the text

The ranges of steps, branches, `out` entries and flows begin where a key, a scalar or a collection
is found, and end where another one begins or where the structure around them does. Ends are
corrected so that no range runs backwards. So all of them lie in the text, together with the
declarations, whatever structure was read and wherever its marks point:

* `Step.Everywhere`: a property of the steps of a row and of all steps in their branches;
* `Placed.Begins`: the places where collections begin;
* `Step.RangesIn`, `Flow.RangesIn`: the ranges of a step, and of a flow and its documentation;
* `Outline.ranges_ofNode`: every range of an outline lies in the text.
-/

namespace FlowExpr

open Text (byteLength)

/-! ## 1. Steps at every depth -/

namespace Step

/-- The property holds of the steps of a row and of all steps in their branches, at every depth. -/
def Everywhere (P : Step → Prop) (steps : List Step) : Prop :=
  ∀ chain t, Stands steps chain t → P t

variable {P : Step → Prop} {s : Step} {rest : List Step}

theorem everywhere_nil : Everywhere P [] := by
  intro chain t ht
  cases ht with
  | here h => cases h
  | within hu hb h => cases hu

theorem Everywhere.cons (hs : P s) (hbranches : ∀ b ∈ s.branches, Everywhere P b.steps)
    (hrest : Everywhere P rest) : Everywhere P (s :: rest) := by
  intro chain t ht
  cases ht with
  | here h =>
    rcases List.mem_cons.mp h with rfl | h
    · exact hs
    · exact hrest [] t (.here h)
  | within hu hb h =>
    rcases List.mem_cons.mp hu with rfl | hu
    · exact hbranches _ hb _ t h
    · exact hrest _ t (.within hu hb h)

end Step

/-! ## 2. Where collections begin -/

/-- The places where collections begin lie in a text of `n` bytes, at every depth. -/
inductive Placed.Begins (n : Nat) : Placed → Prop where
  | scalar (span : Option Span) (text : String) : Begins n (.scalar span text)
  | sequence {start : Option Nat} {items : List Placed} (place : ∀ o, start = some o → o ≤ n)
      (each : ∀ item ∈ items, item.Begins n) : Begins n (.sequence start items)
  | mapping {start : Option Nat} {entries : List (Entry Placed)}
      (place : ∀ o, start = some o → o ≤ n) (values : ∀ entry ∈ entries, entry.value.Begins n) :
      Begins n (.mapping start entries)

namespace Placed

variable {n : Nat}

/-- Every node begins in the text, if its scalars and its collections do. -/
theorem start?_le {p : Placed} (htext : p.InText n) (hbegins : p.Begins n) {o : Nat}
    (h : p.start? = some o) : o ≤ n := by
  cases hbegins with
  | scalar span text =>
    cases htext with
    | scalar place =>
      obtain ⟨s, hs, rfl⟩ := Option.map_eq_some_iff.mp h
      obtain ⟨-, hforward, hend⟩ := place s hs
      exact Nat.le_trans hforward hend
  | sequence place each => exact place o h
  | @mapping start entries place values =>
    cases entries with
    | nil => exact place o h
    | cons first rest =>
      obtain rfl := Option.some.inj h
      obtain ⟨-, hforward, hend⟩ := (inText_mapping.mp htext first List.mem_cons_self).key
      exact Nat.le_trans hforward hend

theorem begins_sorted {candidates : List Candidate} (h : ∀ c ∈ candidates, c.value.Begins n) :
    ∀ entry ∈ sorted candidates, entry.value.Begins n := by
  intro entry hentry
  obtain ⟨c, hc, hplaced⟩ := List.mem_filterMap.mp (List.mem_mergeSort.mp hentry)
  obtain ⟨span, -, rfl⟩ := Option.map_eq_some_iff.mp hplaced
  exact forall_mem_unique h (fun _ _ _ hc => hc) c hc

mutual

/-- Collections of a placed structure begin in the text, wherever their marks point. -/
theorem begins_ofNode (text : List Char) :
    ∀ node, (ofNode (Lines.ofText text) node).Begins (byteLength text)
  | .scalar _ _ => .scalar _ _
  | .sequence _ items => .sequence (fun _ => locateText?_le) (begins_ofItems text items)
  | .mapping _ entries =>
    .mapping (fun _ => locateText?_le) (begins_sorted (begins_ofEntries text entries))

theorem begins_ofItems (text : List Char) :
    ∀ items, ∀ item ∈ ofItems (Lines.ofText text) items, item.Begins (byteLength text)
  | [] => List.forall_mem_nil _
  | item :: rest => List.forall_mem_cons.mpr ⟨begins_ofNode text item, begins_ofItems text rest⟩

theorem begins_ofEntries (text : List Char) :
    ∀ entries, ∀ c ∈ ofEntries (Lines.ofText text) entries, c.value.Begins (byteLength text)
  | [] => List.forall_mem_nil _
  | (_, value) :: rest =>
    List.forall_mem_cons.mpr ⟨begins_ofNode text value, begins_ofEntries text rest⟩

end

/-- The ranges of keys and scalars lie in a text of `n` bytes, and collections begin in it. -/
structure PlacesIn (n : Nat) (p : Placed) : Prop where
  inText : p.InText n
  begins : p.Begins n

theorem PlacesIn.start?_le {p : Placed} (h : p.PlacesIn n) {o : Nat} (ho : p.start? = some o) :
    o ≤ n := Placed.start?_le h.inText h.begins ho

theorem PlacesIn.item {start : Option Nat} {items : List Placed}
    (h : (sequence start items).PlacesIn n) : ∀ item ∈ items, item.PlacesIn n := by
  obtain ⟨htext, hbegins⟩ := h
  cases htext with
  | sequence texts =>
    cases hbegins with
    | sequence place each => exact fun item hitem => ⟨texts item hitem, each item hitem⟩

end Placed

/-! ## 3. Ranges of entries -/

namespace Entry

variable {n stop : Nat} {key : String} {entry : Entry Placed} {entries : List (Entry Placed)}

/-- The range of the key and the places of the value lie in a text of `n` bytes. -/
structure PlacesIn (n : Nat) (entry : Entry Placed) : Prop where
  key : entry.keySpan.Inside ⟨0, n⟩
  value : entry.value.PlacesIn n

theorem placesIn_of_mapping {start : Option Nat} (h : (Placed.mapping start entries).PlacesIn n) :
    ∀ entry ∈ entries, entry.PlacesIn n := by
  obtain ⟨htext, hbegins⟩ := h
  cases hbegins with
  | mapping place values =>
    intro entry hentry
    have hinside := Placed.inText_mapping.mp htext entry hentry
    exact ⟨hinside.key, hinside.value, values entry hentry⟩

/-- An entry runs on to a place in the text, and never ends before its key does. -/
theorem span_inside (hentry : entry.PlacesIn n) (hrest : ∀ e ∈ entries, e.PlacesIn n)
    (hstop : stop ≤ n) : (entry.span entries stop).Inside ⟨0, n⟩ := by
  obtain ⟨h₁, h₂, h₃⟩ := hentry.key
  have hnext : ((entries.head?.map Entry.keySpan).map Span.start).getD stop ≤ n := by
    cases entries with
    | nil => exact hstop
    | cons next rest =>
      obtain ⟨-, hforward, hend⟩ := (hrest next List.mem_cons_self).key
      exact Nat.le_trans hforward hend
  exact ⟨h₁, Nat.le_trans h₂ (Nat.le_max_right _ _), Nat.max_le.mpr ⟨hnext, h₃⟩⟩

theorem find?_placesIn (h : ∀ e ∈ entries, e.PlacesIn n) (hstop : stop ≤ n) {span : Span}
    (hfound : Entry.find? key stop entries = some (entry, span)) :
    entry.PlacesIn n ∧ span.Inside ⟨0, n⟩ := by
  induction entries with
  | nil => cases hfound
  | cons first rest ih =>
    obtain ⟨hfirst, hrest⟩ := List.forall_mem_cons.mp h
    unfold Entry.find? at hfound
    split at hfound
    · obtain ⟨rfl, rfl⟩ := Prod.mk.inj (Option.some.inj hfound)
      exact ⟨hfirst, span_inside hfirst hrest hstop⟩
    · exact ih hrest hfound

end Entry

/-! ## 4. Ranges of steps -/

/-- The ranges of a step, of its `out` entry and of its branches lie in a text of `n` bytes. -/
structure Step.RangesIn (n : Nat) (t : Step) : Prop where
  span : t.span.Inside ⟨0, n⟩
  out : ∀ o, t.outSpan = some o → o.Inside ⟨0, n⟩
  branches : ∀ b ∈ t.branches, b.span.Inside ⟨0, n⟩

namespace Outline

open Step (Everywhere everywhere_nil)

variable {n : Nat}

mutual

/-- Steps run to the next step that is found, or to the end of their list. -/
theorem ranges_stepsOf (docs : Docs) {stop : Nat} (hstop : stop ≤ n) :
    ∀ items : List Placed, (∀ item ∈ items, item.PlacesIn n) →
      Everywhere (Step.RangesIn n) (stepsOf docs stop items)
  | [], _ => everywhere_nil
  | item :: rest, h => by
    obtain ⟨hitem, hrest⟩ := List.forall_mem_cons.mp h
    have hlater := ranges_stepsOf docs hstop rest hrest
    rw [stepsOf]
    split
    · exact hlater
    · rename_i start hstart
      have hnext : (rest.findSome? Placed.start?).getD stop ≤ n := by
        cases hfound : rest.findSome? Placed.start? with
        | none => exact hstop
        | some next =>
          obtain ⟨later, hmem, hnext⟩ := List.exists_of_findSome?_eq_some hfound
          exact (hrest later hmem).start?_le hnext
      have hspan : Span.Inside ⟨start, max ((rest.findSome? Placed.start?).getD stop) start⟩
          ⟨0, n⟩ :=
        ⟨Nat.zero_le _, Nat.le_max_right _ _, Nat.max_le.mpr ⟨hnext, hitem.start?_le hstart⟩⟩
      obtain ⟨hstep, hbranches⟩ := ranges_stepOf docs hspan item hitem
      exact .cons hstep hbranches hlater

theorem ranges_stepOf (docs : Docs) {span : Span} (hspan : span.Inside ⟨0, n⟩) :
    ∀ item : Placed, item.PlacesIn n → (stepOf docs span item).RangesIn n ∧
      ∀ b ∈ (stepOf docs span item).branches, Everywhere (Step.RangesIn n) b.steps
  | .scalar _ _, _ => ⟨⟨hspan, nofun, List.forall_mem_nil _⟩, List.forall_mem_nil _⟩
  | .sequence _ _, _ => ⟨⟨hspan, nofun, List.forall_mem_nil _⟩, List.forall_mem_nil _⟩
  | .mapping _ entries, h => by
    have hentries := Entry.placesIn_of_mapping h
    have hbranches := ranges_branchesOf docs (stepKind entries) hspan.2.2 entries hentries
    refine ⟨⟨hspan, fun o ho => ?_, fun b hb => (hbranches b hb).1⟩,
      fun b hb => (hbranches b hb).2⟩
    obtain ⟨⟨entry, range⟩, hfound, rfl⟩ := Option.map_eq_some_iff.mp ho
    exact (Entry.find?_placesIn hentries hspan.2.2 hfound).2

theorem ranges_branchesOf (docs : Docs) (kind : StepKind) {stop : Nat} (hstop : stop ≤ n) :
    ∀ entries : List (Entry Placed), (∀ entry ∈ entries, entry.PlacesIn n) →
      ∀ b ∈ branchesOf docs kind stop entries,
        b.span.Inside ⟨0, n⟩ ∧ Everywhere (Step.RangesIn n) b.steps
  | [], _ => List.forall_mem_nil _
  | ⟨keySpan, key, value⟩ :: rest, h => by
    obtain ⟨hentry, hrest⟩ := List.forall_mem_cons.mp h
    have hlater := ranges_branchesOf docs kind hstop rest hrest
    cases value with
    | scalar span text => exact hlater
    | mapping start entries => exact hlater
    | sequence start items =>
      rw [branchesOf]
      split
      · have hspan := Entry.span_inside hentry hrest hstop
        exact List.forall_mem_cons.mpr
          ⟨⟨hspan, ranges_stepsOf docs hspan.2.2 items hentry.value.item⟩, hlater⟩
      · exact hlater

end

end Outline

/-! ## 5. Ranges of flows -/

/-- The block and the names of the parameters lie in a text of `n` bytes. -/
structure FlowDoc.RangesIn (n : Nat) (doc : FlowDoc) : Prop where
  span : doc.span.Inside ⟨0, n⟩
  params : doc.InText n

/-- A block runs from its first delimiter to its last. -/
theorem FlowDoc.ranges_above? {text : List Char} {keyLine : Nat} {doc : FlowDoc}
    (h : above? (Lines.ofText text) keyLine = some doc) : doc.RangesIn (byteLength text) := by
  refine ⟨?_, inText_above? h⟩
  obtain ⟨-, earlier, opening, inner, closing, hlines, -, -, -, rfl⟩ := above?_eq_some_iff.mp h
  have hordered := (Lines.pairwise_startsFrom 0 (Lines.ofText text).lines).sublist
    (List.take_sublist (keyLine - 1) _)
  have hclosing : closing ∈ (Lines.ofText text).withStarts := by
    refine List.mem_of_mem_take (i := keyLine - 1) ?_
    rw [hlines]
    simp
  have hforward : opening.1 + byteLength opening.2 < closing.1 := by
    have htaken : ((Lines.ofText text).withStarts.take (keyLine - 1)).Pairwise
        fun a b => a.1 + byteLength a.2 < b.1 := hordered
    rw [hlines] at htaken
    exact (List.pairwise_cons.mp (List.pairwise_append.mp htaken).2.1).1 closing (by simp)
  have hend := Lines.withStarts_le hclosing
  exact ⟨Nat.zero_le _, by show opening.1 ≤ closing.1 + byteLength closing.2; omega, hend⟩

/-- The ranges of a flow, of its steps at every depth and of its documentation lie in a text of
    `n` bytes. -/
structure Flow.RangesIn (n : Nat) (f : Flow) : Prop where
  key : f.keySpan.Inside ⟨0, n⟩
  span : f.span.Inside ⟨0, n⟩
  doc : ∀ d, f.doc = some d → d.RangesIn n
  steps : Step.Everywhere (Step.RangesIn n) f.steps

namespace Outline

variable {n : Nat}

theorem ranges_flowsOf {docs : Docs} (hdocs : ∀ entry ∈ docs, FlowDoc.RangesIn n entry.2)
    {stop : Nat} (hstop : stop ≤ n) {entries : List (Entry Placed)}
    (h : ∀ entry ∈ entries, entry.PlacesIn n) :
    ∀ flow ∈ flowsOf docs stop entries, flow.RangesIn n := by
  induction entries with
  | nil => exact List.forall_mem_nil _
  | cons entry rest ih =>
    obtain ⟨hentry, hrest⟩ := List.forall_mem_cons.mp h
    have hspan := Entry.span_inside hentry hrest hstop
    refine List.forall_mem_cons.mpr ⟨⟨hentry.key, hspan, fun d hd => ?_, ?_⟩, ih hrest⟩
    · exact hdocs _ (mem_of_lookup hd)
    · have hvalue := hentry.value
      dsimp only
      split
      · rename_i items hitems
        rw [hitems] at hvalue
        exact ranges_stepsOf docs hspan.2.2 items hvalue.item
      · exact Step.everywhere_nil

theorem sectionOf?_placesIn {key : String} {stop inner : Nat}
    {entries found : List (Entry Placed)} (h : ∀ entry ∈ entries, entry.PlacesIn n)
    (hstop : stop ≤ n) (hfound : sectionOf? key stop entries = some (found, inner)) :
    (∀ entry ∈ found, entry.PlacesIn n) ∧ inner ≤ n := by
  unfold sectionOf? at hfound
  split at hfound
  · rename_i hentry
    obtain ⟨hplaces, hspan⟩ := Entry.find?_placesIn h hstop hentry
    obtain ⟨rfl, rfl⟩ := Prod.mk.inj (Option.some.inj hfound)
    exact ⟨Entry.placesIn_of_mapping hplaces.value, hspan.2.2⟩
  · cases hfound

theorem ranges_docsOf (text : List Char) (entries : List (Entry Placed)) :
    ∀ entry ∈ docsOf (Lines.ofText text) entries, FlowDoc.RangesIn (byteLength text) entry.2 := by
  intro entry hentry
  obtain ⟨key, -, hkey⟩ := List.mem_filterMap.mp hentry
  obtain ⟨doc, hdoc, rfl⟩ := Option.map_eq_some_iff.mp hkey
  exact FlowDoc.ranges_above? hdoc

/-- The ranges of all flows lie in the text. -/
theorem ranges_ofPlaced {text : List Char} {root : Placed} (h : root.PlacesIn (byteLength text))
    {stop : Nat} (hstop : stop ≤ byteLength text) :
    ∀ flow ∈ (ofPlaced (Lines.ofText text) stop root).flows, flow.RangesIn (byteLength text) := by
  cases root with
  | scalar span value => exact List.forall_mem_nil _
  | sequence start items => exact List.forall_mem_nil _
  | mapping start sections =>
    refine forall_mem_getD fun flows hflows => ?_
    obtain ⟨⟨entries, inner⟩, hsection, hflows⟩ := Option.bind_eq_some_iff.mp hflows
    obtain rfl := Option.some.inj hflows
    obtain ⟨hentries, hinner⟩ :=
      sectionOf?_placesIn (Entry.placesIn_of_mapping h) hstop hsection
    exact ranges_flowsOf (ranges_docsOf text entries) hinner hentries

/-- **Every range of an outline lies in its text**, with its ends in order, whatever structure was
    read from the text: its marks may be missing or point anywhere, and its keys and scalars may
    be spelled in another way than in the text. That holds of the keys and ranges of flows, of
    steps, branches and `out` entries at every depth, of documentation blocks and their
    parameters, and of the places where arguments, parameters and variables are declared, with
    the properties of their shapes. -/
theorem ranges_ofNode (text : List Char) (root : Yaml.Node) :
    let outline := ofNode (Lines.ofText text) (byteLength text) root
    (∀ s ∈ outline.arguments, s.InText (byteLength text)) ∧
    ∀ flow ∈ outline.flows, flow.RangesIn (byteLength text) ∧
      (∀ s ∈ flow.parameters, s.InText (byteLength text)) ∧
      Step.Everywhere (fun t => ∀ s ∈ t.declarations, s.InText (byteLength text)) flow.steps := by
  intro outline
  obtain ⟨harguments, hdeclared⟩ := inText_ofNode text (byteLength text) root
  have hranges := ranges_ofPlaced ⟨Placed.inText_ofNode text root, Placed.begins_ofNode text root⟩
    (Nat.le_refl (byteLength text))
  refine ⟨harguments, fun flow hflow =>
    ⟨hranges flow hflow, fun s hs => ?_, fun chain t ht s hs => ?_⟩⟩
  · exact hdeclared flow hflow s (List.mem_append_left _ hs)
  · exact hdeclared flow hflow s (List.mem_append_right _ (ht.declarations_subset hs))

end Outline

end FlowExpr
