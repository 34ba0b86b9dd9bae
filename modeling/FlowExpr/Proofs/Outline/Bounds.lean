import FlowExpr.Document
import FlowExpr.Proofs.Span
import FlowExpr.Proofs.Symbol.Paths
import FlowExpr.Proofs.Text.Lines

/-!
# Declarations lie in the text

The range of a declaration is found by looking for a name on a line, or by reading a comment,
and what is found is carried into symbols and the shapes of symbols. None of this leaves the
text, whatever the structure of the document says:

* `scalarSpan?_inside`: the range of a scalar, wherever its mark is;
* `FlowDoc.InText`: the ranges of documented parameters;
* `Placed.InText`: the ranges of a placed structure;
* `Declared.InText`, `Shape.InText`: the place of a symbol, and of its properties at every depth;
* `Outline.InText`: the places of everything that a document declares.
-/

namespace FlowExpr

open Text (byteLength)

/-! ## 1. Ranges of scalars -/

theorem occurrencesFrom_le {needle line : List Char} {taken offset o : Nat}
    (h : o ∈ occurrencesFrom needle taken offset line) : o ≤ offset + byteLength line := by
  fun_induction occurrencesFrom needle taken offset line with
  | case1 => cases h
  | case2 taken offset c cs ih =>
    have hrest := ih h
    rw [Text.byteLength_cons]
    omega
  | case3 offset c cs _ ih =>
    rw [Text.byteLength_cons]
    rcases List.mem_cons.mp h with rfl | h
    · omega
    · have hrest := ih h
      omega
  | case4 offset c cs _ ih =>
    have hrest := ih h
    rw [Text.byteLength_cons]
    omega

/-- The nearest offset is one of those to choose from. -/
theorem nearest_mem (target best : Nat) (offsets : List Nat) :
    nearest target best offsets ∈ best :: offsets := by
  induction offsets generalizing best with
  | nil => exact List.mem_singleton_self _
  | cons o rest ih =>
    rw [nearest]
    split
    · exact List.mem_cons_of_mem _ (ih o)
    · rcases List.mem_cons.mp (ih best) with h | h
      · exact List.mem_cons.mpr (.inl h)
      · exact List.mem_cons_of_mem _ (List.mem_cons_of_mem _ h)

section

variable {text : List Char} {mark : Option Yaml.Mark}

theorem locateText?_le {needle : List Char} {o : Nat}
    (h : locateText? (Lines.ofText text) mark needle = some o) : o ≤ byteLength text := by
  obtain ⟨m, -, h⟩ := Option.bind_eq_some_iff.mp h
  obtain ⟨start, hstart, h⟩ := Option.bind_eq_some_iff.mp h
  obtain ⟨line, hline, h⟩ := Option.bind_eq_some_iff.mp h
  obtain ⟨approximate, happroximate, h⟩ := Option.bind_eq_some_iff.mp h
  have hplace := Lines.offset?_le happroximate
  split at h
  · exact Option.some.inj h ▸ hplace
  · split at h
    · exact Option.some.inj h ▸ hplace
    · rename_i first rest hfound
      obtain rfl := Option.some.inj h
      have hmem := nearest_mem approximate first rest
      rw [← hfound] at hmem
      exact Nat.le_trans (occurrencesFrom_le hmem) (Lines.line_le hstart hline)

/-- **The range of a scalar lies in the text**, wherever the scalar is said to be. -/
theorem scalarSpan?_inside {scalar : String} {span : Span}
    (h : scalarSpan? (Lines.ofText text) mark scalar = some span) :
    span.Inside ⟨0, byteLength text⟩ := by
  obtain ⟨start, hstart, h⟩ := Option.bind_eq_some_iff.mp h
  obtain ⟨stop, hstop, h⟩ := Option.bind_eq_some_iff.mp h
  obtain rfl := Option.some.inj h
  have hstart := locateText?_le hstart
  have hstop := Lines.stop?_le hstop
  refine ⟨Nat.zero_le _, Nat.le_max_right _ _, ?_⟩
  show max (min (start + scalar.utf8ByteSize) stop) start ≤ byteLength text
  omega

end

/-! ## 2. Symbols and shapes -/

/-- The declaration, unless it is one of the runtime, lies in a text of `n` bytes. -/
def Declaration.InText (n : Nat) (d : Declaration) : Prop :=
  ∀ span, d.span? = some span → span.Inside ⟨0, n⟩

/-- The properties of a shape are declared in a text of `n` bytes or by the runtime, at every
    depth and in every alternative. -/
inductive Shape.InText (n : Nat) : Shape → Prop where
  | object {properties : List (String × Symbol)}
      (places : ∀ entry ∈ properties, entry.2.declaredAt.InText n)
      (inner : ∀ entry ∈ properties, ∀ shape, entry.2.shape = some shape → shape.InText n) :
      InText n (.object properties)
  | composite {alternatives : List Shape} (each : ∀ shape ∈ alternatives, shape.InText n) :
      InText n (.composite alternatives)

/-- The symbol is declared in a text of `n` bytes or by the runtime, and so are its
    properties. -/
structure Declared.InText (n : Nat) (s : Symbol) : Prop where
  place : s.declaredAt.InText n
  inner : ∀ shape, s.shape = some shape → shape.InText n

variable {n : Nat}

theorem Declaration.inText_builtin : Declaration.builtin.InText n := by
  rintro _ ⟨⟩

theorem Declaration.inText_document {span : Span} (h : span.Inside ⟨0, n⟩) :
    (Declaration.document span).InText n := by
  rintro _ ⟨⟩
  exact h

theorem Declared.inText_of_none {s : Symbol} (hplace : s.declaredAt.InText n)
    (hshape : s.shape = none) : s.InText n := by
  refine ⟨hplace, fun shape h => ?_⟩
  rw [hshape] at h
  cases h

namespace Shape

theorem inText_object {properties : List (String × Symbol)} :
    (object properties).InText n ↔ ∀ entry ∈ properties, entry.2.InText n := by
  constructor
  · rintro (⟨places, inner⟩ | _) entry hentry
    exact ⟨places entry hentry, inner entry hentry⟩
  · intro h
    exact .object (fun entry hentry => (h entry hentry).place) fun entry hentry =>
      (h entry hentry).inner

theorem inText_empty : (object []).InText n :=
  inText_object.mpr (List.forall_mem_nil _)

theorem inText_insert {properties : List (String × Symbol)} (h : (object properties).InText n)
    (name : String) {s : Symbol} (hs : s.InText n) :
    (object (Properties.insert name s properties)).InText n := by
  refine inText_object.mpr fun entry hentry => ?_
  rcases Properties.mem_insert hentry with rfl | hentry
  · exact hs
  · exact inText_object.mp h entry hentry

theorem inText_ofSymbols {symbols : List Symbol} (h : ∀ s ∈ symbols, s.InText n) :
    (ofSymbols symbols).InText n :=
  List.foldlRecOn (motive := fun properties => (object properties).InText n) symbols _
    inText_empty fun _ hproperties s hs => inText_insert hproperties s.name (h s hs)

/-- The shape of a symbol, or an empty one in its place. -/
theorem inText_shape {s : Symbol} (h : s.InText n) : (s.shape.getD (object [])).InText n := by
  cases hshape : s.shape with
  | none => exact inText_empty
  | some shape => exact h.inner shape hshape

theorem inText_insertPath {shape : Shape} (h : shape.InText n) {symbol : Symbol}
    (hs : symbol.InText n) (path : List String) : (shape.insertPath symbol path).InText n := by
  fun_induction insertPath symbol path shape with
  | case1 => exact h
  | case2 => exact h
  | case3 last entries => exact inText_insert h last hs
  | case4 head rest entries _ old inner ih =>
    -- the owner on the way is an old entry, or a fresh one at the place of the symbol
    have hold : old.InText n := by
      show ((Properties.get? entries head).getD _).InText n
      cases hget : Properties.get? entries head with
      | none => exact Declared.inText_of_none hs.place rfl
      | some found => exact inText_object.mp h _ (mem_of_lookup hget)
    refine inText_insert h head ⟨hold.place, ?_⟩
    rintro _ ⟨⟩
    exact ih (inText_shape hold)

end Shape

namespace Declared

theorem InText.replacing {symbol old : Symbol} (hs : symbol.InText n) (hold : old.InText n) :
    (symbol.replacing old).InText n := by
  refine ⟨hs.place, fun shape hshape => ?_⟩
  rcases Option.or_eq_some_iff.mp hshape with h | ⟨-, h⟩
  · exact hs.inner shape h
  · exact hold.inner shape h

theorem InText.owning {symbol owner : Symbol} (hs : symbol.InText n) (howner : owner.InText n)
    (path : List String) : (owning path symbol owner).InText n := by
  refine ⟨howner.place, ?_⟩
  rintro _ ⟨⟩
  exact Shape.inText_insertPath (Shape.inText_shape howner) hs path

/-- The first segment of a dotted name begins where the name does and is no longer. -/
theorem inText_rootDeclaration {d : Declaration} (h : d.InText n) (root : String) :
    (rootDeclaration root d).InText n := by
  cases d with
  | builtin => exact h
  | document span =>
    obtain ⟨h₁, h₂, h₃⟩ := h span rfl
    refine Declaration.inText_document ⟨h₁, Nat.le_add_right _ _, ?_⟩
    have hlength : span.start + span.length = span.stop := by
      unfold Span.length
      omega
    show span.start + min root.utf8ByteSize span.length ≤ n
    have hstop : span.stop ≤ n := h₃
    omega

/-- **Declaring a path keeps all declarations in the text.** -/
theorem inText_declarePath {symbols : List Symbol} (h : ∀ s ∈ symbols, s.InText n)
    (path : String) {symbol : Symbol} (hs : symbol.InText n) :
    ∀ s ∈ declarePath symbols path symbol, s.InText n := by
  -- the symbol under another name is declared where it was
  have hnamed : ∀ name : String, ({ symbol with name := name } : Symbol).InText n := fun _ =>
    ⟨hs.place, hs.inner⟩
  unfold declarePath
  split
  · exact h
  · exact forall_mem_upsert (fun _ => (hnamed path).replacing) (hnamed path) h
  · rename_i root rest _ _
    refine forall_mem_upsert (fun _ hold => (hnamed _).owning hold rest) ?_ h
    exact inText_of_none (inText_rootDeclaration hs.place root) rfl

end Declared

/-! ## 3. Flow documentation -/

namespace FlowParam

/-- The name of a parameter stands on the line that it is read from. -/
theorem nameSpan_inside {offset : Nat} {cs : List Char} {p : FlowParam}
    (h : read? offset cs = some p) : p.nameSpan.Inside ⟨offset, offset + byteLength cs⟩ := by
  unfold read? at h
  dsimp only at h
  split at h
  · cases h
  · split at h
    · obtain rfl := Option.some.inj h
      have htrim : byteLength (cs.takeWhile Text.isBlank) + byteLength (Text.trimLeft cs) =
          byteLength cs := by
        rw [← Text.byteLength_append, Text.trimLeft, List.takeWhile_append_dropWhile]
      have hname := Text.byteLength_le_of_prefix
        (List.take_prefix (nameLength false (Text.trimLeft cs)) (Text.trimLeft cs))
      exact ⟨Nat.le_add_right _ _, Nat.le_add_right _ _, by dsimp only; omega⟩
    · cases h

/-- The names of all parameters stand in a text of `n` bytes. -/
def InText (n : Nat) (params : List FlowParam) : Prop :=
  ∀ p ∈ params, p.nameSpan.Inside ⟨0, n⟩

theorem inText_symbol {p : FlowParam} (h : p.nameSpan.Inside ⟨0, n⟩) (origin : Origin) :
    (p.symbol origin).InText n :=
  Declared.inText_of_none (Declaration.inText_document h) rfl

theorem inText_symbols {params : List FlowParam} (h : InText n params) (origin : Origin) :
    ∀ s ∈ symbols origin params, s.InText n :=
  List.foldlRecOn (motive := fun found => ∀ s ∈ found, Declared.InText n s) params _
    (List.forall_mem_nil _) fun _ hfound p hp =>
      Declared.inText_declarePath hfound p.name (inText_symbol (h p hp) origin)

end FlowParam

namespace FlowDoc

/-- The parameters read so far stand in a text of `n` bytes. -/
structure Progress.InText (n : Nat) (p : Progress) : Prop where
  inputs : FlowParam.InText n p.inputs
  outputs : FlowParam.InText n p.outputs

/-- The parameters stand in a text of `n` bytes. -/
structure InText (n : Nat) (doc : FlowDoc) : Prop where
  inputs : FlowParam.InText n doc.inputs
  outputs : FlowParam.InText n doc.outputs

/-- A parameter read behind the comment sign of a line stands on that line. -/
theorem nameSpan_inside_line {line front : List Char} {start : Nat} {param : FlowParam}
    (hfront : front <+: line)
    (h : FlowParam.read? (start + byteLength front + 1) (line.drop (front.length + 1)) =
      some param) : param.nameSpan.Inside ⟨start, start + byteLength line⟩ := by
  obtain ⟨rest, rfl⟩ := hfront
  rw [List.drop_length_add_append] at h
  cases rest with
  | nil => cases h
  | cons c rest =>
    obtain ⟨h₁, h₂, h₃⟩ := FlowParam.nameSpan_inside h
    have hc := c.utf8Size_pos
    simp only [List.drop_succ_cons, List.drop_zero] at h₁ h₃
    refine ⟨by dsimp only; omega, h₂, ?_⟩
    rw [Text.byteLength_append, Text.byteLength_cons]
    dsimp only
    omega

theorem Progress.InText.line {p : Progress} (h : p.InText n) {start : Nat} {line : List Char}
    (hline : start + byteLength line ≤ n) : (p.line start line).InText n := by
  have hone : ∀ {param : FlowParam},
      FlowParam.read? (start + byteLength (line.takeWhile (· ≠ '#')) + 1)
        (line.drop ((line.takeWhile (· ≠ '#')).length + 1)) = some param →
      FlowParam.InText n [param] := by
    intro param hread q hq
    obtain ⟨-, h₂, h₃⟩ := nameSpan_inside_line (List.takeWhile_prefix _) hread
    rw [List.mem_singleton.mp hq]
    exact ⟨Nat.zero_le _, h₂, Nat.le_trans h₃ hline⟩
  unfold Progress.line
  dsimp only
  split
  · exact ⟨h.inputs, h.outputs⟩
  split
  · exact ⟨h.inputs, h.outputs⟩
  split
  · exact h
  split
  · exact ⟨h.inputs, h.outputs⟩
  · exact ⟨List.forall_mem_append.mpr ⟨h.inputs, hone (by assumption)⟩, h.outputs⟩
  · exact ⟨h.inputs, List.forall_mem_append.mpr ⟨h.outputs, hone (by assumption)⟩⟩
  · exact h

theorem inText_ofLines (opening closing : Nat × List Char) {inner : List (Nat × List Char)}
    (h : ∀ entry ∈ inner, entry.1 + byteLength entry.2 ≤ n) :
    (ofLines opening closing inner).InText n := by
  have hread : (inner.foldl (fun p entry => p.line entry.1 entry.2) ({} : Progress)).InText n :=
    List.foldlRecOn (motive := Progress.InText n) inner _
      ⟨List.forall_mem_nil _, List.forall_mem_nil _⟩
      fun _ hp entry hentry => hp.line (h entry hentry)
  exact ⟨hread.inputs, hread.outputs⟩

/-- A documentation block is read from lines of the text. -/
theorem exists_ofLines {lines : Lines} {keyLine : Nat} {doc : FlowDoc}
    (h : above? lines keyLine = some doc) : ∃ opening closing inner,
      doc = ofLines opening closing inner ∧ ∀ entry ∈ inner, entry ∈ lines.withStarts := by
  revert h
  fun_cases above? lines keyLine with
  | case2 _ closing rest hlines _ inner opening _ _ _ =>
    rintro ⟨⟩
    refine ⟨opening, closing, inner.reverse, rfl, fun entry hentry => ?_⟩
    have hrest : entry ∈ rest := (List.takeWhile_prefix _).subset (List.mem_reverse.mp hentry)
    have hline := List.mem_cons_of_mem closing hrest
    rw [← hlines] at hline
    exact List.mem_of_mem_take (List.mem_reverse.mp hline)
  | case1 | case3 | case4 | case5 | case6 => nofun

/-- **Documented parameters stand in the text.** -/
theorem inText_above? {text : List Char} {keyLine : Nat} {doc : FlowDoc}
    (h : above? (Lines.ofText text) keyLine = some doc) : doc.InText (byteLength text) := by
  obtain ⟨opening, closing, inner, rfl, hinner⟩ := exists_ofLines h
  exact inText_ofLines opening closing fun entry hentry => Lines.withStarts_le (hinner entry hentry)

end FlowDoc

/-! ## 4. Placed structures -/

/-- The ranges of keys and scalars lie in a text of `n` bytes, at every depth. -/
inductive Placed.InText (n : Nat) : Placed → Prop where
  | scalar {span : Option Span} {text : String} (place : ∀ s, span = some s → s.Inside ⟨0, n⟩) :
      InText n (.scalar span text)
  | sequence {start : Option Nat} {items : List Placed} (each : ∀ item ∈ items, item.InText n) :
      InText n (.sequence start items)
  | mapping {start : Option Nat} {entries : List (Entry Placed)}
      (keys : ∀ entry ∈ entries, entry.keySpan.Inside ⟨0, n⟩)
      (values : ∀ entry ∈ entries, entry.value.InText n) : InText n (.mapping start entries)

/-- The key and the value of an entry lie in a text of `n` bytes. -/
structure Entry.InText (n : Nat) (entry : Entry Placed) : Prop where
  key : entry.keySpan.Inside ⟨0, n⟩
  value : entry.value.InText n

namespace Placed

theorem inText_mapping {start : Option Nat} {entries : List (Entry Placed)} :
    (mapping start entries).InText n ↔ ∀ entry ∈ entries, entry.InText n := by
  constructor
  · rintro (_ | _ | ⟨keys, values⟩) entry hentry
    exact ⟨keys entry hentry, values entry hentry⟩
  · intro h
    exact .mapping (fun entry hentry => (h entry hentry).key) fun entry hentry =>
      (h entry hentry).value

/-- The key, if it was found, and the value lie in a text of `n` bytes. -/
structure Candidate.InText (n : Nat) (c : Candidate) : Prop where
  key : ∀ span, c.keySpan = some span → span.Inside ⟨0, n⟩
  value : c.value.InText n

/-- What holds of the candidates, and goes on to hold of one that gets the value of another, holds
    of the candidates with each key once. -/
theorem forall_mem_unique {P : Candidate → Prop} {candidates : List Candidate}
    (h : ∀ c ∈ candidates, P c) (hvalue : ∀ f c, P f → P c → P { f with value := c.value }) :
    ∀ c ∈ unique candidates, P c := by
  refine List.foldlRecOn (motive := fun found => ∀ c ∈ found, P c) candidates _
    (List.forall_mem_nil _) fun found hfound c hc => ?_
  split
  · -- an earlier entry of the key gets the new value
    intro d hd
    obtain ⟨f, hf, rfl⟩ := List.mem_map.mp hd
    split
    · exact hvalue f c (hfound f hf) (h c hc)
    · exact hfound f hf
  · exact List.forall_mem_append.mpr ⟨hfound, by simpa using h c hc⟩

theorem inText_unique {candidates : List Candidate} (h : ∀ c ∈ candidates, c.InText n) :
    ∀ c ∈ unique candidates, c.InText n :=
  forall_mem_unique h fun _ _ hf hc => ⟨hf.key, hc.value⟩

theorem inText_sorted {candidates : List Candidate} (h : ∀ c ∈ candidates, c.InText n) :
    ∀ entry ∈ sorted candidates, entry.InText n := by
  intro entry hentry
  obtain ⟨c, hc, hplaced⟩ := List.mem_filterMap.mp (List.mem_mergeSort.mp hentry)
  obtain ⟨span, hspan, rfl⟩ := Option.map_eq_some_iff.mp hplaced
  have hc := inText_unique h c hc
  exact ⟨hc.key span hspan, hc.value⟩

mutual

/-- **All ranges of a placed structure lie in the text**, whatever the structure. -/
theorem inText_ofNode (text : List Char) :
    ∀ node, (ofNode (Lines.ofText text) node).InText (byteLength text)
  | .scalar _ _ => .scalar fun _ h => scalarSpan?_inside h
  | .sequence _ items => .sequence (inText_ofItems text items)
  | .mapping _ entries => inText_mapping.mpr (inText_sorted (inText_ofEntries text entries))

theorem inText_ofItems (text : List Char) :
    ∀ items, ∀ item ∈ ofItems (Lines.ofText text) items, item.InText (byteLength text)
  | [] => List.forall_mem_nil _
  | item :: rest => List.forall_mem_cons.mpr ⟨inText_ofNode text item, inText_ofItems text rest⟩

theorem inText_ofEntries (text : List Char) :
    ∀ entries, ∀ c ∈ ofEntries (Lines.ofText text) entries, c.InText (byteLength text)
  | [] => List.forall_mem_nil _
  | (_, value) :: rest =>
    List.forall_mem_cons.mpr
      ⟨⟨fun _ h => scalarSpan?_inside h, inText_ofNode text value⟩, inText_ofEntries text rest⟩

end

end Placed

/-! ## 5. Outlines -/

namespace Outline

mutual

theorem inText_infer (origin : Origin) : ∀ value : Placed, value.InText n →
    ∀ shape, (infer origin value).2 = some shape → shape.InText n
  | .scalar _ _, _ => nofun
  | .sequence _ _, _ => nofun
  | .mapping _ entries, h => by
    rintro _ ⟨⟩
    exact Shape.inText_ofSymbols (inText_symbolsFrom origin entries (Placed.inText_mapping.mp h)
      (List.forall_mem_nil _))

/-- The symbols of a mapping are declared at its keys. -/
theorem inText_symbolsFrom (origin : Origin) : ∀ (entries : List (Entry Placed)),
    (∀ entry ∈ entries, entry.InText n) → ∀ {found : List Symbol}, (∀ s ∈ found, s.InText n) →
      ∀ s ∈ symbolsFrom origin found entries, s.InText n
  | [], _, _, hfound => hfound
  | ⟨keySpan, key, value⟩ :: rest, h, found, hfound => by
    obtain ⟨hentry, hrest⟩ := List.forall_mem_cons.mp h
    refine inText_symbolsFrom origin rest hrest (Declared.inText_declarePath hfound key ?_)
    exact ⟨Declaration.inText_document hentry.key, inText_infer origin value hentry.value⟩

end

theorem inText_symbolsOf (origin : Origin) {value : Placed} (h : value.InText n) :
    ∀ s ∈ symbolsOf origin value, s.InText n := by
  cases value with
  | scalar span text => exact List.forall_mem_nil _
  | sequence start items => exact List.forall_mem_nil _
  | mapping start entries =>
    exact inText_symbolsFrom origin entries (Placed.inText_mapping.mp h)
      (List.forall_mem_nil _)

theorem outNames_inside {value : Placed} (h : value.InText n) :
    ∀ entry ∈ outNames value, entry.2.Inside ⟨0, n⟩ := by
  have hscalar : ∀ {span : Option Span} {text : String} {entry : String × Span},
      (Placed.scalar span text).InText n → (span.map fun s => (text, s)) = some entry →
        entry.2.Inside ⟨0, n⟩ := by
    rintro span text entry (⟨place⟩ | _ | _) hentry
    obtain ⟨s, hs, rfl⟩ := Option.map_eq_some_iff.mp hentry
    exact place s hs
  intro entry hentry
  cases h with
  | scalar place => exact hscalar (.scalar place) (Option.mem_toList.mp hentry)
  | sequence each =>
    obtain ⟨item, hitem, hnamed⟩ := List.mem_filterMap.mp hentry
    split at hnamed
    · exact hscalar (each _ hitem) hnamed
    · cases hnamed
  | mapping keys values => exact absurd hentry List.not_mem_nil

/-- All documentation of flows stands in a text of `n` bytes. -/
def Docs.InText (n : Nat) (docs : Docs) : Prop := ∀ entry ∈ docs, FlowDoc.InText n entry.2

theorem inText_taskResult {shape : Shape} (h : Builtin.taskResult.shape = some shape) :
    shape.InText n := by
  obtain rfl := Option.some.inj h
  refine Shape.inText_ofSymbols ?_
  have hprovided : ∀ name typeHint doc, (Builtin.provided name typeHint doc).InText n :=
    fun _ _ _ => Declared.inText_of_none Declaration.inText_builtin rfl
  simp [hprovided]

theorem inText_outSymbol {docs : Docs} (hdocs : Docs.InText n docs) (kind : StepKind)
    (name : String) {span : Span} (hspan : span.Inside ⟨0, n⟩) :
    (outSymbol docs kind name span).InText n := by
  have hplace := Declaration.inText_document hspan
  unfold outSymbol
  dsimp only
  split
  · -- the documented output of a flow keeps its properties, but not its place
    split
    · rename_i flow _ symbol hfound
      obtain ⟨doc, hdoc, hsymbol⟩ := Option.bind_eq_some_iff.mp hfound
      have hdoc := hdocs _ (mem_of_lookup hdoc)
      have hsymbol := FlowParam.inText_symbols hdoc.outputs .stepOut symbol
        (List.mem_of_find?_eq_some hsymbol)
      exact ⟨hplace, hsymbol.inner⟩
    · exact Declared.inText_of_none hplace rfl
  · exact ⟨hplace, fun _ => inText_taskResult⟩
  · exact Declared.inText_of_none hplace rfl

theorem inText_outDeclarations {docs : Docs} (hdocs : Docs.InText n docs) (kind : StepKind)
    {found : List Symbol} (hfound : ∀ s ∈ found, s.InText n) {value : Placed}
    (h : value.InText n) : ∀ s ∈ outDeclarations docs kind found value, s.InText n := by
  unfold outDeclarations
  split
  · exact List.foldlRecOn (motive := fun found => ∀ s ∈ found, Declared.InText n s) _ _ hfound
      fun _ hacc s hs => Declared.inText_declarePath hacc s.name (inText_symbolsOf _ h s hs)
  · exact List.foldlRecOn (motive := fun found => ∀ s ∈ found, Declared.InText n s) _ _ hfound
      fun _ hacc entry hentry => Declared.inText_declarePath hacc entry.1
        (inText_outSymbol hdocs kind entry.1 (outNames_inside h entry hentry))

/-- The declarations of a step lie in the text. -/
theorem inText_declarationsOf {docs : Docs} (hdocs : Docs.InText n docs) (kind : StepKind)
    {entries : List (Entry Placed)} (h : ∀ entry ∈ entries, entry.InText n) :
    ∀ s ∈ declarationsOf docs kind entries, s.InText n := by
  refine List.foldlRecOn (motive := fun found => ∀ s ∈ found, Declared.InText n s) entries _
    (List.forall_mem_nil _) fun found hfound entry hentry => ?_
  have hvalue := (h entry hentry).value
  split
  · split
    · rename_i assigned hassigned
      rw [hassigned] at hvalue
      exact inText_symbolsFrom .setStep assigned (Placed.inText_mapping.mp hvalue) hfound
    · exact hfound
  · split
    · exact inText_outDeclarations hdocs kind hfound hvalue
    · exact hfound

mutual

/-- The declarations of steps and of their branches lie in the text. -/
theorem inText_stepsOf {docs : Docs} (hdocs : Docs.InText n docs) (stop : Nat) :
    ∀ items : List Placed, (∀ item ∈ items, item.InText n) →
      ∀ s ∈ Step.stepDeclarations (stepsOf docs stop items), s.InText n
  | [], _ => List.forall_mem_nil _
  | item :: rest, h => by
    obtain ⟨hitem, hrest⟩ := List.forall_mem_cons.mp h
    have hlater := inText_stepsOf hdocs stop rest hrest
    rw [stepsOf]
    split
    · exact hlater
    · exact List.forall_mem_append.mpr ⟨inText_stepOf hdocs _ item hitem, hlater⟩

theorem inText_stepOf {docs : Docs} (hdocs : Docs.InText n docs) (span : Span) :
    ∀ item : Placed, item.InText n → ∀ s ∈ (stepOf docs span item).allDeclarations, s.InText n
  | .scalar _ _, _ => List.forall_mem_nil _
  | .sequence _ _, _ => List.forall_mem_nil _
  | .mapping _ entries, h => by
    have hentries := Placed.inText_mapping.mp h
    exact List.forall_mem_append.mpr
      ⟨inText_declarationsOf hdocs _ hentries, inText_branchesOf hdocs _ _ entries hentries⟩

theorem inText_branchesOf {docs : Docs} (hdocs : Docs.InText n docs) (kind : StepKind)
    (stop : Nat) : ∀ entries : List (Entry Placed), (∀ entry ∈ entries, entry.InText n) →
      ∀ s ∈ Step.branchDeclarations (branchesOf docs kind stop entries), s.InText n
  | [], _ => List.forall_mem_nil _
  | ⟨keySpan, key, value⟩ :: rest, h => by
    obtain ⟨hentry, hrest⟩ := List.forall_mem_cons.mp h
    have hlater := inText_branchesOf hdocs kind stop rest hrest
    cases value with
    | scalar span text => exact hlater
    | mapping start entries => exact hlater
    | sequence start items =>
      rw [branchesOf]
      split
      · cases hentry.value with
        | sequence each =>
          exact List.forall_mem_append.mpr ⟨inText_stepsOf hdocs _ items each, hlater⟩
      · exact hlater

end

/-- What holds of the members of a list holds of them where the list may be missing. -/
theorem forall_mem_getD {α : Type} {P : α → Prop} {found : Option (List α)}
    (h : ∀ xs, found = some xs → ∀ x ∈ xs, P x) : ∀ x ∈ found.getD [], P x := by
  cases found with
  | none => exact List.forall_mem_nil _
  | some xs => exact h xs rfl

/-- What a flow declares, its inputs and the variables of its steps, lies in the text. -/
theorem inText_flowsOf {docs : Docs} (hdocs : Docs.InText n docs) (stop : Nat)
    {entries : List (Entry Placed)} (h : ∀ entry ∈ entries, entry.InText n) :
    ∀ flow ∈ flowsOf docs stop entries,
      ∀ s ∈ flow.parameters ++ Step.stepDeclarations flow.steps, s.InText n := by
  induction entries with
  | nil => exact List.forall_mem_nil _
  | cons entry rest ih =>
    obtain ⟨hentry, hrest⟩ := List.forall_mem_cons.mp h
    refine List.forall_mem_cons.mpr ⟨List.forall_mem_append.mpr ⟨?_, ?_⟩, ih hrest⟩
    · refine forall_mem_getD fun symbols hsymbols => ?_
      obtain ⟨doc, hdoc, rfl⟩ := Option.map_eq_some_iff.mp hsymbols
      exact FlowParam.inText_symbols (hdocs _ (mem_of_lookup hdoc)).inputs .flowParameter
    · have hvalue := hentry.value
      dsimp only
      split
      · rename_i items hitems
        rw [hitems] at hvalue
        cases hvalue with
        | sequence each => exact inText_stepsOf hdocs _ items each
      · exact List.forall_mem_nil _

theorem inText_docsOf (text : List Char) (entries : List (Entry Placed)) :
    Docs.InText (byteLength text) (docsOf (Lines.ofText text) entries) := by
  intro entry hentry
  obtain ⟨key, -, hkey⟩ := List.mem_filterMap.mp hentry
  obtain ⟨doc, hdoc, rfl⟩ := Option.map_eq_some_iff.mp hkey
  exact FlowDoc.inText_above? hdoc

theorem mem_of_find? {key : String} {stop : Nat} {entries : List (Entry Placed)}
    {entry : Entry Placed} {span : Span} (h : Entry.find? key stop entries = some (entry, span)) :
    entry ∈ entries := by
  induction entries with
  | nil => cases h
  | cons first rest ih =>
    unfold Entry.find? at h
    split at h
    · obtain ⟨rfl, -⟩ := Prod.mk.inj (Option.some.inj h)
      exact List.mem_cons_self
    · exact List.mem_cons_of_mem _ (ih h)

theorem inText_sectionOf? {key : String} {stop inner : Nat}
    {entries found : List (Entry Placed)} (h : ∀ entry ∈ entries, entry.InText n)
    (hfound : sectionOf? key stop entries = some (found, inner)) :
    ∀ entry ∈ found, entry.InText n := by
  unfold sectionOf? at hfound
  split at hfound
  · rename_i hentry
    obtain ⟨rfl, -⟩ := Prod.mk.inj (Option.some.inj hfound)
    exact Placed.inText_mapping.mp (h _ (mem_of_find? hentry)).value
  · cases hfound

/-- Everything that the outline declares lies in a text of `n` bytes. -/
structure InText (n : Nat) (o : Outline) : Prop where
  arguments : ∀ s ∈ o.arguments, s.InText n
  flows : ∀ flow ∈ o.flows, ∀ s ∈ flow.parameters ++ Step.stepDeclarations flow.steps, s.InText n

theorem inText_none : Outline.InText n {} := ⟨List.forall_mem_nil _, List.forall_mem_nil _⟩

theorem inText_ofPlaced {text : List Char} {root : Placed} (h : root.InText (byteLength text))
    (stop : Nat) : (ofPlaced (Lines.ofText text) stop root).InText (byteLength text) := by
  cases root with
  | scalar span value => exact inText_none
  | sequence start items => exact inText_none
  | mapping start sections =>
    have hsections := Placed.inText_mapping.mp h
    refine ⟨forall_mem_getD fun symbols hsymbols => ?_, forall_mem_getD fun flows hflows => ?_⟩
    · obtain ⟨⟨configuration, inner⟩, hsection, hsymbols⟩ := Option.bind_eq_some_iff.mp hsymbols
      obtain ⟨⟨found, span⟩, hfound, hsymbols⟩ := Option.bind_eq_some_iff.mp hsymbols
      obtain rfl := Option.some.inj hsymbols
      have hentry := inText_sectionOf? hsections hsection found (mem_of_find? hfound)
      exact inText_symbolsOf .argument hentry.value
    · obtain ⟨⟨entries, inner⟩, hsection, hflows⟩ := Option.bind_eq_some_iff.mp hflows
      obtain rfl := Option.some.inj hflows
      exact inText_flowsOf (inText_docsOf text entries) inner (inText_sectionOf? hsections hsection)

/-- **Everything that is declared lies in the text**, whatever structure was read from it. -/
theorem inText_ofNode (text : List Char) (stop : Nat) (root : Yaml.Node) :
    (ofNode (Lines.ofText text) stop root).InText (byteLength text) :=
  inText_ofPlaced (Placed.inText_ofNode text root) stop

end Outline

namespace Document

/-- **Every declaration of a document lies in its text**, whatever structure was read from it. -/
theorem inText_declarations (text : List Char)
    (loaded : Except Yaml.LoadError (Option Yaml.Node)) :
    ∀ s ∈ (ofStructure text loaded).declarations, s.InText (byteLength text) := by
  have houtline : (ofStructure text loaded).outline.InText (byteLength text) := by
    unfold ofStructure
    dsimp only
    split
    · exact Outline.inText_ofNode text _ _
    · exact Outline.inText_none
    · exact Outline.inText_none
  refine List.forall_mem_append.mpr ⟨houtline.arguments, fun s hs => ?_⟩
  obtain ⟨flow, hflow, hs⟩ := List.mem_flatMap.mp hs
  exact houtline.flows flow hflow s hs

end Document

end FlowExpr
