import FlowExpr.Span
import FlowExpr.Text.Lines
import FlowExpr.Yaml.Node

/-!
# Places of nodes

The structure of a document knows where a node begins, as line and column, and for a quoted
scalar that is its quote. The ranges of keys and scalars are found from there: the text of the
scalar is looked for on its line, and the occurrence nearest to the column is taken.

* `Placed`: the structure with byte ranges, the entries of a mapping in the order of the text;
* `Placed.ofNode`: the ranges of a structure.
-/

namespace FlowExpr

open Yaml (Mark Node)

/-- An entry of a mapping, with the range of its key. -/
structure Entry (ν : Type) where
  keySpan : Span
  key : String
  value : ν
  deriving Repr

/-- Structure with byte ranges. A place that cannot be found is missing. -/
inductive Placed where
  | scalar (span : Option Span) (text : String)
  | sequence (start : Option Nat) (items : List Placed)
  | mapping (start : Option Nat) (entries : List (Entry Placed))
  deriving Repr

/-! ## 1. Finding a text on a line -/

/-- Byte offsets where a text occurs, from left to right and without overlap. The first number
    counts characters that belong to an occurrence. -/
def occurrencesFrom (needle : List Char) : Nat → Nat → List Char → List Nat
  | _, _, [] => []
  | taken + 1, offset, c :: cs => occurrencesFrom needle taken (offset + c.utf8Size) cs
  | 0, offset, c :: cs =>
    if needle.isPrefixOf (c :: cs) then
      offset :: occurrencesFrom needle (needle.length - 1) (offset + c.utf8Size) cs
    else occurrencesFrom needle 0 (offset + c.utf8Size) cs

/-- Distance of two offsets. -/
def distance (a b : Nat) : Nat := (a - b) + (b - a)

/-- The offset nearest to another; the first of two that are equally near. -/
def nearest (target best : Nat) : List Nat → Nat
  | [] => best
  | o :: rest => nearest target (if distance o target < distance best target then o else best) rest

/-- Offset of a text near a place on its line; the place itself where the text does not
    occur. -/
def locateText? (lines : Lines) (mark : Option Mark) (needle : List Char) : Option Nat := do
  let mark ← mark
  let start ← lines.start? mark.line
  let line ← lines.line? mark.line
  let approximate ← lines.offset? mark.line (mark.column + 1)
  if needle.isEmpty then return approximate
  else
    match occurrencesFrom needle 0 start line with
    | [] => return approximate
    | first :: rest => return nearest approximate first rest

/-- Range of a scalar: from where its text is found, no further than the end of that line. -/
def scalarSpan? (lines : Lines) (mark : Option Mark) (text : String) : Option Span := do
  let start ← locateText? lines mark text.toList
  let stop ← lines.stop? (lines.position start).1
  return ⟨start, max (min (start + text.utf8ByteSize) stop) start⟩

/-! ## 2. Placing a structure -/

namespace Placed

/-- Where a node begins; a mapping begins at its first key. -/
def start? : Placed → Option Nat
  | scalar span _ => span.map Span.start
  | sequence start _ => start
  | mapping start entries =>
    match entries with
    | [] => start
    | first :: _ => some first.keySpan.start

/-- An entry whose key was looked for. -/
structure Candidate where
  keySpan : Option Span
  key : String
  value : Placed

/-- Each key once, at its first place and with its last value. -/
def unique (candidates : List Candidate) : List Candidate :=
  candidates.foldl
    (fun found c =>
      if found.any fun f => f.key == c.key then
        found.map fun f => if f.key == c.key then { f with value := c.value } else f
      else found ++ [c]) []

/-- Entries whose keys were found, in the order of the text. -/
def sorted (candidates : List Candidate) : List (Entry Placed) :=
  let located := (unique candidates).filterMap fun c =>
    c.keySpan.map fun span => (⟨span, c.key, c.value⟩ : Entry Placed)
  located.mergeSort fun a b => a.keySpan.start ≤ b.keySpan.start

mutual

/-- Byte ranges of a structure. -/
def ofNode (lines : Lines) : Node → Placed
  | .scalar mark text => .scalar (scalarSpan? lines mark text) text
  | .sequence mark items => .sequence (locateText? lines mark []) (ofItems lines items)
  | .mapping mark entries =>
    .mapping (locateText? lines mark []) (sorted (ofEntries lines entries))

/-- Byte ranges of the items of a sequence. -/
def ofItems (lines : Lines) : List Node → List Placed
  | [] => []
  | item :: rest => ofNode lines item :: ofItems lines rest

/-- Byte ranges of the entries of a mapping. -/
def ofEntries (lines : Lines) : List ((Option Mark × String) × Node) → List Candidate
  | [] => []
  | ((mark, key), value) :: rest =>
    ⟨scalarSpan? lines mark key, key, ofNode lines value⟩ :: ofEntries lines rest

end

end Placed

/-! ## 3. Ranges of entries -/

/-- Range of an entry: from its key to the key that follows, or to where the mapping ends. -/
def Entry.range (key : Span) (following : Option Span) (stop : Nat) : Span :=
  ⟨key.start, max ((following.map Span.start).getD stop) key.stop⟩

/-- Range of an entry in front of the rest of its mapping. -/
def Entry.span {ν : Type} (entry : Entry ν) (rest : List (Entry ν)) (stop : Nat) : Span :=
  Entry.range entry.keySpan (rest.head?.map Entry.keySpan) stop

/-- The first entry of a key, with its range. -/
def Entry.find? {ν : Type} (key : String) (stop : Nat) :
    List (Entry ν) → Option (Entry ν × Span)
  | [] => none
  | entry :: rest =>
    if entry.key = key then some (entry, entry.span rest stop) else Entry.find? key stop rest

end FlowExpr
