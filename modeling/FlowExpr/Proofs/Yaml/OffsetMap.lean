import FlowExpr.Proofs.Yaml.Regions
import Mathlib.Data.List.TakeWhile

/-!
# Decoded bytes and the bytes of the document

What a scalar says has an offset for each of its bytes. The offset is where the same byte stands in
the document, or where a backslash or a line break does that the character was read from:

* `Text.bytes`: the UTF-8 form of a text;
* `Text.walk_eq_flatMap`, `walk_adjacent`: a walk is its steps one after another, and pieces from
  one place are given by one step;
* `Style.gives_step`, `Style.folds_step`: what a step of decoding can give, and that more than one
  piece is a folded break;
* `Scalar.Faithful`: the offsets of a scalar lead back to its document;
* `scalars_faithful`: those of every scalar of a document do.
-/

namespace FlowExpr

open Yaml
open Text (byteLength byteLength_append byteLength_cons)

/-! ## 1. Bytes -/

namespace Text

/-- The UTF-8 form of a text. -/
def bytes (cs : List Char) : List UInt8 := cs.flatMap String.utf8EncodeChar

@[simp] theorem bytes_append (cs ds : List Char) : bytes (cs ++ ds) = bytes cs ++ bytes ds :=
  List.flatMap_append

@[simp] theorem length_bytes (cs : List Char) : (bytes cs).length = byteLength cs := by
  induction cs with
  | nil => rfl
  | cons c cs ih =>
    rw [bytes, List.flatMap_cons, List.length_append, String.length_utf8EncodeChar,
      byteLength_cons]
    exact congrArg (c.utf8Size + ·) ih

/-- The bytes of a part stand at its place. -/
theorem PartAt.getElem?_bytes {place : Nat} {text part : List Char} (h : PartAt 0 text place part)
    {k : Nat} (hk : k < byteLength part) : (bytes text)[place + k]? = (bytes part)[k]? := by
  obtain ⟨front, rest, rfl, rfl⟩ := h
  rw [Nat.zero_add, List.append_assoc, bytes_append, ← length_bytes front,
    List.getElem?_append_right (Nat.le_add_right _ _), Nat.add_sub_cancel_left, bytes_append,
    List.getElem?_append_left (by rwa [length_bytes])]

end Text

/-! ## 2. Steps of a walk -/

namespace Text

/-- A character of a text that begins at an offset, with its place and what follows it, is as
    described. -/
def AtSome (P : Nat → Char → List Char → Prop) (offset : Nat) (cs : List Char) : Prop :=
  ∃ front c rest, cs = front ++ c :: rest ∧ P (offset + byteLength front) c rest

theorem AtSome.cons {P : Nat → Char → List Char → Prop} {offset : Nat} {cs : List Char} (c : Char)
    (h : AtSome P (offset + c.utf8Size) cs) : AtSome P offset (c :: cs) := by
  obtain ⟨front, d, rest, rfl, hp⟩ := h
  rw [Nat.add_assoc, ← byteLength_cons] at hp
  exact ⟨c :: front, d, rest, rfl, hp⟩

theorem atSome_head {P : Nat → Char → List Char → Prop} {offset : Nat} {c : Char} {cs : List Char}
    (h : P offset c cs) : AtSome P offset (c :: cs) := ⟨[], c, cs, rfl, h⟩

/-- A walk is what its steps give, one after another. -/
theorem walk_eq_flatMap {α : Type} (step : Nat → Char → List Char → List α × Nat)
    (n offset : Nat) (cs : List Char) : walk step n offset cs =
      (walk (fun offset c cs => ([(offset, c, cs)], (step offset c cs).2)) n offset cs).flatMap
        fun v => (step v.1 v.2.1 v.2.2).1 := by
  fun_induction walk step n offset cs with
  | case1 => rfl
  | case2 n offset c cs ih => exact ih
  | case3 offset c cs ih => exact congrArg ((step offset c cs).1 ++ ·) ih

/-- Every result of a walk is given by a step at one of the characters. -/
theorem mem_walk {α : Type} {step : Nat → Char → List Char → List α × Nat} {n offset : Nat}
    {cs : List Char} {x : α} (h : x ∈ walk step n offset cs) :
    AtSome (fun place c rest => x ∈ (step place c rest).1) offset cs := by
  fun_induction walk step n offset cs with
  | case1 => cases h
  | case2 n offset c cs ih => exact (ih h).cons c
  | case3 offset c cs ih =>
    rcases List.mem_append.mp h with h | h
    · exact atSome_head h
    · exact (ih h).cons c

end Text

namespace Yaml

/-- Pieces that follow one another and come from one place are given by one step. -/
theorem walk_adjacent {step : Nat → Char → List Char → List Piece × Nat}
    (hat : ∀ offset c cs, StepAt offset c (step offset c cs).1) {n offset : Nat} {cs : List Char}
    {front back : List Piece} {p q : Piece}
    (h : Text.walk step n offset cs = front ++ p :: q :: back) (hsame : p.source = q.source) :
    Text.AtSome (fun place c rest => [p, q] <:+: (step place c rest).1) offset cs := by
  fun_induction Text.walk step n offset cs generalizing front with
  | case1 => simp at h
  | case2 n offset c cs ih => exact (ih h).cons c
  | case3 offset c cs ih =>
    rcases List.append_eq_append_iff.mp h with ⟨more, -, hrest⟩ | ⟨given, hgiven, hrest⟩
    · exact (ih hrest).cons c
    · cases given with
      | nil =>
        have hnext : Text.walk step (step offset c cs).2 (offset + c.utf8Size) cs =
          [] ++ p :: q :: back := hrest.symm
        exact (ih hnext).cons c
      | cons p' given =>
        obtain ⟨rfl, htail⟩ := List.cons.inj hrest
        cases given with
        | nil =>
          -- the second piece comes from a character after the one of this step
          have hp := (hat offset c cs).source_eq p (by rw [hgiven]; simp)
          have hrow := walk_row hat (step offset c cs).2 (offset + c.utf8Size) cs
          have hrest : q :: back = Text.walk step (step offset c cs).2 (offset + c.utf8Size) cs :=
            htail
          rw [← hrest] at hrow
          have hq := hrow.1
          have hsize := c.utf8Size_pos
          omega
        | cons q' more =>
          obtain ⟨rfl, -⟩ := List.cons.inj htail
          exact Text.atSome_head ⟨front, more, by rw [hgiven]; simp⟩

/-! ## 3. What a step of decoding gives -/

/-- The style has quotes. -/
def Style.Quoted (style : Style) : Prop := style = .singleQuoted ∨ style = .doubleQuoted

/-- A piece is the character of its step, or was read between quotes from a backslash or a line
    break. -/
def Style.Gives (style : Style) (c : Char) (p : Piece) : Prop :=
  p.char = c ∧ (p.verbatim = true ∨ c.utf8Size = 1) ∨
    p.verbatim = false ∧ style.Quoted ∧ (c = '\\' ∨ isLineEnd c = true)

theorem gives_self (style : Style) (offset : Nat) (c : Char) : ∀ p ∈ [(⟨c, offset, true⟩ : Piece)],
    style.Gives c p := by
  intro p hp
  rw [List.mem_singleton.mp hp]
  exact .inl ⟨rfl, .inl rfl⟩

theorem gives_foldBreak {style : Style} (hquoted : style.Quoted) {c : Char}
    (hc : isLineEnd c = true) (offset : Nat) (cs : List Char) :
    ∀ p ∈ (foldBreak offset c cs).1, style.Gives c p := by
  intro p hp
  obtain ⟨d, -, rfl⟩ := List.mem_map.mp hp
  exact .inr ⟨rfl, hquoted, .inr hc⟩

theorem gives_singleStep (offset : Nat) (c : Char) (cs : List Char) :
    ∀ p ∈ (singleStep offset c cs).1, Style.Gives .singleQuoted c p := by
  unfold singleStep
  split
  · rename_i hquote
    intro p hp
    rw [List.mem_singleton.mp hp, hquote.1]
    exact .inl ⟨rfl, .inr rfl⟩
  split
  · exact gives_foldBreak (.inl rfl) ‹_› offset cs
  split
  · exact fun p hp => absurd hp List.not_mem_nil
  · exact gives_self _ offset c

theorem gives_doubleStep (offset : Nat) (c : Char) (cs : List Char) :
    ∀ p ∈ (doubleStep offset c cs).1, Style.Gives .doubleQuoted c p := by
  unfold doubleStep
  split
  · rename_i hslash
    cases cs with
    | nil => exact gives_self _ offset c
    | cons next rest =>
      dsimp only
      split
      · exact fun p hp => absurd hp List.not_mem_nil
      split
      · intro p hp
        rw [List.mem_singleton.mp hp]
        exact .inr ⟨rfl, .inr rfl, .inl hslash⟩
      · exact gives_self _ offset c
  split
  · exact gives_foldBreak (.inr rfl) ‹_› offset cs
  split
  · exact fun p hp => absurd hp List.not_mem_nil
  · exact gives_self _ offset c

theorem Style.gives_step (style : Style) (offset : Nat) (c : Char) (cs : List Char) :
    ∀ p ∈ (style.step offset c cs).1, style.Gives c p := by
  cases style with
  | plain | block => exact gives_self _ offset c
  | singleQuoted => exact gives_singleStep offset c cs
  | doubleQuoted => exact gives_doubleStep offset c cs

/-- A step that gives more than one piece folds a line break between quotes. -/
theorem Style.folds_step {style : Style} {offset : Nat} {c : Char} {cs : List Char}
    (h : 1 < (style.step offset c cs).1.length) : style.Quoted ∧ isLineEnd c = true ∧
      (style.step offset c cs).1 = (foldBreak offset c cs).1 := by
  cases style with
  | plain | block => exact absurd h (Nat.lt_irrefl 1)
  | singleQuoted =>
    refine ⟨.inl rfl, ?_⟩
    revert h
    show 1 < (singleStep offset c cs).1.length → _ ∧ (singleStep offset c cs).1 = _
    unfold singleStep
    split
    · exact fun h => absurd h (Nat.lt_irrefl 1)
    split
    · exact fun _ => ⟨‹_›, rfl⟩
    split
    · exact fun h => absurd h (Nat.not_lt_zero 1)
    · exact fun h => absurd h (Nat.lt_irrefl 1)
  | doubleQuoted =>
    refine ⟨.inr rfl, ?_⟩
    revert h
    show 1 < (doubleStep offset c cs).1.length → _ ∧ (doubleStep offset c cs).1 = _
    unfold doubleStep
    split
    · cases cs with
      | nil => exact fun h => absurd h (Nat.lt_irrefl 1)
      | cons next rest =>
        dsimp only
        split
        · exact fun h => absurd h (Nat.not_lt_zero 1)
        split
        · exact fun h => absurd h (Nat.lt_irrefl 1)
        · exact fun h => absurd h (Nat.lt_irrefl 1)
    split
    · exact fun _ => ⟨‹_›, rfl⟩
    split
    · exact fun h => absurd h (Nat.not_lt_zero 1)
    · exact fun h => absurd h (Nat.lt_irrefl 1)

/-- More than one piece of a folded break: they are line feeds, one less than there were. -/
theorem foldBreak_feeds {offset : Nat} {c : Char} {cs : List Char}
    (h : 1 < (foldBreak offset c cs).1.length) :
    3 ≤ (c :: cs.takeWhile isGapOrLineEnd).count '\n' ∧
      ∀ p ∈ (foldBreak offset c cs).1, p.char = '\n' := by
  unfold foldBreak at h ⊢
  dsimp only at h ⊢
  generalize (c :: cs.takeWhile isGapOrLineEnd).count '\n' = breaks at h ⊢
  split at h
  · exact absurd h (Nat.lt_irrefl 1)
  · rename_i hbreaks
    rw [List.length_map, List.length_replicate] at h
    refine ⟨by omega, fun p hp => ?_⟩
    rw [if_neg hbreaks] at hp
    obtain ⟨d, hd, rfl⟩ := List.mem_map.mp hp
    exact List.eq_of_mem_replicate hd

/-! ## 4. Scalars -/

namespace Scalar

/-- The steps of decoding: the place and the character of each, and what follows it. -/
def steps (s : Scalar) : List (Nat × Char × List Char) :=
  Text.walk (fun offset c cs => ([(offset, c, cs)], (s.style.step offset c cs).2)) 0 s.start s.raw

theorem pieces_eq_steps (s : Scalar) :
    s.pieces = s.steps.flatMap fun v => (s.style.step v.1 v.2.1 v.2.2).1 := by
  rw [pieces_eq_walk, Text.walk_eq_flatMap]
  rfl

/-- At a place of a scalar with quotes, a line break begins that is folded with the blanks and
    breaks after it, and there are at least three line feeds. -/
def FoldsAt (s : Scalar) (x : Nat) : Prop :=
  s.style.Quoted ∧ ∃ brk run, isLineEnd brk = true ∧ (∀ c ∈ run, isGapOrLineEnd c = true) ∧
    3 ≤ (brk :: run).count '\n' ∧ Text.PartAt s.start s.raw x (brk :: run)

/-- **The offsets of a scalar lead back to its document.** The scalar is cut out of the document
    between characters, and decoding is steps between characters. Every byte of what the scalar
    says has an offset, and so has the end; they never go back, lie in the range of the scalar and
    end where it does. A byte stands at its offset, or between quotes a backslash or a line break
    does. Characters that follow one another have the same offset only as line feeds of one folded
    break. -/
structure Faithful (text : List Char) (s : Scalar) : Prop where
  slice : Text.sliceBytes? s.span.start s.span.stop text = some s.raw
  steps : s.decode.pieces = (s.steps.flatMap fun v => (s.style.step v.1 v.2.1 v.2.2).1) ∧
    ∀ v ∈ s.steps, (Text.splitBytes? v.1 text).isSome = true
  length : s.decode.offsets.length = byteLength s.decode.chars + 1
  forward : s.decode.offsets.Pairwise (· ≤ ·)
  inside : ∀ x ∈ s.decode.offsets, s.span.start ≤ x ∧ x ≤ s.span.stop
  last : s.decode.offsets.getLast? = some s.span.stop
  bytes : ∀ (i : Nat) b, (Text.bytes s.decode.chars)[i]? = some b →
    ∃ x : Nat, s.decode.offsets[i]? = some x ∧ ((Text.bytes text)[x]? = some b ∨ s.style.Quoted ∧
      ∃ m, (m = '\\' ∨ isLineEnd m = true) ∧ Text.PartAt 0 text x [m])
  shared : ∀ front c d back (x : Nat), s.decode.chars = front ++ c :: d :: back →
    s.decode.offsets[byteLength front]? = some x →
    s.decode.offsets[byteLength front + c.utf8Size]? = some x →
    c = '\n' ∧ d = '\n' ∧ s.FoldsAt x

end Scalar

/-- A byte of some characters belongs to one of them. -/
theorem exists_piece_at {ps : List Piece} {i : Nat} (h : i < byteLength (ps.map Piece.char)) :
    ∃ front p back k, ps = front ++ p :: back ∧ i = byteLength (front.map Piece.char) + k ∧
      k < p.char.utf8Size := by
  induction ps generalizing i with
  | nil => exact absurd h (Nat.not_lt_zero i)
  | cons p ps ih =>
    by_cases hi : i < p.char.utf8Size
    · exact ⟨[], p, ps, i, rfl, (Nat.zero_add i).symm, hi⟩
    · rw [List.map_cons, byteLength_cons] at h
      obtain ⟨front, q, back, k, rfl, hk, hlt⟩ := ih (i := i - p.char.utf8Size) (by omega)
      refine ⟨p :: front, q, back, k, rfl, ?_, hlt⟩
      rw [List.map_cons, byteLength_cons]
      omega

namespace Scalar

variable {s : Scalar} {text : List Char}

/-- A step of decoding is at a character of the scalar. -/
theorem partAt_of_mem_steps {v : Nat × Char × List Char} (hv : v ∈ s.steps) :
    Text.PartAt s.start s.raw v.1 [v.2.1] := by
  obtain ⟨front, c, rest, hraw, hmem⟩ := Text.mem_walk hv
  rw [List.mem_singleton.mp hmem]
  exact ⟨front, rest, by rw [hraw]; simp, rfl⟩

/-- A piece comes from a character of the scalar that gives it. -/
theorem exists_gives {p : Piece} (hp : p ∈ s.pieces) :
    ∃ c, Text.PartAt s.start s.raw p.source [c] ∧ s.style.Gives c p := by
  rw [pieces_eq_steps] at hp
  obtain ⟨⟨place, c, rest⟩, hv, hp⟩ := List.mem_flatMap.mp hp
  have hsource := (s.style.stepAt place c rest).source_eq p hp
  exact ⟨c, hsource ▸ partAt_of_mem_steps hv, s.style.gives_step place c rest p hp⟩

/-- The bytes of a piece stand at its offsets, or a backslash or a line break does. -/
theorem byte_of_gives {c : Char} {p : Piece} (hpart : Text.PartAt 0 text p.source [c])
    (h : s.style.Gives c p) {k : Nat} (hk : k < p.char.utf8Size) {b : UInt8}
    (hb : (String.utf8EncodeChar p.char)[k]? = some b) :
    ∃ x : Nat, p.offsets[k]? = some x ∧ ((Text.bytes text)[x]? = some b ∨ s.style.Quoted ∧
      ∃ m, (m = '\\' ∨ isLineEnd m = true) ∧ Text.PartAt 0 text x [m]) := by
  have hlength : k < p.offsets.length := by rwa [p.length_offsets]
  have hstands : ∀ {k}, k < c.utf8Size →
      (Text.bytes text)[p.source + k]? = (String.utf8EncodeChar c)[k]? := by
    intro k hk
    rw [hpart.getElem?_bytes (by simpa using hk), Text.bytes, List.flatMap_singleton]
  have hoffset : p.offsets[k]? = some (if p.verbatim then p.source + k else p.source) := by
    unfold Piece.offsets
    split
    · rw [List.getElem?_map, List.getElem?_range hk]
      rfl
    · rw [List.getElem?_replicate, if_pos hk]
  refine ⟨_, hoffset, ?_⟩
  rcases h with ⟨rfl, hv⟩ | ⟨hread, hquoted, hc⟩
  · refine .inl ?_
    by_cases hverbatim : p.verbatim = true
    · rw [if_pos hverbatim, hstands hk, hb]
    · -- a character of one byte has no other offset
      have hone := hv.resolve_left hverbatim
      obtain rfl : k = 0 := by omega
      have hfirst := hstands hk
      rw [Nat.add_zero] at hfirst
      rw [if_neg hverbatim, hfirst, hb]
  · rw [hread]
    exact .inr ⟨hquoted, c, hc, hpart⟩

/-- A byte of what a scalar says stands at its offset, or a backslash or a line break does. -/
theorem byte_decode (hs : Text.PartAt 0 text s.start s.raw) (i : Nat) (b : UInt8)
    (hb : (Text.bytes s.decode.chars)[i]? = some b) :
    ∃ x : Nat, s.decode.offsets[i]? = some x ∧ ((Text.bytes text)[x]? = some b ∨ s.style.Quoted ∧
      ∃ m, (m = '\\' ∨ isLineEnd m = true) ∧ Text.PartAt 0 text x [m]) := by
  have hi : i < byteLength s.decode.chars := by
    rw [← Text.length_bytes]
    exact (List.getElem?_eq_some_iff.mp hb).1
  have hbound : i < byteLength (s.pieces.map Piece.char) := hi
  obtain ⟨front, p, back, k, hpieces, rfl, hk⟩ := exists_piece_at hbound
  obtain ⟨c, hpart, hgives⟩ := s.exists_gives (p := p) (by rw [hpieces]; simp)
  have hchar : Text.PartAt 0 s.decode.chars (byteLength (front.map Piece.char)) [p.char] := by
    refine ⟨front.map Piece.char, back.map Piece.char, ?_, (Nat.zero_add _).symm⟩
    show s.pieces.map Piece.char = _
    rw [hpieces]
    simp
  rw [hchar.getElem?_bytes (by simpa using hk), Text.bytes, List.flatMap_singleton] at hb
  have hoffset : s.decode.offsets[byteLength (front.map Piece.char) + k]? = p.offsets[k]? := by
    show (s.pieces.flatMap Piece.offsets ++ [s.span.stop])[_]? = _
    rw [hpieces]
    exact getElem?_offsets_piece front back s.span.stop p hk
  rw [hoffset]
  exact byte_of_gives (hs.trans hpart) hgives hk hb

/-- Characters from one place were folded. -/
theorem foldsAt_of_same {front back : List Piece} {p q : Piece}
    (hpieces : s.pieces = front ++ p :: q :: back) (hsame : p.source = q.source) :
    p.char = '\n' ∧ q.char = '\n' ∧ s.FoldsAt p.source := by
  rw [pieces_eq_walk] at hpieces
  obtain ⟨before, c, rest, hraw, hgiven⟩ := walk_adjacent s.style.stepAt hpieces hsame
  have hlength : 1 < (s.style.step (s.start + byteLength before) c rest).1.length :=
    hgiven.length_le
  obtain ⟨hquoted, hbreak, hfold⟩ := Style.folds_step hlength
  have hp := hgiven.subset List.mem_cons_self
  have hq := hgiven.subset (List.mem_cons_of_mem _ List.mem_cons_self)
  have hsource := (s.style.stepAt _ c rest).source_eq p hp
  rw [hfold] at hlength hp hq
  obtain ⟨hcount, hfeeds⟩ := foldBreak_feeds hlength
  refine ⟨hfeeds p hp, hfeeds q hq, hquoted, c, _, hbreak,
    fun d hd => List.mem_takeWhile_imp hd, hcount, before, rest.dropWhile isGapOrLineEnd, ?_,
    hsource⟩
  rw [hraw, List.append_assoc, List.cons_append, List.takeWhile_append_dropWhile]

/-- Characters that follow one another have the same offset only as line feeds of one folded
    break. -/
theorem folds_of_shared (front : List Char) (c d : Char) (back : List Char) (x : Nat)
    (hchars : s.decode.chars = front ++ c :: d :: back)
    (hc : s.decode.offsets[byteLength front]? = some x)
    (hd : s.decode.offsets[byteLength front + c.utf8Size]? = some x) :
    c = '\n' ∧ d = '\n' ∧ s.FoldsAt x := by
  obtain ⟨before, after, hpieces, rfl, hafter⟩ := List.map_eq_append_iff.mp hchars
  obtain ⟨p, more, rfl, rfl, hmore⟩ := List.map_eq_cons_iff.mp hafter
  obtain ⟨q, last, rfl, rfl, -⟩ := List.map_eq_cons_iff.mp hmore
  have hp := getElem?_offsets before (p :: q :: last) s.span.stop
  have hq := getElem?_offsets (before ++ [p]) (q :: last) s.span.stop
  rw [List.append_assoc, List.map_append, byteLength_append] at hq
  change s.pieces = _ at hpieces
  have hoffsets : s.decode.offsets =
      (before ++ p :: q :: last).flatMap Piece.offsets ++ [s.span.stop] := by
    rw [← hpieces]
    rfl
  rw [hoffsets] at hc hd
  obtain rfl : p.source = x := Option.some.inj (hp.symm.trans hc)
  obtain hsame : q.source = p.source := Option.some.inj (hq.symm.trans hd)
  exact foldsAt_of_same hpieces hsame.symm

end Scalar

/-- **The scalars of a document have faithful offsets.** They lie in the document in order and do
    not overlap, and the offsets of each of them lead back to the document. -/
theorem scalars_faithful (text : List Char) :
    ((scalars text).Pairwise fun s t => s.span.stop ≤ t.span.start) ∧
      ∀ s ∈ scalars text, s.span.Inside ⟨0, byteLength text⟩ ∧ s.Faithful text := by
  have hrow := scalars_row text
  refine ⟨List.pairwise_map.mp hrow.pairwise, fun s hs =>
    ⟨hrow.inside (List.mem_map_of_mem hs), ?_⟩⟩
  have hpart := scalars_parts hs
  have hpieces := s.pieces_row
  have hlength : s.decode.offsets.length = byteLength s.decode.chars + 1 := by
    rw [Decoded.offsets, List.length_append, length_flatMap_offsets]
    rfl
  exact
    { slice := hpart.sliceBytes?
      steps := ⟨s.pieces_eq_steps, fun v hv =>
        (hpart.trans (Scalar.partAt_of_mem_steps hv)).isSome_splitBytes?⟩
      length := hlength
      forward := hpieces.pairwise_offsets
      inside := fun x hx => by
        rcases List.mem_append.mp hx with hx | hx
        · exact hpieces.mem_offsets x hx
        · rw [List.mem_singleton.mp hx]
          exact ⟨Nat.le_add_right _ _, Nat.le_refl _⟩
      last := by
        rw [Decoded.offsets, List.getLast?_append]
        rfl
      bytes := Scalar.byte_decode hpart
      shared := Scalar.folds_of_shared }

/-- In `"é\xe9 `, three line feeds with a blank between them and `x"`: the blanks are left out, the
    escape has one offset for its two bytes, and the two line feeds that are left have one
    offset. -/
theorem scalars_faithful_folded :
    let text := ['"', 'é', '\\', 'x', 'e', '9', ' ', '\n', ' ', '\n', '\n', 'x', '"']
    let s : Scalar :=
      ⟨.doubleQuoted, 1, ['é', '\\', 'x', 'e', '9', ' ', '\n', ' ', '\n', '\n', 'x']⟩
    s ∈ scalars text ∧ s.decode.chars = ['é', 'é', '\n', '\n', 'x'] ∧
      s.decode.offsets = [1, 2, 3, 3, 8, 8, 12, 13] ∧ s.Faithful text := by
  intro text s
  have hs : s ∈ scalars text := by decide
  exact ⟨hs, by decide, by decide, ((scalars_faithful text).2 s hs).2⟩

end Yaml

end FlowExpr
