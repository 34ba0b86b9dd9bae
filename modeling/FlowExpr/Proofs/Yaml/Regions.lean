import FlowExpr.Proofs.Yaml.Decoding

/-!
# The regions of embedded expressions

The expressions that the pass over a document finds are well formed: their ranges lie in the
document between characters, follow one another, and no caret is in two of them; and every byte
of an expression has its offset in the document.

* `Embedded.ReadFrom`: an expression that was read from some of the pieces of a scalar, said
  with the pieces before it, in it and after it. Everything about the ranges and offsets of
  one expression follows from this.
* `Embedded.inPieces_readFrom`, `Embedded.inPieces_row`: what is found in a row of pieces;
* `embedded_readFrom`, `embedded_row`: what is found in a document.
-/

namespace FlowExpr

open Yaml
open Text (byteLength byteLength_append byteLength_cons)

namespace Embedded

/-! ## 1. Expressions read from pieces -/

/-- A place between decoded characters: where a piece comes from, or where the scalar ends. -/
def IsPlace (stop : Nat) (ps : List Piece) (x : Nat) : Prop := x = stop ∨ ∃ p ∈ ps, x = p.source

theorem IsPlace.mono {stop x : Nat} {ps qs : List Piece} (h : IsPlace stop ps x)
    (hsub : ps ⊆ qs) : IsPlace stop qs x := by
  rcases h with h | ⟨p, hp, h⟩
  · exact .inl h
  · exact .inr ⟨p, hsub hp, h⟩

theorem isPlace_offsetOf (stop : Nat) (ps : List Piece) : IsPlace stop ps (offsetOf stop ps) := by
  cases ps with
  | nil => exact .inl rfl
  | cons p ps => exact .inr ⟨p, List.mem_cons_self, rfl⟩

theorem offsetOf_append (stop : Nat) (ps qs : List Piece) :
    offsetOf stop (ps ++ qs) = offsetOf (offsetOf stop qs) ps := by
  cases ps with
  | nil => rfl
  | cons p ps => rfl

/-- The expression was read from pieces of a scalar that ends at `stop`: from those between
    `front` and `back`. -/
structure ReadFrom (stop : Nat) (front inner back : List Piece) (e : Embedded) : Prop where
  source : e.source = inner.map Piece.char
  offsets : e.offsets = inner.flatMap Piece.offsets ++ [e.inner.stop]
  innerStart : e.inner.start = offsetOf stop (inner ++ back)
  innerStop : e.inner.stop = offsetOf stop back
  opening : e.span.start < e.inner.start
  closing : e.inner.stop ≤ e.span.stop
  first : IsPlace stop (front ++ inner ++ back) e.span.start
  last : IsPlace stop (front ++ inner ++ back) e.span.stop

/-- More pieces before the expression change nothing. -/
theorem ReadFrom.cons {stop : Nat} {front inner back : List Piece} {e : Embedded} (p : Piece)
    (h : ReadFrom stop front inner back e) : ReadFrom stop (p :: front) inner back e :=
  { h with
    first := h.first.mono (List.subset_cons_self _ _)
    last := h.last.mono (List.subset_cons_self _ _) }

namespace ReadFrom

variable {lo stop : Nat} {front inner back : List Piece} {e : Embedded}

/-- The pieces of the expression are a row between the ends of its range. -/
theorem row (h : ReadFrom stop front inner back e)
    (hps : PieceRow lo (front ++ inner ++ back) stop) :
    PieceRow e.inner.start inner e.inner.stop := by
  rw [List.append_assoc] at hps
  have hrow := hps.of_append.2.from_offsetOf
  rw [h.innerStart, h.innerStop]
  exact hrow.of_append.1

theorem inner_le (h : ReadFrom stop front inner back e)
    (hps : PieceRow lo (front ++ inner ++ back) stop) : e.inner.start ≤ e.inner.stop := by
  have hrow := h.row hps
  exact Nat.le_trans hrow.le_offsetOf hrow.offsetOf_le

/-- There is an offset for every byte, and one for the end. -/
theorem length_offsets (h : ReadFrom stop front inner back e) :
    e.offsets.length = byteLength e.source + 1 := by
  rw [h.offsets, h.source, List.length_append, length_flatMap_offsets]
  rfl

theorem pairwise_offsets (h : ReadFrom stop front inner back e)
    (hps : PieceRow lo (front ++ inner ++ back) stop) : e.offsets.Pairwise (· ≤ ·) := by
  rw [h.offsets]
  exact (h.row hps).pairwise_offsets

theorem head?_offsets (h : ReadFrom stop front inner back e) :
    e.offsets.head? = some e.inner.start := by
  have hfirst := getElem?_offsets [] inner e.inner.stop
  rw [List.nil_append] at hfirst
  rw [h.offsets, List.head?_eq_getElem?, h.innerStart, offsetOf_append, ← h.innerStop]
  exact hfirst

theorem getLast?_offsets (h : ReadFrom stop front inner back e) :
    e.offsets.getLast? = some e.inner.stop := by
  rw [h.offsets, List.getLast?_append]
  rfl

/-- The ends of both ranges are places between decoded characters. -/
theorem isPlace (h : ReadFrom stop front inner back e) :
    ∀ x ∈ [e.span.start, e.inner.start, e.inner.stop, e.span.stop],
      IsPlace stop (front ++ inner ++ back) x := by
  have hstart : IsPlace stop (front ++ inner ++ back) e.inner.start := by
    rw [h.innerStart, List.append_assoc]
    exact (isPlace_offsetOf stop _).mono (List.subset_append_right _ _)
  have hstop : IsPlace stop (front ++ inner ++ back) e.inner.stop := by
    rw [h.innerStop]
    exact (isPlace_offsetOf stop _).mono (List.subset_append_right _ _)
  simp only [List.forall_mem_cons, List.not_mem_nil, false_imp_iff, forall_const, and_true]
  exact ⟨h.first, hstart, hstop, h.last⟩

/-- Text and offsets of the expression are cut out of those of its scalar, at one place. -/
theorem decoded (h : ReadFrom stop front inner back e) {d : Decoded}
    (hpieces : d.pieces = front ++ inner ++ back) (hstop : d.stop = stop) :
    Text.PartAt 0 d.chars (byteLength (front.map Piece.char)) e.source ∧
      (d.offsets.drop (byteLength (front.map Piece.char))).take (byteLength e.source + 1) =
        e.offsets := by
  constructor
  · refine ⟨front.map Piece.char, back.map Piece.char, ?_, (Nat.zero_add _).symm⟩
    rw [Decoded.chars, hpieces, h.source, List.map_append, List.map_append]
  · have hend : (back.flatMap Piece.offsets ++ [stop]).take 1 = [e.inner.stop] := by
      have hfirst := getElem?_offsets [] back stop
      rw [List.nil_append, ← h.innerStop] at hfirst
      rw [List.take_one, List.head?_eq_getElem?]
      exact congrArg Option.toList hfirst
    rw [Decoded.offsets, hpieces, hstop, h.offsets, h.source, List.flatMap_append,
      List.flatMap_append, List.append_assoc, List.append_assoc, ← length_flatMap_offsets front,
      List.drop_left, ← length_flatMap_offsets inner, List.take_length_add_append, hend]

end ReadFrom

/-! ## 2. Regions in a row of pieces -/

/-- An expression is a number of pieces of its content; its range ends with those pieces or
    after the brace, and what is looked at next comes no earlier. -/
theorem region_eq (start stop : Nat) (content : List Piece) :
    ∃ length last size terminated, length ≤ last ∧ last ≤ size ∧
      region start stop content =
        (⟨⟨start, offsetOf stop (content.drop last)⟩,
          ⟨offsetOf stop content, offsetOf stop (content.drop length)⟩, terminated,
          (content.map Piece.char).take length,
          (content.take length).flatMap Piece.offsets ++ [offsetOf stop (content.drop length)]⟩,
        size) := by
  dsimp only [region]
  cases expressionLength? (content.map Piece.char) with
  | some length =>
    exact ⟨length, length + 1, length + 1, true, Nat.le_succ _, Nat.le_refl _, rfl⟩
  | none =>
    -- carriage returns at the end of the line are no part of the expression
    refine ⟨_, _, _, false, Nat.le_refl _, ?_, rfl⟩
    rw [List.length_reverse]
    refine Nat.le_trans (List.dropWhile_suffix _).length_le (Nat.le_of_eq ?_)
    exact List.length_reverse

/-- A region reads its expression from the first pieces of its content, and what is found next
    comes after it. -/
theorem region_readFrom {start stop size : Nat} {content : List Piece} {e : Embedded}
    (hregion : region start stop content = (e, size))
    (hcontent : PieceRow (start + 1) content stop) :
    e.span.start = start ∧ PieceRow e.span.stop (content.drop size) stop ∧
    ∃ inner back, content = inner ++ back ∧ ∀ front, IsPlace stop (front ++ content) start →
      ReadFrom stop front inner back e := by
  obtain ⟨length, last, size', terminated, hlength, hlast, heq⟩ := region_eq start stop content
  obtain ⟨rfl, rfl⟩ := Prod.mk.inj (heq.symm.trans hregion)
  -- dropping more pieces never goes back
  have hdrop : ∀ {m n : Nat}, m ≤ n →
      PieceRow (offsetOf stop (content.drop m)) (content.drop n) stop := by
    intro m n hmn
    have h := (hcontent.drop m).from_offsetOf.drop (n - m)
    rwa [List.drop_drop, Nat.add_sub_cancel' hmn] at h
  refine ⟨rfl, hdrop hlast, content.take length, content.drop length,
    (List.take_append_drop _ _).symm, fun front hstart => ?_⟩
  have hplace : IsPlace stop (front ++ content) (offsetOf stop (content.drop last)) :=
    (isPlace_offsetOf stop _).mono
      (List.Subset.trans (List.drop_subset _ _) (List.subset_append_right _ _))
  have hwhole : front ++ content.take length ++ content.drop length = front ++ content := by
    rw [List.append_assoc, List.take_append_drop]
  exact
    { source := List.map_take.symm
      offsets := rfl
      innerStart := by rw [List.take_append_drop]
      innerStop := rfl
      opening := hcontent.le_offsetOf
      closing := (hdrop hlength).le_offsetOf
      first := by rwa [hwhole]
      last := by rwa [hwhole] }

/-- The content of a region comes from places after its two opening characters. -/
theorem content_row {lo stop : Nat} {p q : Piece} {content : List Piece}
    (h : PieceRow lo (p :: q :: content) stop) (hp : p.char = '$') :
    PieceRow (p.source + 1) content stop := by
  have hdollar : p.source < p.next := Piece.source_lt_next (by rw [hp]; decide)
  have hnext := h.2.1
  have hbrace := q.source_le_next
  exact h.2.2.lower (by omega)

/-- A dollar sign and an opening brace begin a region. -/
theorem opens_cases {before : Option Char} {p : Piece} {rest : List Piece}
    (h : (p.char = '$' && (rest.head?.map Piece.char) = some '{' && before ≠ some '\\') = true) :
    p.char = '$' ∧ ∃ q content, rest = q :: content := by
  rw [Bool.and_eq_true, Bool.and_eq_true, decide_eq_true_iff, decide_eq_true_iff] at h
  obtain ⟨⟨hp, hbrace⟩, -⟩ := h
  cases rest with
  | nil => cases hbrace
  | cons q content => exact ⟨hp, q, content, rfl⟩

/-- **Every expression found in a row of pieces was read from some of them.** -/
theorem inPieces_readFrom (stop taken : Nat) (before : Option Char) (ps : List Piece) :
    ∀ lo, PieceRow lo ps stop → ∀ e ∈ inPieces stop taken before ps,
      ∃ front inner back, ps = front ++ inner ++ back ∧ ReadFrom stop front inner back e := by
  have hlonger : ∀ {p : Piece} {rest : List Piece} {e : Embedded},
      (∃ front inner back, rest = front ++ inner ++ back ∧ ReadFrom stop front inner back e) →
      ∃ front inner back, p :: rest = front ++ inner ++ back ∧
        ReadFrom stop front inner back e := by
    rintro p rest e ⟨front, inner, back, rfl, h⟩
    exact ⟨p :: front, inner, back, rfl, h.cons p⟩
  fun_induction inPieces stop taken before ps with
  | case1 =>
    intro lo _ e he
    cases he
  | case2 before p rest taken ih => exact fun lo h e he => hlonger (ih _ h.2 e he)
  | case3 before p rest hopen found size hregion ih =>
    intro lo h e he
    rcases List.mem_cons.mp he with rfl | he
    · obtain ⟨hp, q, content, rfl⟩ := opens_cases hopen
      obtain ⟨-, -, inner, back, hcontent, hread⟩ := region_readFrom hregion (content_row h hp)
      refine ⟨[p, q], inner, back, ?_, hread [p, q] (.inr ⟨p, List.mem_cons_self, rfl⟩)⟩
      rw [List.append_assoc, ← hcontent]
      rfl
    · exact hlonger (ih _ h.2 e he)
  | case4 before p rest hopen ih => exact fun lo h e he => hlonger (ih _ h.2 e he)

/-- **Expressions found in a row of pieces follow one another.** -/
theorem inPieces_row (stop taken : Nat) (before : Option Char) (ps : List Piece) :
    ∀ lo, PieceRow lo (ps.drop taken) stop →
      Span.Row lo ((inPieces stop taken before ps).map Embedded.span) stop := by
  fun_induction inPieces stop taken before ps with
  | case1 taken before =>
    intro lo h
    rw [List.drop_nil] at h
    exact h
  | case2 before p rest taken ih => exact ih
  | case3 before p rest hopen found size hregion ih =>
    intro lo h
    obtain ⟨hp, q, content, rfl⟩ := opens_cases hopen
    obtain ⟨hstart, hrest, inner, back, hcontent, hread⟩ :=
      region_readFrom hregion (content_row h hp)
    have hr := hread [p, q] (.inr ⟨p, List.mem_cons_self, rfl⟩)
    have hpieces : PieceRow lo ([p, q] ++ inner ++ back) stop := by
      rw [List.append_assoc, ← hcontent]
      exact h
    have hinner := hr.inner_le hpieces
    have hopening := hr.opening
    have hclosing := hr.closing
    refine ⟨?_, by omega, ih _ hrest⟩
    show lo ≤ found.span.start
    rw [hstart]
    exact h.1
  | case4 before p rest hopen ih =>
    intro lo h
    exact ih lo (h.2.lower (Nat.le_trans h.1 p.source_le_next))

end Embedded

/-! ## 3. Regions of a document -/

/-- **Every expression of a document was read from the pieces of one of its scalars.** -/
theorem embedded_readFrom {text : List Char} {e : Embedded} (h : e ∈ embedded text) :
    ∃ s ∈ scalars text, ∃ front inner back, s.pieces = front ++ inner ++ back ∧
      Embedded.ReadFrom s.span.stop front inner back e := by
  obtain ⟨s, hs, he⟩ := List.mem_flatMap.mp h
  exact ⟨s, hs, Embedded.inPieces_readFrom _ 0 none _ _ s.pieces_row e he⟩

/-- **The expressions of a document follow one another.** -/
theorem embedded_row (text : List Char) :
    Span.Row 0 ((embedded text).map Embedded.span) (byteLength text) :=
  (scalars_row text).flatMap fun s _ => Embedded.inPieces_row _ 0 none _ _ s.pieces_row

/-- A place between the decoded characters of a scalar is one between characters of its
    document. -/
theorem isSome_splitBytes?_of_isPlace {text : List Char} {s : Scalar} (hs : s ∈ scalars text)
    {x : Nat} (hx : Embedded.IsPlace s.span.stop s.pieces x) :
    (Text.splitBytes? x text).isSome = true := by
  have hpart : Text.PartAt s.start s.raw x [] := by
    rcases hx with rfl | ⟨p, hp, rfl⟩
    · exact ⟨s.raw, [], by simp, rfl⟩
    · exact s.pieces_source p hp
  exact ((scalars_parts hs).trans hpart).isSome_splitBytes?

/-- The range of an expression lies in its region, and the region in the document. -/
theorem embedded_inside {text : List Char} {e : Embedded} (h : e ∈ embedded text) :
    e.span.start < e.inner.start ∧ e.inner.start ≤ e.inner.stop ∧ e.inner.stop ≤ e.span.stop ∧
      e.span.stop ≤ byteLength text := by
  obtain ⟨s, -, front, inner, back, hpieces, hread⟩ := embedded_readFrom h
  have hrow := s.pieces_row
  rw [hpieces] at hrow
  have hspan := (embedded_row text).inside (List.mem_map_of_mem h)
  exact ⟨hread.opening, hread.inner_le hrow, hread.closing, hspan.2.2⟩

/-- **No caret is in two expressions**, and their regions follow one another. -/
theorem embedded_pairwise (text : List Char) :
    (embedded text).Pairwise fun d e => d.span.stop ≤ e.span.start ∧
      ∀ o, ¬(d.inner.touches o = true ∧ e.inner.touches o = true) := by
  have horder := List.pairwise_map.mp (embedded_row text).pairwise
  refine List.Pairwise.imp_of_mem ?_ horder
  intro d e hd he hle
  refine ⟨hle, fun o ⟨hdo, heo⟩ => ?_⟩
  -- the first expression ends before the second one is opened
  have hclosed := (embedded_inside hd).2.2.1
  have hopened := (embedded_inside he).1
  have hbefore := (Span.touches_iff.mp hdo).2
  have hafter := (Span.touches_iff.mp heo).1
  omega

/-- **Embedded regions are well formed.** Scalars are cut out of the document between
    characters, and so are expressions out of what their scalars say; the ends of their ranges
    lie in the document in order and between characters; every byte of an expression and its
    end have an offset, and the offsets lead from one end of the range to the other and never
    go back. Regions follow one another, and no caret is in two expressions. -/
theorem embedded_wellFormed (text : List Char) :
    (∀ s ∈ scalars text, Text.sliceBytes? s.span.start s.span.stop text = some s.raw) ∧
    (∀ e ∈ embedded text,
      (e.span.start ≤ e.inner.start ∧ e.inner.start ≤ e.inner.stop ∧
        e.inner.stop ≤ e.span.stop ∧ e.span.stop ≤ byteLength text) ∧
      (∀ x ∈ [e.span.start, e.inner.start, e.inner.stop, e.span.stop],
        (Text.splitBytes? x text).isSome = true) ∧
      (e.offsets.length = byteLength e.source + 1 ∧ e.offsets.Pairwise (· ≤ ·) ∧
        e.offsets.head? = some e.inner.start ∧ e.offsets.getLast? = some e.inner.stop) ∧
      ∃ s ∈ scalars text, ∃ first,
        Text.sliceBytes? first (first + byteLength e.source) s.decode.chars = some e.source ∧
        (s.decode.offsets.drop first).take (byteLength e.source + 1) = e.offsets) ∧
    (embedded text).Pairwise fun d e => d.span.stop ≤ e.span.start ∧
      ∀ o, ¬(d.inner.touches o = true ∧ e.inner.touches o = true) := by
  refine ⟨fun s hs => (scalars_parts hs).sliceBytes?, fun e he => ?_, embedded_pairwise text⟩
  obtain ⟨hopening, hinner, hclosing, hend⟩ := embedded_inside he
  obtain ⟨s, hs, front, inner, back, hpieces, hread⟩ := embedded_readFrom he
  have hrow := s.pieces_row
  rw [hpieces] at hrow
  refine ⟨⟨Nat.le_of_lt hopening, hinner, hclosing, hend⟩, fun x hx => ?_,
    ⟨hread.length_offsets, hread.pairwise_offsets hrow, hread.head?_offsets,
      hread.getLast?_offsets⟩, s, hs, byteLength (front.map Piece.char), ?_⟩
  · refine isSome_splitBytes?_of_isPlace hs ?_
    rw [hpieces]
    exact hread.isPlace x hx
  · obtain ⟨hpart, hoffsets⟩ := hread.decoded (d := s.decode) hpieces rfl
    exact ⟨hpart.sliceBytes?, hoffsets⟩

/-- An expression over two lines, and one that is not closed since its brace is written as an
    escape in a string. -/
theorem embedded_folded_line :
    let text := ['k', ':', ' ', '"', '$', '{', 'a', '\n', ' ', 'b', '}', ' ', '$', '{', '\'',
      '\\', 'x', '7', 'd', '\'', '"']
    let first : Embedded := ⟨⟨4, 11⟩, ⟨6, 10⟩, true, ['a', ' ', 'b'], [6, 7, 9, 10]⟩
    let second : Embedded :=
      ⟨⟨12, 20⟩, ⟨14, 20⟩, false, ['\'', '}', '\''], [14, 15, 19, 20]⟩
    embedded text = [first, second] ∧ first.offsets.Pairwise (· ≤ ·) ∧
      first.span.stop ≤ second.span.start ∧
      ∀ o, ¬(first.inner.touches o = true ∧ second.inner.touches o = true) := by
  intro text first second
  have hfound : embedded text = [first, second] := by decide
  obtain ⟨-, hall, hpairs⟩ := embedded_wellFormed text
  rw [hfound] at hall hpairs
  have hapart := (List.pairwise_cons.mp hpairs).1 second (List.mem_singleton_self _)
  exact ⟨hfound, (hall first List.mem_cons_self).2.2.1.2.1, hapart⟩

end FlowExpr
