import FlowExpr.Embedded
import FlowExpr.Proofs.Yaml.Scalars

/-!
# Where decoded characters come from

Decoding goes over a scalar once, so the places that its pieces come from never go back:

* `Piece.next`: the first place from which the next piece can come. Only the line feeds that
  one folded line break stands for share a place.
* `PieceRow lo ps hi`: pieces that come from places between `lo` and `hi`, in order;
* `StepAt`: what one step of decoding may give, and `Scalar.pieces_row`: what all of them give;
* `getElem?_offsets`: among the offsets of the bytes of some pieces, the one where a piece
  begins is the place of that piece. So the offsets never go back (`pairwise_offsets`), and
  they go on at every character but a line feed (`PieceRow.offset_lt`).
-/

namespace FlowExpr.Yaml

open Text (byteLength byteLength_append byteLength_cons)
open Embedded (offsetOf)

/-! ## 1. Rows of pieces -/

/-- The first place from which the next piece can come. -/
def Piece.next (p : Piece) : Nat :=
  if p.verbatim then p.source + p.char.utf8Size
  else if p.char = '\n' then p.source
  else p.source + 1

theorem Piece.source_le_next (p : Piece) : p.source ≤ p.next := by
  unfold next
  split
  · exact Nat.le_add_right _ _
  · split <;> omega

/-- Only after a line feed can a piece come from the same place. -/
theorem Piece.source_lt_next {p : Piece} (h : p.char ≠ '\n') : p.source < p.next := by
  have hsize := p.char.utf8Size_pos
  unfold next
  rw [if_neg h]
  split <;> omega

/-- The pieces come from places between two offsets, in order. -/
def PieceRow (lo : Nat) : List Piece → Nat → Prop
  | [], hi => lo ≤ hi
  | p :: ps, hi => lo ≤ p.source ∧ PieceRow p.next ps hi

namespace PieceRow

variable {lo mid hi : Nat} {ps qs : List Piece}

theorem lower {lo' : Nat} (h : PieceRow lo ps hi) (hlo : lo' ≤ lo) : PieceRow lo' ps hi := by
  cases ps with
  | nil => exact Nat.le_trans hlo h
  | cons p ps => exact ⟨Nat.le_trans hlo h.1, h.2⟩

theorem append (hp : PieceRow lo ps mid) (hq : PieceRow mid qs hi) :
    PieceRow lo (ps ++ qs) hi := by
  induction ps generalizing lo with
  | nil => exact hq.lower hp
  | cons p ps ih => exact ⟨hp.1, ih hp.2⟩

/-- What begins a row comes from a place after its lower end and before its upper one. -/
theorem le_offsetOf (h : PieceRow lo ps hi) : lo ≤ offsetOf hi ps := by
  cases ps with
  | nil => exact h
  | cons p ps => exact h.1

theorem offsetOf_le (h : PieceRow lo ps hi) : offsetOf hi ps ≤ hi := by
  induction ps generalizing lo with
  | nil => exact Nat.le_refl _
  | cons p ps ih =>
    have hrest := h.2.le_offsetOf
    have hnext := p.source_le_next
    have hend := ih h.2
    show p.source ≤ hi
    omega

/-- A row can begin where its first piece comes from. -/
theorem from_offsetOf (h : PieceRow lo ps hi) : PieceRow (offsetOf hi ps) ps hi := by
  cases ps with
  | nil => exact Nat.le_refl hi
  | cons p ps => exact ⟨Nat.le_refl _, h.2⟩

theorem of_append (h : PieceRow lo (ps ++ qs) hi) :
    PieceRow lo ps (offsetOf hi qs) ∧ PieceRow lo qs hi := by
  induction ps generalizing lo with
  | nil => exact ⟨h.le_offsetOf, h⟩
  | cons p ps ih =>
    obtain ⟨hfront, hback⟩ := ih h.2
    exact ⟨⟨h.1, hfront⟩, hback.lower (Nat.le_trans h.1 p.source_le_next)⟩

theorem drop (h : PieceRow lo ps hi) (n : Nat) : PieceRow lo (ps.drop n) hi := by
  rw [← List.take_append_drop n ps] at h
  exact h.of_append.2

end PieceRow

/-! ## 2. Steps of decoding -/

/-- What a step of decoding at a character may give: nothing, the character itself, a character
    that is written otherwise, or the line feeds of a folded break. -/
def StepAt (offset : Nat) (c : Char) (ps : List Piece) : Prop :=
  ps = [] ∨ ps = [⟨c, offset, true⟩] ∨ (∃ d, ps = [⟨d, offset, false⟩]) ∨
    ∃ n, ps = List.replicate n ⟨'\n', offset, false⟩

theorem foldBreak_stepAt (offset : Nat) (c : Char) (cs : List Char) :
    StepAt offset c (foldBreak offset c cs).1 := by
  unfold foldBreak
  dsimp only
  split
  · exact .inr (.inr (.inl ⟨' ', rfl⟩))
  · exact .inr (.inr (.inr ⟨_, List.map_replicate⟩))

theorem verbatimStep_stepAt (offset : Nat) (c : Char) (cs : List Char) :
    StepAt offset c (verbatimStep offset c cs).1 := .inr (.inl rfl)

theorem singleStep_stepAt (offset : Nat) (c : Char) (cs : List Char) :
    StepAt offset c (singleStep offset c cs).1 := by
  unfold singleStep
  split
  · exact .inr (.inr (.inl ⟨'\'', rfl⟩))
  split
  · exact foldBreak_stepAt offset c cs
  split
  · exact .inl rfl
  · exact .inr (.inl rfl)

theorem doubleStep_stepAt (offset : Nat) (c : Char) (cs : List Char) :
    StepAt offset c (doubleStep offset c cs).1 := by
  unfold doubleStep
  split
  · cases cs with
    | nil => exact .inr (.inl rfl)
    | cons next rest =>
      dsimp only
      split
      · exact .inl rfl
      split
      · exact .inr (.inr (.inl ⟨_, rfl⟩))
      · exact .inr (.inl rfl)
  split
  · exact foldBreak_stepAt offset c cs
  split
  · exact .inl rfl
  · exact .inr (.inl rfl)

/-- What a step gives comes from the character that it is at. -/
theorem StepAt.row {offset : Nat} {c : Char} {ps : List Piece} (h : StepAt offset c ps) :
    PieceRow offset ps (offset + c.utf8Size) := by
  have hsize := c.utf8Size_pos
  rcases h with rfl | rfl | ⟨d, rfl⟩ | ⟨n, rfl⟩
  · show offset ≤ _
    omega
  · exact ⟨Nat.le_refl _, Nat.le_refl _⟩
  · refine ⟨Nat.le_refl _, ?_⟩
    show (if d = '\n' then offset else offset + 1) ≤ _
    split <;> omega
  · induction n with
    | zero =>
      show offset ≤ _
      omega
    | succ n ih => exact ⟨Nat.le_refl _, ih⟩

theorem StepAt.source_eq {offset : Nat} {c : Char} {ps : List Piece} (h : StepAt offset c ps) :
    ∀ p ∈ ps, p.source = offset := by
  intro p hp
  rcases h with rfl | rfl | ⟨d, rfl⟩ | ⟨n, rfl⟩
  · cases hp
  · rw [List.mem_singleton.mp hp]
  · rw [List.mem_singleton.mp hp]
  · rw [List.eq_of_mem_replicate hp]

section Walk

variable {step : Nat → Char → List Char → List Piece × Nat}

/-- A walk whose steps keep to their characters gives its pieces in order. -/
theorem walk_row (hstep : ∀ offset c cs, StepAt offset c (step offset c cs).1)
    (n offset : Nat) (cs : List Char) :
    PieceRow offset (Text.walk step n offset cs) (offset + byteLength cs) := by
  fun_induction Text.walk step n offset cs with
  | case1 n offset => exact Nat.le_add_right _ _
  | case2 n offset c cs ih =>
    rw [byteLength_cons, ← Nat.add_assoc]
    exact ih.lower (Nat.le_add_right _ _)
  | case3 offset c cs ih =>
    -- what the step skips is left to the walk, so its pieces end with its own character
    rw [byteLength_cons, ← Nat.add_assoc]
    exact (hstep offset c cs).row.append ih

/-- Every piece comes from a place between two characters. -/
theorem walk_source (hstep : ∀ offset c cs, StepAt offset c (step offset c cs).1)
    (n offset : Nat) (cs : List Char) :
    ∀ p ∈ Text.walk step n offset cs, Text.PartAt offset cs p.source [] := by
  fun_induction Text.walk step n offset cs with
  | case1 n offset =>
    intro p hp
    cases hp
  | case2 n offset c cs ih => exact fun p hp => (ih p hp).cons c
  | case3 offset c cs ih =>
    intro p hp
    rcases List.mem_append.mp hp with hp | hp
    · rw [(hstep offset c cs).source_eq p hp]
      exact ⟨[], c :: cs, rfl, rfl⟩
    · exact (ih p hp).cons c

end Walk

/-- The step of decoding a style. -/
def Style.step : Style → Nat → Char → List Char → List Piece × Nat
  | .plain | .block => verbatimStep
  | .singleQuoted => singleStep
  | .doubleQuoted => doubleStep

theorem Scalar.pieces_eq_walk (s : Scalar) :
    s.pieces = Text.walk s.style.step 0 s.start s.raw := by
  unfold Scalar.pieces
  cases s.style <;> rfl

theorem Style.stepAt (style : Style) (offset : Nat) (c : Char) (cs : List Char) :
    StepAt offset c (style.step offset c cs).1 := by
  cases style with
  | plain | block => exact verbatimStep_stepAt offset c cs
  | singleQuoted => exact singleStep_stepAt offset c cs
  | doubleQuoted => exact doubleStep_stepAt offset c cs

/-- **The pieces of a scalar come from its characters, in order.** -/
theorem Scalar.pieces_row (s : Scalar) : PieceRow s.start s.pieces s.span.stop := by
  rw [s.pieces_eq_walk]
  exact walk_row s.style.stepAt _ _ _

theorem Scalar.pieces_source (s : Scalar) :
    ∀ p ∈ s.pieces, Text.PartAt s.start s.raw p.source [] := by
  rw [s.pieces_eq_walk]
  exact walk_source s.style.stepAt _ _ _

/-! ## 3. Offsets of bytes -/

theorem Piece.length_offsets (p : Piece) : p.offsets.length = p.char.utf8Size := by
  unfold Piece.offsets
  split <;> simp

/-- The offsets of a character begin at its place. -/
theorem Piece.exists_offsets (p : Piece) : ∃ more, p.offsets = p.source :: more := by
  obtain ⟨n, hn⟩ := Nat.exists_eq_succ_of_ne_zero (Nat.ne_of_gt p.char.utf8Size_pos)
  unfold Piece.offsets
  rw [hn]
  split
  · exact ⟨_, by rw [List.range_succ_eq_map, List.map_cons, Nat.add_zero]⟩
  · exact ⟨_, List.replicate_succ⟩

/-- The offsets of a character lie between its place and the next one, and never go back. -/
theorem Piece.offsets_between (p : Piece) :
    (∀ x ∈ p.offsets, p.source ≤ x ∧ x ≤ p.next) ∧ p.offsets.Pairwise (· ≤ ·) := by
  have hnext := p.source_le_next
  unfold Piece.offsets
  by_cases hv : p.verbatim = true
  · rw [if_pos hv]
    refine ⟨fun x hx => ?_, ?_⟩
    · obtain ⟨k, hk, rfl⟩ := List.mem_map.mp hx
      have hlt := List.mem_range.mp hk
      unfold Piece.next
      rw [if_pos hv]
      omega
    · refine List.pairwise_map.mpr (List.pairwise_lt_range.imp fun h => ?_)
      omega
  · rw [if_neg hv]
    refine ⟨fun x hx => ?_, List.pairwise_replicate.mpr (.inr (Nat.le_refl _))⟩
    rw [List.eq_of_mem_replicate hx]
    exact ⟨Nat.le_refl _, hnext⟩

theorem length_flatMap_offsets (ps : List Piece) :
    (ps.flatMap Piece.offsets).length = byteLength (ps.map Piece.char) := by
  induction ps with
  | nil => rfl
  | cons p ps ih =>
    rw [List.flatMap_cons, List.length_append, ih, p.length_offsets, List.map_cons,
      byteLength_cons]

/-- The offsets of a row lie between its ends. -/
theorem PieceRow.mem_offsets {lo hi : Nat} {ps : List Piece} (h : PieceRow lo ps hi) :
    ∀ x ∈ ps.flatMap Piece.offsets, lo ≤ x ∧ x ≤ hi := by
  induction ps generalizing lo with
  | nil =>
    intro x hx
    cases hx
  | cons p ps ih =>
    intro x hx
    have hnext := p.source_le_next
    have hrest := h.2.le_offsetOf
    have hend := h.2.offsetOf_le
    have hsource := h.1
    rw [List.flatMap_cons] at hx
    rcases List.mem_append.mp hx with hx | hx
    · have hbetween := p.offsets_between.1 x hx
      omega
    · have hbetween := ih h.2 x hx
      omega

/-- **Offsets never go back.** -/
theorem PieceRow.pairwise_offsets {lo hi : Nat} {ps : List Piece} (h : PieceRow lo ps hi) :
    (ps.flatMap Piece.offsets ++ [hi]).Pairwise (· ≤ ·) := by
  refine List.pairwise_append.mpr ⟨?_, List.pairwise_singleton _ _, fun x hx y hy => ?_⟩
  · induction ps generalizing lo with
    | nil => exact .nil
    | cons p ps ih =>
      rw [List.flatMap_cons]
      refine List.pairwise_append.mpr ⟨p.offsets_between.2, ih h.2, fun x hx y hy => ?_⟩
      exact Nat.le_trans (p.offsets_between.1 x hx).2 (h.2.mem_offsets y hy).1
  · rw [List.mem_singleton.mp hy]
    exact (h.mem_offsets x hx).2

/-- The offset of the byte after some pieces is the place from which the next piece comes. -/
theorem getElem?_offsets (front back : List Piece) (stop : Nat) :
    ((front ++ back).flatMap Piece.offsets ++ [stop])[byteLength (front.map Piece.char)]? =
      some (offsetOf stop back) := by
  rw [List.flatMap_append, List.append_assoc, ← length_flatMap_offsets,
    List.getElem?_append_right (Nat.le_refl _), Nat.sub_self]
  cases back with
  | nil => rfl
  | cons p back =>
    obtain ⟨more, hmore⟩ := p.exists_offsets
    rw [List.flatMap_cons, hmore]
    rfl

/-- The bytes of a piece have their offsets. -/
theorem getElem?_offsets_piece (front back : List Piece) (stop : Nat) (p : Piece) {k : Nat}
    (hk : k < p.char.utf8Size) :
    ((front ++ p :: back).flatMap Piece.offsets ++ [stop])[byteLength (front.map Piece.char) + k]? =
      p.offsets[k]? := by
  have hlength : k < p.offsets.length := by rwa [p.length_offsets]
  rw [List.flatMap_append, List.append_assoc, ← length_flatMap_offsets,
    List.getElem?_append_right (Nat.le_add_right _ _), Nat.add_sub_cancel_left, List.flatMap_cons,
    List.append_assoc, List.getElem?_append_left hlength]

/-- **Offsets go on at every character but a line feed.** -/
theorem PieceRow.offset_lt {lo hi : Nat} {ps : List Piece} (h : PieceRow lo ps hi)
    {front rest : List Char} {c : Char} (hchars : ps.map Piece.char = front ++ c :: rest)
    (hc : c ≠ '\n') :
    ∃ x y, (ps.flatMap Piece.offsets ++ [hi])[byteLength front]? = some x ∧
      (ps.flatMap Piece.offsets ++ [hi])[byteLength front + c.utf8Size]? = some y ∧ x < y := by
  obtain ⟨before, after, rfl, rfl, hafter⟩ := List.map_eq_append_iff.mp hchars
  obtain ⟨p, more, rfl, rfl, -⟩ := List.map_eq_cons_iff.mp hafter
  refine ⟨p.source, offsetOf hi more, getElem?_offsets before (p :: more) hi, ?_, ?_⟩
  · -- the byte after the character is the first one of the next piece
    have hsecond := getElem?_offsets (before ++ [p]) more hi
    rw [List.map_append, byteLength_append, List.append_assoc] at hsecond
    exact hsecond
  · have hback := h.of_append.2.2.le_offsetOf
    exact Nat.lt_of_lt_of_le (Piece.source_lt_next hc) hback

end FlowExpr.Yaml
