import FlowExpr.Proofs.Analysis.Positions
import FlowExpr.Proofs.Token.Tiling
import Mathlib.Data.List.Chain

/-!
# What the range of a token cuts out of the document

The range of a token in a document ends where the next character of its expression comes from. If
that is right after the token, the range cuts out what the token was written as. But decoding
leaves characters out: blanks before a line break that is folded, and an escaped line break with
the blanks after it. They come to the range of the token before them:

* `Yaml.Style.drops`: the characters that decoding a style may leave out;
* `Yaml.walk_lead`, `Yaml.walk_copied`: between a copied character and the next piece, only such
  characters stand;
* `Yaml.Scalar.part_of_copied`: a run of copied characters stands in the scalar as it is, with
  what was left out after it;
* `Embedded.Holds`: the pieces of a scalar from which a range of an expression was decoded.
-/

namespace FlowExpr

open Text (byteLength byteLength_append byteLength_cons)
open Embedded (offsetOf)

namespace Yaml

/-! ## 1. What decoding leaves out -/

/-- The characters that decoding a style may leave out. -/
def Style.drops : Style → Char → Bool
  | .plain, _ | .block, _ => false
  | .singleQuoted, c => isGap c
  | .doubleQuoted, c => isGapOrLineEnd c || c == '\\'

/-- Plain and block scalars leave nothing out. -/
theorem Style.eq_nil_of_drops {style : Style} (hstyle : style = .plain ∨ style = .block)
    {dropped : List Char} (h : ∀ d ∈ dropped, style.drops d = true) : dropped = [] := by
  refine List.eq_nil_iff_forall_not_mem.mpr fun d hd => ?_
  have hdrop := h d hd
  rcases hstyle with rfl | rfl <;> cases hdrop

/-- What a step leaves out, and that a step that copies its character takes no other. -/
structure Omits (drops : Char → Bool) (c : Char) (cs : List Char) (given : List Piece × Nat) :
    Prop where
  dropped : given.1 = [] → ∀ d ∈ c :: cs.take given.2, drops d = true
  copied : ∀ p ∈ given.1, p.verbatim = true → given.2 = 0

/-- A step that copies its character. -/
theorem omits_copy (drops : Char → Bool) (p : Piece) (c : Char) (cs : List Char) :
    Omits drops c cs ([p], 0) := ⟨nofun, fun _ _ _ => rfl⟩

/-- A step that reads its character as another one. -/
theorem omits_escape (drops : Char → Bool) {p : Piece} (hp : p.verbatim = false) (n : Nat)
    (c : Char) (cs : List Char) : Omits drops c cs ([p], n) := by
  refine ⟨nofun, fun q hq hv => ?_⟩
  rw [List.mem_singleton.mp hq, hp] at hv
  cases hv

theorem omits_foldBreak (drops : Char → Bool) (offset : Nat) (c : Char) (cs : List Char) :
    Omits drops c cs (foldBreak offset c cs) := by
  unfold foldBreak
  refine ⟨fun hnil => ?_, fun p hp hv => ?_⟩
  · -- a line break is never left out: it gives at least one piece
    dsimp only at hnil
    split at hnil
    · cases hnil
    · have hlength := congrArg List.length hnil
      simp only [List.length_map, List.length_replicate, List.length_nil] at hlength
      omega
  · obtain ⟨d, -, rfl⟩ := List.mem_map.mp hp
    cases hv

/-- A blank before a line break is left out. -/
theorem omits_gap {drops : Char → Bool} {c : Char} (hc : drops c = true) (cs : List Char) :
    Omits drops c cs ([], 0) := by
  refine ⟨fun _ d hd => ?_, fun _ hp => absurd hp List.not_mem_nil⟩
  rw [List.take_zero, List.mem_singleton] at hd
  rw [hd]
  exact hc

/-- An escaped line break takes carriage returns, a line feed and blanks. -/
theorem mem_take_escapedBreakLength {cs : List Char} {d : Char}
    (hd : d ∈ cs.take (escapedBreakLength cs)) : isGapOrLineEnd d = true := by
  -- as many characters as fit a test in a row are those characters
  have hrow : ∀ (p : Char → Bool) (ds : List Char), d ∈ ds.take (ds.takeWhile p).length →
      p d = true := by
    intro p ds h
    rw [← List.prefix_iff_eq_take.mp (List.takeWhile_prefix p)] at h
    exact List.mem_takeWhile_imp h
  unfold escapedBreakLength at hd
  dsimp only at hd
  rw [List.take_add, List.take_add, List.mem_append, List.mem_append, ← List.drop_drop] at hd
  rcases hd with (hreturn | hfeed) | hgap
  · have h := hrow _ cs hreturn
    simp [isGapOrLineEnd, isLineEnd, h]
  · split at hfeed
    · rename_i hhead
      rw [List.take_one, hhead, Option.toList_some, List.mem_singleton] at hfeed
      rw [hfeed]
      rfl
    · rw [List.take_zero] at hfeed
      exact absurd hfeed List.not_mem_nil
  · have h := hrow isGap _ hgap
    simp [isGapOrLineEnd, h]

theorem omits_singleStep (offset : Nat) (c : Char) (cs : List Char) :
    Omits (Style.drops .singleQuoted) c cs (singleStep offset c cs) := by
  unfold singleStep
  split
  · exact omits_escape _ rfl 1 c cs
  split
  · exact omits_foldBreak _ offset c cs
  split
  · rename_i hgap
    exact omits_gap (Bool.and_eq_true_iff.mp hgap).1 cs
  · exact omits_copy _ _ c cs

theorem omits_doubleStep (offset : Nat) (c : Char) (cs : List Char) :
    Omits (Style.drops .doubleQuoted) c cs (doubleStep offset c cs) := by
  unfold doubleStep
  split
  · rename_i hc
    cases cs with
    | nil => exact omits_copy _ _ c []
    | cons next rest =>
      dsimp only
      split
      · refine ⟨fun _ d hd => ?_, fun _ hp => absurd hp List.not_mem_nil⟩
        rcases List.mem_cons.mp hd with rfl | hd
        · simp [Style.drops, hc]
        · simp [Style.drops, mem_take_escapedBreakLength hd]
      split
      · exact omits_escape _ rfl _ c _
      · exact omits_copy _ _ c _
  split
  · exact omits_foldBreak _ offset c cs
  split
  · rename_i hgap
    refine omits_gap ?_ cs
    simp [Style.drops, isGapOrLineEnd, (Bool.and_eq_true_iff.mp hgap).1]
  · exact omits_copy _ _ c cs

theorem Style.omits (style : Style) (offset : Nat) (c : Char) (cs : List Char) :
    Omits style.drops c cs (style.step offset c cs) := by
  cases style with
  | plain | block => exact omits_copy _ _ c cs
  | singleQuoted => exact omits_singleStep offset c cs
  | doubleQuoted => exact omits_doubleStep offset c cs

/-! ## 2. Between two pieces -/

/-- A step that copies anything copies its character, and gives nothing else. -/
theorem StepAt.eq_of_verbatim {offset : Nat} {c : Char} {ps : List Piece} (h : StepAt offset c ps)
    {p : Piece} (hp : p ∈ ps) (hv : p.verbatim = true) : ps = [⟨c, offset, true⟩] := by
  rcases h with rfl | rfl | ⟨d, rfl⟩ | ⟨n, rfl⟩
  · cases hp
  · rfl
  · rw [List.mem_singleton.mp hp] at hv
    cases hv
  · rw [List.eq_of_mem_replicate hp] at hv
    cases hv

section Walk

variable {step : Nat → Char → List Char → List Piece × Nat} {drops : Char → Bool}

/-- Before the first piece of a walk there is nothing but what it leaves out. -/
theorem walk_lead (hat : ∀ offset c cs, StepAt offset c (step offset c cs).1)
    (homits : ∀ offset c cs, Omits drops c cs (step offset c cs)) (n offset : Nat)
    (cs : List Char) :
    ∃ dropped rest, cs.drop n = dropped ++ rest ∧ (∀ d ∈ dropped, drops d = true) ∧
      offset + byteLength (cs.take n) + byteLength dropped =
        offsetOf (offset + byteLength cs) (Text.walk step n offset cs) := by
  fun_induction Text.walk step n offset cs with
  | case1 n offset =>
    rw [List.drop_nil, List.take_nil]
    exact ⟨[], [], rfl, fun _ h => absurd h List.not_mem_nil, rfl⟩
  | case2 n offset c cs ih =>
    obtain ⟨dropped, rest, hrest, hdropped, hplace⟩ := ih
    refine ⟨dropped, rest, hrest, hdropped, ?_⟩
    rw [List.take_succ_cons, byteLength_cons, byteLength_cons, ← Nat.add_assoc, ← Nat.add_assoc]
    exact hplace
  | case3 offset c cs ih =>
    cases hgiven : (step offset c cs).1 with
    | nil =>
      obtain ⟨dropped, rest, hrest, hdropped, hplace⟩ := ih
      refine ⟨c :: cs.take (step offset c cs).2 ++ dropped, rest, ?_, fun d hd => ?_, ?_⟩
      · rw [List.drop_zero, List.cons_append, List.cons_append, List.append_assoc, ← hrest,
          List.take_append_drop]
      · rcases List.mem_append.mp hd with hd | hd
        · exact (homits offset c cs).dropped hgiven d hd
        · exact hdropped d hd
      · rw [List.nil_append, byteLength_append, byteLength_cons, byteLength_cons, List.take_zero,
          ← Nat.add_assoc offset c.utf8Size, ← hplace]
        simp only [byteLength]
        omega
    | cons p given =>
      have hsource := (hat offset c cs).source_eq p (by rw [hgiven]; exact List.mem_cons_self)
      exact ⟨[], c :: cs, rfl, fun _ h => absurd h List.not_mem_nil, hsource.symm⟩

/-- **A copied character stands where it comes from**, and up to the next piece only what is left
    out follows it. -/
theorem walk_copied (hat : ∀ offset c cs, StepAt offset c (step offset c cs).1)
    (homits : ∀ offset c cs, Omits drops c cs (step offset c cs)) (n offset : Nat)
    (cs : List Char) : ∀ front p back, Text.walk step n offset cs = front ++ p :: back →
      p.verbatim = true → ∃ dropped, Text.PartAt offset cs p.source (p.char :: dropped) ∧
        (∀ d ∈ dropped, drops d = true) ∧
        p.source + byteLength (p.char :: dropped) = offsetOf (offset + byteLength cs) back := by
  fun_induction Text.walk step n offset cs with
  | case1 => exact fun front p back h => by simp at h
  | case2 n offset c cs ih =>
    intro front p back h hv
    obtain ⟨dropped, hpart, hdropped, hplace⟩ := ih front p back h hv
    rw [byteLength_cons c, ← Nat.add_assoc]
    exact ⟨dropped, hpart.cons c, hdropped, hplace⟩
  | case3 offset c cs ih =>
    intro front p back h hv
    have hlater : ∀ front, Text.walk step (step offset c cs).2 (offset + c.utf8Size) cs =
        front ++ p :: back → _ := fun front h => ih front p back h hv
    rw [byteLength_cons c, ← Nat.add_assoc]
    rcases List.append_eq_append_iff.mp h with ⟨more, -, hrest⟩ | ⟨more, hgiven, hrest⟩
    · obtain ⟨dropped, hpart, hdropped, hplace⟩ := hlater more hrest
      exact ⟨dropped, hpart.cons c, hdropped, hplace⟩
    · cases more with
      | nil =>
        obtain ⟨dropped, hpart, hdropped, hplace⟩ := hlater [] hrest.symm
        exact ⟨dropped, hpart.cons c, hdropped, hplace⟩
      | cons q more =>
        -- the step itself copied the character, and took no other
        obtain ⟨rfl, rfl⟩ := List.cons.inj hrest
        have hmem : p ∈ (step offset c cs).1 := by
          rw [hgiven]
          exact List.mem_append_right _ List.mem_cons_self
        have htaken := (homits offset c cs).copied p hmem hv
        have honly := (hat offset c cs).eq_of_verbatim hmem hv
        rw [hgiven, List.append_eq_singleton_iff] at honly
        simp only [List.cons_ne_nil, and_false, or_false, List.cons.injEq] at honly
        obtain ⟨-, rfl, rfl⟩ := honly
        obtain ⟨dropped, rest, hrest, hdropped, hplace⟩ :=
          walk_lead hat homits (step offset c cs).2 (offset + c.utf8Size) cs
        rw [htaken, List.drop_zero] at hrest
        refine ⟨dropped, ⟨[], rest, by rw [hrest]; rfl, rfl⟩, hdropped, ?_⟩
        show offset + byteLength (c :: dropped) = offsetOf (offset + c.utf8Size + byteLength cs)
          (Text.walk step (step offset c cs).2 (offset + c.utf8Size) cs)
        rw [← hplace, htaken, List.take_zero, byteLength_cons, ← Nat.add_assoc]
        rfl

end Walk

/-! ## 3. Runs of copied characters -/

/-- The bytes of a copied character come one after another. -/
theorem getElem?_offsets_of_verbatim (front back : List Piece) (stop : Nat) {p : Piece}
    (hv : p.verbatim = true) {k : Nat} (hk : k < p.char.utf8Size) :
    ((front ++ p :: back).flatMap Piece.offsets ++ [stop])[byteLength (front.map Piece.char) + k]? =
      some (p.source + k) := by
  rw [getElem?_offsets_piece front back stop p hk, Piece.offsets, if_pos hv, List.getElem?_map,
    List.getElem?_range hk]
  rfl

/-- The second piece comes from right after the first. -/
def Piece.Adjoins (p q : Piece) : Prop := q.source = p.source + p.char.utf8Size

namespace Scalar

variable {s : Scalar} {p : Piece} {front rest back : List Piece}

/-- A copied character of a scalar, and what is left out after it. -/
theorem copied_part (hpieces : s.pieces = front ++ p :: back) (hv : p.verbatim = true) :
    ∃ dropped, Text.PartAt s.start s.raw p.source (p.char :: dropped) ∧
      (∀ d ∈ dropped, s.style.drops d = true) ∧
      p.source + byteLength (p.char :: dropped) = offsetOf s.span.stop back := by
  rw [pieces_eq_walk] at hpieces
  exact walk_copied s.style.stepAt s.style.omits 0 s.start s.raw front p back hpieces hv

/-- **A run of copied characters stands in the scalar as it is**, and up to the next piece only
    what is left out follows it. -/
theorem part_of_copied (hpieces : s.pieces = front ++ (p :: rest) ++ back)
    (hv : ∀ q ∈ p :: rest, q.verbatim = true) (hrun : (p :: rest).IsChain Piece.Adjoins) :
    ∃ dropped, Text.PartAt s.start s.raw p.source ((p :: rest).map Piece.char ++ dropped) ∧
      (∀ d ∈ dropped, s.style.drops d = true) ∧
      p.source + byteLength ((p :: rest).map Piece.char ++ dropped) =
        offsetOf s.span.stop back := by
  induction rest generalizing front p with
  | nil =>
    rw [List.append_assoc] at hpieces
    exact copied_part hpieces (hv p List.mem_cons_self)
  | cons q rest ih =>
    obtain ⟨hnext, htail⟩ := List.isChain_cons_cons.mp hrun
    have hsplit : s.pieces = (front ++ [p]) ++ (q :: rest) ++ back := by
      rw [hpieces]
      simp
    obtain ⟨dropped, hpart, hdropped, hplace⟩ :=
      ih hsplit (fun r hr => hv r (List.mem_cons_of_mem _ hr)) htail
    rw [List.append_assoc] at hpieces
    obtain ⟨after, hfirst, -⟩ := copied_part hpieces (hv p List.mem_cons_self)
    have hchar : Text.PartAt s.start s.raw p.source ([p.char] ++ after) := hfirst
    have hnext' : q.source = p.source + byteLength [p.char] := by
      rw [hnext]
      rfl
    rw [hnext'] at hpart hplace
    refine ⟨dropped, hchar.left.append hpart, hdropped, ?_⟩
    rw [← hplace, List.map_cons, List.cons_append, byteLength_cons, ← Nat.add_assoc]
    rfl

/-- Plain and block scalars copy every character, one after another. -/
theorem copies_all (hstyle : s.style = .plain ∨ s.style = .block) :
    (∀ q ∈ s.pieces, q.verbatim = true) ∧ s.pieces.IsChain Piece.Adjoins := by
  have hstep : s.style.step = verbatimStep := by
    rcases hstyle with h | h <;> rw [h] <;> rfl
  have hcopy : ∀ q ∈ s.pieces, q.verbatim = true := by
    rw [pieces_eq_walk, hstep]
    generalize s.start = offset
    generalize s.raw = cs
    induction cs generalizing offset with
    | nil => exact fun _ h => absurd h List.not_mem_nil
    | cons c cs ih =>
      intro q hq
      rcases List.mem_cons.mp hq with rfl | hq
      · rfl
      · exact ih _ q hq
  refine ⟨hcopy, List.isChain_iff_forall_rel_of_append_cons_cons.mpr ?_⟩
  intro p q front back hpieces
  have hp : p ∈ s.pieces := by
    rw [hpieces]
    exact List.mem_append_right _ List.mem_cons_self
  obtain ⟨dropped, -, hdropped, hplace⟩ := copied_part hpieces (hcopy p hp)
  rw [Style.eq_nil_of_drops hstyle hdropped] at hplace
  exact hplace.symm

end Scalar

end Yaml

/-! ## 4. Ranges of an expression -/

open Yaml

/-- The pieces of a scalar from which a range of an expression was decoded. -/
def Embedded.Holds (e : Embedded) (s : Scalar) (span : Span) (ps : List Piece) : Prop :=
  ∃ front before after back, s.pieces = front ++ (before ++ ps ++ after) ++ back ∧
    e.ReadFrom s.span.stop front (before ++ ps ++ after) back ∧
    span.start = byteLength (before.map Piece.char) ∧
    span.stop = span.start + byteLength (ps.map Piece.char)

/-- Every part of an expression was decoded from some pieces. -/
theorem exists_holds {text : List Char} {e : Embedded} (he : e ∈ embedded text) {place : Nat}
    {part : List Char} (hpart : Text.PartAt 0 e.source place part) :
    ∃ s ∈ scalars text, ∃ ps, ps.map Piece.char = part ∧
      e.Holds s ⟨place, place + byteLength part⟩ ps := by
  obtain ⟨s, hs, front, inner, back, hpieces, hread⟩ := embedded_readFrom he
  obtain ⟨before, after, hsource, rfl⟩ := hpart
  rw [hread.source] at hsource
  obtain ⟨inner', after', rfl, hinner, -⟩ := List.map_eq_append_iff.mp hsource
  obtain ⟨before', ps, rfl, rfl, rfl⟩ := List.map_eq_append_iff.mp hinner
  exact ⟨s, hs, ps, rfl, front, before', after', back, hpieces, hread, Nat.zero_add _, rfl⟩

namespace Embedded.Holds

variable {e : Embedded} {s : Scalar} {span : Span} {p : Piece} {ps rest : List Piece}

/-- A range begins where its first piece comes from, and ends where the piece after it does. -/
theorem places (h : e.Holds s span (p :: rest)) :
    ∃ front back, s.pieces = front ++ (p :: rest) ++ back ∧
      mappedOffset e.offsets span.start = p.source ∧
      mappedOffset e.offsets span.stop = offsetOf s.span.stop back := by
  obtain ⟨front, before, after, back, hpieces, hread, hstart, hstop⟩ := h
  refine ⟨front ++ before, after ++ back, by rw [hpieces]; simp, ?_, ?_⟩
  · have hfirst := getElem?_offsets before (p :: rest ++ after) e.inner.stop
    rw [← List.append_assoc, ← hread.offsets, ← hstart] at hfirst
    exact mappedOffset_of_getElem? hfirst
  · have hlast := getElem?_offsets (before ++ (p :: rest)) after e.inner.stop
    rw [← hread.offsets, List.map_append, byteLength_append, ← hstart, ← hstop] at hlast
    rw [offsetOf_append, ← hread.innerStop]
    exact mappedOffset_of_getElem? hlast

/-- Copied characters whose bytes come one after another adjoin. -/
theorem isChain (h : e.Holds s span ps) (hv : ∀ q ∈ ps, q.verbatim = true)
    (hnext : ∀ i, span.start ≤ i → i + 1 < span.stop →
      mappedOffset e.offsets (i + 1) = mappedOffset e.offsets i + 1) :
    ps.IsChain Piece.Adjoins := by
  obtain ⟨front, before, after, back, -, hread, hstart, hstop⟩ := h
  refine List.isChain_iff_forall_rel_of_append_cons_cons.mpr fun p q l l' hps => ?_
  subst hps
  have hsize := p.char.utf8Size_pos
  have hcopied := hv p (List.mem_append_right _ List.mem_cons_self)
  have hinner : before ++ (l ++ p :: q :: l') ++ after =
      before ++ l ++ p :: (q :: l' ++ after) := by
    simp
  have hlast := getElem?_offsets_of_verbatim (before ++ l) (q :: l' ++ after) e.inner.stop hcopied
    (Nat.sub_lt hsize Nat.one_pos)
  have hfirst := getElem?_offsets (before ++ l ++ [p]) (q :: l' ++ after) e.inner.stop
  rw [List.append_assoc (before ++ l), List.singleton_append, ← hinner, ← hread.offsets,
    List.map_append, byteLength_append] at hfirst
  rw [← hinner, ← hread.offsets] at hlast
  rw [List.map_append, byteLength_append] at hlast hfirst hstop
  simp only [List.map_cons, List.map_nil, byteLength_cons] at hlast hfirst hstop
  have hone : byteLength [] = 0 := rfl
  have hqsize := q.char.utf8Size_pos
  -- the last byte of the first character, and the first one of the second
  have hstep := hnext (byteLength (before.map Piece.char) + byteLength (l.map Piece.char) +
    (p.char.utf8Size - 1)) (by omega) (by omega)
  have hindex : byteLength (before.map Piece.char) + byteLength (l.map Piece.char) +
      (p.char.utf8Size - 1) + 1 = byteLength (before.map Piece.char) +
        byteLength (l.map Piece.char) + (p.char.utf8Size + byteLength []) := by omega
  rw [hindex, mappedOffset_of_getElem? hfirst, mappedOffset_of_getElem? hlast] at hstep
  show q.source = p.source + p.char.utf8Size
  have hplace : q.source = p.source + (p.char.utf8Size - 1) + 1 := hstep
  omega

/-- **A range of copied characters that adjoin** cuts them out, with what is left out after them. -/
theorem part (h : e.Holds s span (p :: rest)) {text : List Char} (hs : s ∈ scalars text)
    (hv : ∀ q ∈ p :: rest, q.verbatim = true) (hrun : (p :: rest).IsChain Piece.Adjoins) :
    ∃ dropped, (∀ c ∈ dropped, s.style.drops c = true) ∧
      Text.PartAt 0 text (mappedOffset e.offsets span.start)
        ((p :: rest).map Piece.char ++ dropped) ∧
      mappedOffset e.offsets span.stop = mappedOffset e.offsets span.start +
        byteLength ((p :: rest).map Piece.char ++ dropped) := by
  obtain ⟨front, back, hpieces, hstart, hstop⟩ := h.places
  obtain ⟨dropped, hpart, hdropped, hplace⟩ := Scalar.part_of_copied hpieces hv hrun
  rw [hstart, hstop]
  exact ⟨dropped, hdropped, (scalars_parts hs).trans hpart, hplace.symm⟩

end Embedded.Holds

/-! ## 5. Tokens -/

/-- Bytes that come one after another are as far apart in the document as in the expression. -/
theorem place_add {place : Nat → Nat} {start stop : Nat}
    (hnext : ∀ i, start ≤ i → i + 1 < stop → place (i + 1) = place i + 1) :
    ∀ k, start + k < stop → place (start + k) = place start + k
  | 0, _ => rfl
  | k + 1, hk => by
      rw [← Nat.add_assoc, hnext (start + k) (by omega) hk, place_add hnext k (by omega)]
      rfl

/-- **Ranges and spelling.** A token of an expression was decoded from pieces of a scalar. If all
    of them were copied and their bytes come one after another, the range up to the last byte of
    the token cuts out its text; the range up to the next character of the expression may have
    more, but only what decoding leaves out. Plain and block scalars leave nothing out. -/
theorem embedded_spelling {text : List Char} {e : Embedded} (he : e ∈ embedded text) {t : Token}
    (ht : t ∈ (lex e.source 0).tokens) (hk : t.kind ≠ .eof) :
    let place : Nat → Nat := mappedOffset e.offsets
    ∃ s ∈ scalars text, ∃ ps, e.Holds s t.span ps ∧ ps.map Piece.char = t.text.toList ∧
      ((∀ p ∈ ps, p.verbatim = true) →
        (∀ i, t.span.start ≤ i → i + 1 < t.span.stop → place (i + 1) = place i + 1) →
        Text.sliceBytes? (place t.span.start) (place (t.span.stop - 1) + 1) text =
            some t.text.toList ∧
          ∃ dropped, (∀ c ∈ dropped, s.style.drops c = true) ∧
            Text.sliceBytes? (place t.span.start) (place t.span.stop) text =
              some (t.text.toList ++ dropped)) ∧
      (s.style = .plain ∨ s.style = .block →
        Text.sliceBytes? (place t.span.start) (place t.span.stop) text = some t.text.toList) := by
  intro place
  have htiles : Tiles 0 e.source (lex e.source 0).tokens := lexFrom_tiles 0 0 e.source
  obtain ⟨hne, hpart, hstop⟩ := htiles.part t ht hk
  obtain ⟨s, hs, ps, hchars, hholds⟩ := exists_holds he hpart
  rw [← hstop] at hholds
  refine ⟨s, hs, ps, hholds, hchars, ?_⟩
  cases ps with
  | nil => exact absurd hchars.symm hne
  | cons p rest =>
    constructor
    · intro hv hnext
      obtain ⟨dropped, hdropped, hcut, hend⟩ :=
        hholds.part hs hv (hholds.isChain hv hnext)
      rw [hchars] at hcut hend
      have hlast : place (t.span.stop - 1) + 1 =
          place t.span.start + byteLength t.text.toList := by
        have hpos : 0 < byteLength t.text.toList := Text.byteLength_pos hne
        have hbytes := place_add hnext (byteLength t.text.toList - 1) (by omega)
        have hindex : t.span.start + (byteLength t.text.toList - 1) = t.span.stop - 1 := by omega
        rw [hindex] at hbytes
        omega
      refine ⟨?_, dropped, hdropped, ?_⟩
      · rw [hlast]
        exact hcut.left.sliceBytes?
      · show Text.sliceBytes? _ (mappedOffset e.offsets t.span.stop) text = _
        rw [hend]
        exact hcut.sliceBytes?
    · intro hstyle
      obtain ⟨hcopied, hchain⟩ := Scalar.copies_all hstyle
      obtain ⟨front, back, hpieces, -, -⟩ := hholds.places
      have hamong : (p :: rest) <:+: s.pieces := ⟨front, back, hpieces.symm⟩
      have hrow := List.IsChain.infix hchain hamong
      obtain ⟨dropped, hdropped, hcut, hend⟩ :=
        hholds.part hs (fun q hq => hcopied q (hamong.subset hq)) hrow
      rw [hchars, Style.eq_nil_of_drops hstyle hdropped, List.append_nil] at hcut hend
      show Text.sliceBytes? _ (mappedOffset e.offsets t.span.stop) text = _
      rw [hend]
      exact hcut.sliceBytes?

/-- A name before a blank and a line break, `"${a ⏎}"`: up to its last byte the range cuts out the
    name, up to the next character something that is left out comes to it. -/
theorem embedded_spelling_folded :
    let text := ['k', ':', ' ', '"', '$', '{', 'a', ' ', '\n', '}', '"']
    Text.sliceBytes? 6 7 text = some ['a'] ∧
      ∃ dropped, (∀ c ∈ dropped, Style.doubleQuoted.drops c = true) ∧
        Text.sliceBytes? 6 8 text = some ('a' :: dropped) := by
  intro text
  have he : (⟨⟨4, 10⟩, ⟨6, 9⟩, true, ['a', ' '], [6, 8, 9]⟩ : Embedded) ∈ embedded text := by decide
  have ht : (⟨.identifier "a", "a", ⟨0, 1⟩⟩ : Token) ∈ (lex ['a', ' '] 0).tokens := by decide
  obtain ⟨s, hs, ps, hholds, hchars, hcopied, -⟩ := embedded_spelling he ht (by decide)
  have hall : ∀ s ∈ scalars text, ∀ p ∈ s.pieces,
      p.char = 'a' → s.style = .doubleQuoted ∧ p.verbatim = true := by decide
  obtain ⟨p, rest, rfl, hp, hrest⟩ := List.map_eq_cons_iff.mp hchars
  obtain rfl := List.map_eq_nil_iff.mp hrest
  obtain ⟨front, back, hpieces, -, -⟩ := hholds.places
  obtain ⟨hstyle, hv⟩ := hall s hs p (by rw [hpieces]; simp) hp
  rw [hstyle] at hcopied
  refine hcopied (fun q hq => List.mem_singleton.mp hq ▸ hv) fun i _ hi => ?_
  have hone : i + 1 < 1 := hi
  omega

/-- **The range of a token may have more than its text**, though all of it was copied: in
    `"${a ⏎}"` the name `a` gets the blank after it. -/
theorem embedded_spelling_trimmed_blank :
    let text := ['k', ':', ' ', '"', '$', '{', 'a', ' ', '\n', '}', '"']
    let e : Embedded := ⟨⟨4, 10⟩, ⟨6, 9⟩, true, ['a', ' '], [6, 8, 9]⟩
    let t : Token := ⟨.identifier "a", "a", ⟨0, 1⟩⟩
    e ∈ embedded text ∧ t ∈ (lex e.source 0).tokens ∧
      (∃ s ∈ scalars text, e.Holds s t.span [⟨'a', 6, true⟩]) ∧
      Text.sliceBytes? (mappedOffset e.offsets t.span.start) (mappedOffset e.offsets t.span.stop)
        text = some ['a', ' '] ∧ t.text.toList = ['a'] := by
  intro text e t
  let s : Scalar := ⟨.doubleQuoted, 4, ['$', '{', 'a', ' ', '\n', '}']⟩
  have hread : e.ReadFrom s.span.stop [⟨'$', 4, true⟩, ⟨'{', 5, true⟩]
      ([] ++ [⟨'a', 6, true⟩] ++ [⟨' ', 8, false⟩]) [⟨'}', 9, true⟩] :=
    { source := rfl
      offsets := rfl
      innerStart := rfl
      innerStop := rfl
      opening := by decide
      closing := by decide
      first := .inr ⟨⟨'$', 4, true⟩, List.mem_cons_self, rfl⟩
      last := .inl rfl }
  refine ⟨by decide, by decide, ⟨s, by decide, _, _, _, _, by decide, hread, rfl, rfl⟩,
    by decide, by decide⟩

end FlowExpr
