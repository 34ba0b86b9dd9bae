import FlowExpr.FlowDoc
import FlowExpr.Proofs.Text.Lines
import Mathlib.Data.List.TakeWhile

/-!
# Documentation blocks

The block above a key is found from its end: the line above the key has to be a delimiter, and
the lines above that are taken while they are comments, up to another delimiter. Read from the
top this is a delimiter, comment lines, and a delimiter:

* `Lines.startsFrom_append`, `Lines.pairwise_startsFrom`: lines with their offsets;
* `FlowDoc.above?_eq_some_iff`: the lines that make a block, and what is read of them.
-/

namespace FlowExpr

open Text (byteLength)

namespace Lines

theorem startsFrom_append (offset : Nat) (xs ys : List (List Char)) :
    startsFrom offset (xs ++ ys) =
      startsFrom offset xs ++ startsFrom (offset + bytesThrough xs) ys := by
  induction xs generalizing offset with
  | nil => rfl
  | cons line xs ih =>
    rw [List.cons_append, startsFrom, ih, startsFrom, bytesThrough_cons, List.cons_append]
    congr 3
    omega

theorem map_snd_startsFrom (offset : Nat) (lines : List (List Char)) :
    (startsFrom offset lines).map Prod.snd = lines := by
  induction lines generalizing offset with
  | nil => rfl
  | cons line lines ih => rw [startsFrom, List.map_cons, ih]

/-- The first lines of a text, with their offsets. -/
theorem take_withStarts {ls : Lines} {xs ys : List (List Char)} (h : ls.lines = xs ++ ys) :
    ls.withStarts.take xs.length = startsFrom 0 xs := by
  have hlength : (startsFrom 0 xs).length = xs.length := by
    rw [← List.length_map Prod.snd, map_snd_startsFrom]
  rw [withStarts, h, startsFrom_append, ← hlength, List.take_left]

theorem le_of_mem_startsFrom {lines : List (List Char)} {offset : Nat} {entry : Nat × List Char}
    (h : entry ∈ startsFrom offset lines) : offset ≤ entry.1 := by
  induction lines generalizing offset with
  | nil => cases h
  | cons line lines ih =>
    rcases List.mem_cons.mp h with rfl | h
    · exact Nat.le_refl _
    · have hlater := ih h
      omega

/-- A line begins after the lines before it. -/
theorem pairwise_startsFrom (offset : Nat) (lines : List (List Char)) :
    (startsFrom offset lines).Pairwise fun a b => a.1 + byteLength a.2 < b.1 := by
  induction lines generalizing offset with
  | nil => exact .nil
  | cons line lines ih =>
    exact .cons (fun entry hentry => le_of_mem_startsFrom hentry) (ih _)

end Lines

namespace FlowDoc

theorem not_isInner_of_isDelimiter {line : List Char} (h : isDelimiter line = true) :
    isInner line = false := by
  rw [isInner, h]
  exact Bool.and_false _

/-- **A block is a delimiter, comment lines and a delimiter**, right above the line of the key. -/
theorem above?_eq_some_iff {lines : Lines} {keyLine : Nat} {doc : FlowDoc} :
    above? lines keyLine = some doc ↔ keyLine ≤ lines.count + 1 ∧
      ∃ earlier opening inner closing,
        lines.withStarts.take (keyLine - 1) = earlier ++ opening :: (inner ++ [closing]) ∧
        isDelimiter opening.2 = true ∧ isDelimiter closing.2 = true ∧
        (∀ entry ∈ inner, isInner entry.2 = true) ∧ doc = ofLines opening closing inner := by
  constructor
  · fun_cases above? lines keyLine with
    | case2 hcount closing rest hlines hclosing inner opening earlier hrest hopening =>
      rintro ⟨⟩
      have hsplit : rest = inner ++ opening :: earlier := by
        rw [← hrest]
        exact (List.prefix_iff_eq_append.mp (List.takeWhile_prefix _)).symm
      refine ⟨hcount, earlier.reverse, opening, inner.reverse, closing, ?_, hopening, hclosing,
        fun entry hentry => ?_, rfl⟩
      · rw [← List.reverse_reverse (lines.withStarts.take _), hlines, hsplit]
        simp
      · have htaken := List.mem_takeWhile_imp (List.mem_reverse.mp hentry)
        exact htaken
    | case1 | case3 | case4 | case5 | case6 => nofun
  · rintro ⟨hcount, earlier, opening, inner, closing, hlines, hopening, hclosing, hinner, rfl⟩
    have hreverse : (lines.withStarts.take (keyLine - 1)).reverse =
        closing :: (inner.reverse ++ opening :: earlier.reverse) := by
      rw [hlines]
      simp
    have htaken : (inner.reverse ++ opening :: earlier.reverse).takeWhile
        (fun entry => isInner entry.2) = inner.reverse := by
      have hinner : ∀ entry ∈ inner.reverse, isInner entry.2 = true := fun entry hentry =>
        hinner entry (List.mem_reverse.mp hentry)
      rw [List.takeWhile_append_of_pos hinner,
        List.takeWhile_cons_of_neg (by rw [not_isInner_of_isDelimiter hopening]; decide),
        List.append_nil]
    unfold above?
    rw [if_pos hcount, hreverse]
    dsimp only
    rw [if_pos hclosing, htaken, List.drop_left]
    dsimp only
    rw [if_pos hopening, List.reverse_reverse]

end FlowDoc

end FlowExpr
