/-!
# Byte ranges

Every token, node, symbol and diagnostic carries the range of the text it stands for. A range
is half open and counts bytes of the UTF-8 form of the text, so that it can be handed to an
editor as it is.

* `Span.cover` is the smallest range around two ranges;
* `Span.touches` is the test for a caret (the end counts as inside);
* `Span.contains` is the strict test.
-/

namespace FlowExpr

/-- Half-open byte range `[start, stop)` of a text. -/
structure Span where
  start : Nat
  stop : Nat
  deriving DecidableEq, Repr, Inhabited

namespace Span

/-- The empty range at an offset. -/
def empty (offset : Nat) : Span := ⟨offset, offset⟩

/-- Number of bytes in the range. -/
def length (s : Span) : Nat := s.stop - s.start

/-- A range without bytes. -/
def isEmpty (s : Span) : Bool := s.start == s.stop

/-- Smallest range that covers both. -/
def cover (s t : Span) : Span := ⟨min s.start t.start, max s.stop t.stop⟩

/-- Test for a caret: one placed right after the last byte still touches the range. -/
def touches (s : Span) (offset : Nat) : Bool := s.start ≤ offset && offset ≤ s.stop

/-- Strict test: `start ≤ offset < stop`. -/
def contains (s : Span) (offset : Nat) : Bool := s.start ≤ offset && offset < s.stop

/-- The two ranges share a byte. -/
def overlaps (s t : Span) : Bool := s.start < t.stop && t.start < s.stop

/-! ## 1. What the tests say -/

theorem touches_iff {s : Span} {o : Nat} : s.touches o = true ↔ s.start ≤ o ∧ o ≤ s.stop := by
  simp [touches]

theorem contains_iff {s : Span} {o : Nat} : s.contains o = true ↔ s.start ≤ o ∧ o < s.stop := by
  simp [contains]

/-- A range that contains an offset is also touched by it. -/
theorem touches_of_contains {s : Span} {o : Nat} (h : s.contains o = true) :
    s.touches o = true := by
  rw [contains_iff] at h
  exact touches_iff.mpr ⟨h.1, Nat.le_of_lt h.2⟩

@[simp] theorem cover_self (s : Span) : s.cover s = s := by simp [cover]

end Span

end FlowExpr
