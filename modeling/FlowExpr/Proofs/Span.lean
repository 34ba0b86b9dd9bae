import FlowExpr.Span

/-!
# Ranges in a row

Scalars, expressions, tokens and steps all come as ranges that follow one another. This file
fixes the notions that say so:

* `Span.Inside s t`: the range `s` is one (its ends are in order), and it lies in `t`;
* `Span.Row lo spans hi`: ranges between the offsets `lo` and `hi`, each of which begins where
  the one before it ended, or later;
* `Span.Before s t`: the range `s` is over before a caret can be at `t`;
* `Span.Disjoint s t`: the ranges do not overlap, in whatever order.

Rows can be joined and widened; their members lie inside and do not overlap.
-/

namespace FlowExpr.Span

/-- The range has its ends in order and lies in another one. -/
def Inside (s t : Span) : Prop := t.start ≤ s.start ∧ s.start ≤ s.stop ∧ s.stop ≤ t.stop

/-- The place where a range begins lies where the range does. -/
theorem Inside.empty_start {s t : Span} (h : s.Inside t) : (empty s.start).Inside t :=
  ⟨h.1, Nat.le_refl _, Nat.le_trans h.2.1 h.2.2⟩

/-- The first range ends before the second one begins, with a gap unless the second is empty. -/
def Before (s t : Span) : Prop := s.stop ≤ t.start ∧ (t.start < t.stop → s.stop < t.start)

/-- One of the ranges ends before the other one begins. -/
def Disjoint (s t : Span) : Prop := s.stop ≤ t.start ∨ t.stop ≤ s.start

/-- The ranges follow one another between two offsets. -/
def Row (lo : Nat) : List Span → Nat → Prop
  | [], hi => lo ≤ hi
  | s :: rest, hi => lo ≤ s.start ∧ s.start ≤ s.stop ∧ Row s.stop rest hi

theorem Row.le {lo hi : Nat} {spans : List Span} (h : Row lo spans hi) : lo ≤ hi := by
  induction spans generalizing lo with
  | nil => exact h
  | cons s rest ih =>
    obtain ⟨h₁, h₂, h₃⟩ := h
    have hrest := ih h₃
    omega

theorem Row.append {lo mid hi : Nat} {xs ys : List Span} (hx : Row lo xs mid)
    (hy : Row mid ys hi) : Row lo (xs ++ ys) hi := by
  induction xs generalizing lo with
  | nil =>
    -- the second row begins at `mid`, which is not before `lo`
    cases ys with
    | nil => exact Nat.le_trans hx hy
    | cons s rest => exact ⟨Nat.le_trans hx hy.1, hy.2⟩
  | cons s rest ih => exact ⟨hx.1, hx.2.1, ih hx.2.2⟩

theorem Row.of_append {lo hi : Nat} {xs ys : List Span} (h : Row lo (xs ++ ys) hi) :
    ∃ mid, Row lo xs mid ∧ Row mid ys hi := by
  induction xs generalizing lo with
  | nil => exact ⟨lo, Nat.le_refl _, h⟩
  | cons s xs ih =>
    obtain ⟨mid, hx, hy⟩ := ih h.2.2
    exact ⟨mid, ⟨h.1, h.2.1, hx⟩, hy⟩

/-- The members of a row that follow some of them are a row from where the last of those ended. -/
theorem Row.from_last {lo hi : Nat} {xs ys : List Span} (h : Row lo (xs ++ ys) hi) :
    Row lo xs ((xs.getLast?.map stop).getD lo) ∧ Row ((xs.getLast?.map stop).getD lo) ys hi := by
  induction xs generalizing lo with
  | nil => exact ⟨Nat.le_refl _, h⟩
  | cons s xs ih =>
    have hlast : ((s :: xs).getLast?.map stop).getD lo = (xs.getLast?.map stop).getD s.stop := by
      rw [List.getLast?_cons]
      cases xs.getLast? <;> rfl
    obtain ⟨hx, hy⟩ := ih h.2.2
    rw [hlast]
    exact ⟨⟨h.1, h.2.1, hx⟩, hy⟩

theorem Row.mono {lo lo' hi hi' : Nat} {spans : List Span} (h : Row lo spans hi)
    (hlo : lo' ≤ lo) (hhi : hi ≤ hi') : Row lo' spans hi' := by
  have hfront : Row lo' [] lo := hlo
  have hback : Row hi [] hi' := hhi
  have hwide := (hfront.append h).append hback
  rwa [List.nil_append, List.append_nil] at hwide

/-- Rows inside the members of a row, one after the other, are a row. -/
theorem Row.flatMap {α β : Type} {lo hi : Nat} {xs : List α} {outer : α → Span}
    {items : α → List β} {inner : β → Span} (h : Row lo (xs.map outer) hi)
    (hitems : ∀ x ∈ xs, Row (outer x).start ((items x).map inner) (outer x).stop) :
    Row lo ((xs.flatMap items).map inner) hi := by
  induction xs generalizing lo with
  | nil => exact h
  | cons x xs ih =>
    obtain ⟨h₁, -, h₃⟩ := h
    rw [List.flatMap_cons, List.map_append]
    have hfirst := hitems x List.mem_cons_self
    have hrest := ih h₃ fun y hy => hitems y (List.mem_cons_of_mem _ hy)
    exact (hfirst.mono h₁ (Nat.le_refl _)).append hrest

/-- A member of a row lies between the ends of the row. -/
theorem Row.inside {lo hi : Nat} {spans : List Span} (h : Row lo spans hi) {s : Span}
    (hs : s ∈ spans) : s.Inside ⟨lo, hi⟩ := by
  induction spans generalizing lo with
  | nil => exact absurd hs List.not_mem_nil
  | cons t rest ih =>
    obtain ⟨h₁, h₂, h₃⟩ := h
    rcases List.mem_cons.mp hs with rfl | hs
    · exact ⟨h₁, h₂, h₃.le⟩
    · obtain ⟨i₁, i₂, i₃⟩ := ih h₃ hs
      exact ⟨Nat.le_trans (Nat.le_trans h₁ h₂) i₁, i₂, i₃⟩

/-- **Members of a row do not overlap**: each ends before those after it begin. -/
theorem Row.pairwise {lo hi : Nat} {spans : List Span} (h : Row lo spans hi) :
    spans.Pairwise fun s t => s.stop ≤ t.start := by
  induction spans generalizing lo with
  | nil => exact .nil
  | cons s rest ih => exact .cons (fun t ht => (h.2.2.inside ht).1) (ih h.2.2)

/-- Ranges that lie between two offsets and do not overlap, in their order, are a row. -/
theorem Row.of_pairwise {lo hi : Nat} {spans : List Span} (hle : lo ≤ hi)
    (hin : ∀ s ∈ spans, s.Inside ⟨lo, hi⟩) (h : spans.Pairwise fun s t => s.stop ≤ t.start) :
    Row lo spans hi := by
  induction spans generalizing lo with
  | nil => exact hle
  | cons s rest ih =>
    obtain ⟨hfirst, hrest⟩ := List.pairwise_cons.mp h
    obtain ⟨h₁, h₂, h₃⟩ := hin s List.mem_cons_self
    refine ⟨h₁, h₂, ih h₃ (fun t ht => ?_) hrest⟩
    obtain ⟨-, hforward, hend⟩ := hin t (List.mem_cons_of_mem _ ht)
    exact ⟨hfirst t ht, hforward, hend⟩

/-- Some members of a row, in their order, are a row. -/
theorem Row.sublist {lo hi : Nat} {xs ys : List Span} (h : Row lo ys hi) (hs : xs.Sublist ys) :
    Row lo xs hi :=
  Row.of_pairwise h.le (fun _ hx => h.inside (hs.subset hx)) (h.pairwise.sublist hs)

/-- At most one member of a row contains an offset, so the first one found is the only one. -/
theorem Row.find?_contains {α : Type} {f : α → Span} {xs : List α} {lo hi : Nat}
    (h : Row lo (xs.map f) hi) {x : α} (hx : x ∈ xs) {o : Nat} (ho : (f x).contains o = true) :
    xs.find? (fun y => (f y).contains o) = some x := by
  induction xs generalizing lo with
  | nil => exact absurd hx List.not_mem_nil
  | cons y rest ih =>
    obtain ⟨-, -, hrest⟩ := h
    have hxo := contains_iff.mp ho
    rw [List.find?_cons]
    rcases List.mem_cons.mp hx with rfl | hx
    · rw [ho]
    · -- `x` begins after the end of `y`
      have hlate : (f y).stop ≤ (f x).start := (hrest.inside (List.mem_map_of_mem hx)).1
      have hy : (f y).contains o = false := by
        refine Bool.eq_false_iff.mpr fun hyo => ?_
        have hyo' := contains_iff.mp hyo
        omega
      rw [hy]
      exact ih hrest hx

end FlowExpr.Span
