import FlowExpr.Text.Basic

/-!
# Parts of a text

Where characters stand in a text, counted in bytes. `Text.PartAt base text place part` says that
in a text that begins at `base`, the characters `part` stand at `place`. Parts of parts are
parts, and a part is what a cut by bytes gives (`Text.PartAt.sliceBytes?`), so no cut at the
ends of a part goes through a character.
-/

namespace FlowExpr.Text

/-- The characters stand at a place of a text that begins at an offset. -/
def PartAt (base : Nat) (text : List Char) (place : Nat) (part : List Char) : Prop :=
  ∃ front rest, text = front ++ part ++ rest ∧ place = base + byteLength front

theorem PartAt.cons {base place : Nat} {text part : List Char} (c : Char)
    (h : PartAt (base + c.utf8Size) text place part) : PartAt base (c :: text) place part := by
  obtain ⟨front, rest, rfl, rfl⟩ := h
  exact ⟨c :: front, rest, rfl, Nat.add_assoc ..⟩

/-- The place of a part counted from the beginning of its text. -/
theorem PartAt.from_zero {base place : Nat} {text part : List Char}
    (h : PartAt base text place part) : PartAt 0 text (place - base) part := by
  obtain ⟨front, rest, htext, hplace⟩ := h
  exact ⟨front, rest, htext, by omega⟩

/-- A part of a part is a part. -/
theorem PartAt.trans {base place place' : Nat} {text part part' : List Char}
    (h : PartAt base text place part) (h' : PartAt place part place' part') :
    PartAt base text place' part' := by
  obtain ⟨front, rest, rfl, rfl⟩ := h
  obtain ⟨front', rest', rfl, rfl⟩ := h'
  refine ⟨front ++ front', rest' ++ rest, by simp, ?_⟩
  rw [byteLength_append, Nat.add_assoc]

/-- A text is cut at every place between two of its parts. -/
theorem splitBytes?_append (front rest : List Char) :
    splitBytes? (byteLength front) (front ++ rest) = some (front, rest) := by
  induction front with
  | nil => simp [splitBytes?]
  | cons c front ih =>
    have hc := c.utf8Size_pos
    obtain ⟨n, hn⟩ : ∃ n, byteLength (c :: front) = n + 1 :=
      Nat.exists_eq_succ_of_ne_zero (by rw [byteLength_cons]; omega)
    have hrest : n + 1 - c.utf8Size = byteLength front := by
      rw [byteLength_cons] at hn
      omega
    have hle : c.utf8Size ≤ n + 1 := by
      rw [byteLength_cons] at hn
      omega
    rw [hn, List.cons_append, splitBytes?, if_pos hle, hrest, ih]
    rfl

theorem PartAt.isSome_splitBytes? {place : Nat} {text part : List Char}
    (h : PartAt 0 text place part) : (splitBytes? place text).isSome = true := by
  obtain ⟨front, rest, rfl, rfl⟩ := h
  rw [Nat.zero_add, List.append_assoc, splitBytes?_append]
  rfl

/-- **A part is what the cut at its place and length gives.** -/
theorem PartAt.sliceBytes? {place : Nat} {text part : List Char} (h : PartAt 0 text place part) :
    sliceBytes? place (place + byteLength part) text = some part := by
  obtain ⟨front, rest, rfl, rfl⟩ := h
  have hforward : ¬ 0 + byteLength front + byteLength part < 0 + byteLength front := by omega
  have hlength : 0 + byteLength front + byteLength part - (0 + byteLength front) =
      byteLength part := by omega
  unfold Text.sliceBytes?
  rw [if_neg hforward, hlength, Nat.zero_add, List.append_assoc, splitBytes?_append]
  show (splitBytes? (byteLength part) (part ++ rest)).bind _ = some part
  rw [splitBytes?_append]
  rfl

/-- Two beginnings of a text that take the same number of bytes are the same. -/
theorem append_inj_of_byteLength {xs ys xs' ys' : List Char} (h : xs ++ ys = xs' ++ ys')
    (hlength : byteLength xs = byteLength xs') : xs = xs' ∧ ys = ys' := by
  have hsplit := splitBytes?_append xs ys
  rw [h, hlength, splitBytes?_append] at hsplit
  obtain ⟨hxs, hys⟩ := Prod.mk.inj (Option.some.inj hsplit)
  exact ⟨hxs.symm, hys.symm⟩

/-- Parts that follow one another are one part. -/
theorem PartAt.append {base place : Nat} {text xs ys : List Char}
    (hx : PartAt base text place xs) (hy : PartAt base text (place + byteLength xs) ys) :
    PartAt base text place (xs ++ ys) := by
  obtain ⟨front, rest, htext, hplace⟩ := hx
  obtain ⟨front', rest', htext', hplace'⟩ := hy
  rw [List.append_assoc] at htext'
  have hfront := append_inj_of_byteLength (htext.symm.trans htext') (by
    rw [byteLength_append]
    omega)
  refine ⟨front, rest', ?_, hplace⟩
  rw [htext, hfront.2]
  simp

/-- A beginning of a part stands at its place. -/
theorem PartAt.left {base place : Nat} {text xs ys : List Char}
    (h : PartAt base text place (xs ++ ys)) : PartAt base text place xs := by
  obtain ⟨front, rest, htext, hplace⟩ := h
  exact ⟨front, ys ++ rest, by rw [htext]; simp, hplace⟩

/-- What a class leaves out is none of its characters. -/
theorem not_mem_of_class {p : Char → Bool} {cs : List Char} {c : Char}
    (hp : cs.any p = false) (h : p c = true) : c ∉ cs :=
  fun hmem => List.any_eq_false.mp hp c hmem h

/-- Every character takes a byte. -/
theorem byteLength_pos {cs : List Char} (h : cs ≠ []) : 0 < byteLength cs := by
  cases cs with
  | nil => exact absurd rfl h
  | cons c cs =>
    have hc := c.utf8Size_pos
    rw [byteLength_cons]
    omega

theorem length_le_byteLength (cs : List Char) : cs.length ≤ byteLength cs := by
  induction cs with
  | nil => exact Nat.le_refl _
  | cons c cs ih =>
    have hc := c.utf8Size_pos
    rw [byteLength_cons, List.length_cons]
    omega

/-- A longer beginning of a text takes no fewer bytes. -/
theorem byteLength_le_of_prefix {xs ys : List Char} (h : xs <+: ys) :
    byteLength xs ≤ byteLength ys := by
  obtain ⟨rest, rfl⟩ := h
  rw [byteLength_append]
  exact Nat.le_add_right _ _

end FlowExpr.Text
