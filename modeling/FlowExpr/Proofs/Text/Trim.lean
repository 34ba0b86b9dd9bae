import FlowExpr.Text.Basic
import Mathlib.Data.List.Basic
import Mathlib.Data.List.TakeWhile

/-!
# Blanks at the ends of a text

A text is trimmed by dropping blanks from both of its ends. What is left has none there, and what
has none there is left as it is:

* `isBlank_of_graphic`, `isBlank_of_isAsciiLetter`: characters that are no blanks;
* `trim_append`: blanks in front of a text are dropped;
* `trim_append_trimmed`: blanks inside a text stay.
-/

namespace FlowExpr.Text

/-- A character of ASCII after the space is no blank. -/
theorem isBlank_of_graphic {c : Char} (hspace : 32 < c.toNat) (hascii : c.toNat < 128) :
    isBlank c = false := by
  have hne : c ≠ ' ' := by
    rintro rfl
    exact absurd hspace (by decide)
  have hcontrol : ¬c.toNat ≤ 13 := by omega
  have h : isAscii c = true := decide_eq_true hascii
  rw [isBlank, if_pos h]
  simp [hne, hcontrol]

theorem isBlank_of_isAsciiLetter {c : Char} (h : isAsciiLetter c = true) : isBlank c = false := by
  have hrange : 97 ≤ c.toNat ∧ c.toNat ≤ 122 ∨ 65 ≤ c.toNat ∧ c.toNat ≤ 90 := by
    simpa [isAsciiLetter, Char.le_def, UInt32.le_iff_toNat_le] using h
  exact isBlank_of_graphic (by omega) (by omega)

theorem trimLeft_append {lead cs : List Char} (h : ∀ c ∈ lead, isBlank c = true) :
    trimLeft (lead ++ cs) = trimLeft cs := List.dropWhile_append_of_pos h

theorem trim_append {lead cs : List Char} (h : ∀ c ∈ lead, isBlank c = true) :
    trim (lead ++ cs) = trim cs := by
  rw [trim, trimLeft_append h, trim]

theorem trimLeft_cons {c : Char} {cs : List Char} (h : isBlank c = false) :
    trimLeft (c :: cs) = c :: cs := List.dropWhile_cons_of_neg (by simp [h])

theorem trimLeft_of_trim_eq {cs : List Char} (h : trim cs = cs) : trimLeft cs = cs := by
  have hright : (trim cs).length ≤ (trimLeft cs).length := by
    have hsuffix := (List.dropWhile_suffix isBlank (l := (trimLeft cs).reverse)).length_le
    rw [List.length_reverse] at hsuffix
    rwa [trim, trimRight, List.length_reverse]
  rw [h] at hright
  exact (List.dropWhile_suffix isBlank).eq_of_length_le hright

theorem trimRight_of_trim_eq {cs : List Char} (h : trim cs = cs) : trimRight cs = cs := by
  rw [trim, trimLeft_of_trim_eq h] at h
  exact h

/-- A text without blanks at its ends does not end with one. -/
theorem isBlank_last {c : Char} {cs : List Char} (h : trim (cs ++ [c]) = cs ++ [c]) :
    isBlank c = false := by
  have hstays : (c :: cs.reverse).dropWhile isBlank = c :: cs.reverse := by
    have hlast := congrArg List.reverse (trimRight_of_trim_eq h)
    rwa [trimRight, List.reverse_reverse, List.reverse_concat] at hlast
  have hfirst := List.dropWhile_eq_self_iff.mp hstays (Nat.zero_lt_succ _)
  simpa using hfirst

theorem eq_nil_of_trim_eq {front blanks : List Char}
    (h : trim (front ++ blanks) = front ++ blanks) (hblanks : ∀ c ∈ blanks, isBlank c = true) :
    blanks = [] := by
  rcases List.eq_nil_or_concat' blanks with rfl | ⟨init, c, rfl⟩
  · rfl
  · rw [← List.append_assoc] at h
    have hlast := isBlank_last h
    have hblank := hblanks c (by simp)
    rw [hlast] at hblank
    cases hblank

/-- A text has no blanks at its ends if it begins with none and ends with a text that has none. -/
theorem trim_append_trimmed {c : Char} {front back : List Char} (hc : isBlank c = false)
    (hback : trim back = back) (hne : back ≠ []) :
    trim (c :: front ++ back) = c :: front ++ back := by
  rcases List.eq_nil_or_concat' back with rfl | ⟨init, d, rfl⟩
  · exact absurd rfl hne
  · have hlast : ¬isBlank d = true := by
      rw [isBlank_last hback]
      decide
    have hreverse : (c :: (front ++ (init ++ [d]))).reverse =
        d :: (c :: (front ++ init)).reverse := by simp
    rw [List.cons_append, trim, trimLeft_cons hc, trimRight, hreverse,
      List.dropWhile_cons_of_neg hlast, ← hreverse, List.reverse_reverse]

end FlowExpr.Text
