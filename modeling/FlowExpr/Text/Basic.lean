import FlowExpr.Text.Class

/-!
# Texts as lists of characters

A text is read as the list of its characters; an offset into it counts the bytes of the UTF-8
form. This file holds the measure that joins the two and the cuts made with it.

* `byteLength`: bytes of a list of characters;
* `splitBytes?`: the cut at a byte offset, if a character begins or the text ends there;
* `trim`, `trimLeft`, `trimRight`: the text without blanks at its ends;
* `lower`: ASCII letters in lower case.
-/

namespace FlowExpr.Text

/-- Bytes that the characters take in UTF-8. -/
def byteLength : List Char → Nat
  | [] => 0
  | c :: cs => c.utf8Size + byteLength cs

@[simp] theorem byteLength_nil : byteLength [] = 0 := rfl

@[simp] theorem byteLength_cons (c : Char) (cs : List Char) :
    byteLength (c :: cs) = c.utf8Size + byteLength cs := rfl

@[simp] theorem byteLength_append (cs ds : List Char) :
    byteLength (cs ++ ds) = byteLength cs + byteLength ds := by
  induction cs with
  | nil => simp
  | cons c cs ih => simp [ih, Nat.add_assoc]

/-- Cut at a byte offset. There is none inside a character or past the end. -/
def splitBytes? : Nat → List Char → Option (List Char × List Char)
  | 0, cs => some ([], cs)
  | _ + 1, [] => none
  | n + 1, c :: cs =>
    if c.utf8Size ≤ n + 1 then
      (splitBytes? (n + 1 - c.utf8Size) cs).map fun parts => (c :: parts.1, parts.2)
    else none

/-- **A cut loses nothing and its first part has the asked length.** -/
theorem splitBytes?_eq_some {n : Nat} {cs front rest : List Char}
    (h : splitBytes? n cs = some (front, rest)) :
    cs = front ++ rest ∧ byteLength front = n := by
  fun_induction splitBytes? n cs generalizing front rest with
  | case1 cs => simp_all
  | case2 => simp at h
  | case3 n c cs hle ih =>
    obtain ⟨parts, hp, he⟩ := Option.map_eq_some_iff.mp h
    obtain ⟨rfl, rfl⟩ := Prod.mk.inj he
    obtain ⟨hcs, hlen⟩ := ih hp
    refine ⟨by rw [hcs]; rfl, ?_⟩
    simp only [byteLength_cons, hlen]
    omega
  | case4 => simp at h

/-- The part of a text from one byte offset to another, where both are cuts. -/
def sliceBytes? (start stop : Nat) (cs : List Char) : Option (List Char) := do
  if stop < start then none
  else
    let (_, rest) ← splitBytes? start cs
    let (middle, _) ← splitBytes? (stop - start) rest
    return middle

/-- The text without blanks at its start. -/
def trimLeft (cs : List Char) : List Char := cs.dropWhile isBlank

/-- The text without blanks at its end. -/
def trimRight (cs : List Char) : List Char := (cs.reverse.dropWhile isBlank).reverse

/-- The text without blanks at either end. -/
def trim (cs : List Char) : List Char := trimRight (trimLeft cs)

/-- ASCII letters in lower case; other characters as they are. -/
def lower (cs : List Char) : List Char := cs.map Char.toLower

/-- Lines as one text, every line with its line feed. -/
def unlines (lines : List String) : String := String.join (lines.map fun l => l ++ "\n")

/-- The rest of a text after a given beginning, if it begins so. -/
def after? : List Char → List Char → Option (List Char)
  | [], cs => some cs
  | _ :: _, [] => none
  | p :: ps, c :: cs => if p = c then after? ps cs else none

/-- What follows the beginning is the rest of the text. -/
theorem after?_eq_some_iff {p cs rest : List Char} :
    after? p cs = some rest ↔ cs = p ++ rest := by
  fun_induction after? p cs with
  | case1 cs => simp [eq_comm]
  | case2 => simp
  | case3 p ps cs ih => simp [ih]
  | case4 p ps c cs hne =>
    simp only [List.cons_append, List.cons.injEq]
    constructor
    · simp
    · intro h
      exact absurd h.1.symm hne

end FlowExpr.Text
