import FlowExpr.Proofs.Text
import FlowExpr.Yaml.ScalarScan

/-!
# A key with its value

The pass over a document that is one key with one value on its line finds the key and then what
the value is:

* `Writing.entry`: the text of such a document;
* `Yaml.scanFrom_taken`: characters of a line that belong to a scalar are passed over;
* `Yaml.scalars_entry`: the scalars of an entry are its key and those of its value;
* `Yaml.scanFrom_quoted`: those of a quoted value are that one value.
-/

namespace FlowExpr

open Text (byteLength byteLength_cons not_mem_of_class)

/-- A key with its value. -/
def Writing.entry (key value : List Char) : List Char := key ++ ':' :: ' ' :: value

open Writing

namespace Yaml

/-! ## 1. The pass over a line -/

/-- The rest of a line begins with what has no line feed. -/
theorem takeWhile_line {front : List Char} (h : '\n' ∉ front) (rest : List Char) :
    (front ++ rest).takeWhile (fun c => decide (c ≠ '\n')) =
      front ++ rest.takeWhile fun c => decide (c ≠ '\n') :=
  List.takeWhile_append_of_pos fun _ hc => decide_eq_true fun e => h (e ▸ hc)

/-- Characters that are taken are passed over; on one line nothing else changes. -/
theorem scanFrom_taken (front rest : List Char) (s : ScanState) (offset : Nat)
    (h : '\n' ∉ front) : ∃ before,
      scanFrom front.length s offset (front ++ rest) =
        scanFrom 0 { s with before } (offset + byteLength front) rest := by
  induction front generalizing s offset with
  | nil => exact ⟨s.before, rfl⟩
  | cons c front ih =>
    have hc : c ≠ '\n' := fun e => h (e ▸ List.mem_cons_self)
    obtain ⟨before, hrest⟩ := ih { s with before := some c } (offset + c.utf8Size)
      fun hmem => h (List.mem_cons_of_mem _ hmem)
    refine ⟨before, ?_⟩
    rw [List.length_cons, List.cons_append, scanFrom, if_neg hc, byteLength_cons, ← Nat.add_assoc]
    exact hrest

theorem scanFrom_all_taken : ∀ (n : Nat) (s : ScanState) (offset : Nat) (cs : List Char),
    cs.length ≤ n → scanFrom n s offset cs = []
  | _, _, _, [], _ => by rw [scanFrom]
  | n + 1, s, offset, c :: cs, h => by
      rw [scanFrom]
      exact scanFrom_all_taken n _ _ cs (Nat.le_of_succ_le_succ h)

/-- Nothing, or a line feed: what may stand at the end of a document. -/
def EndsDocument (tail : List Char) : Prop := tail = [] ∨ tail = ['\n']

theorem scanFrom_end {tail : List Char} (h : EndsDocument tail) (s : ScanState) (offset : Nat) :
    scanFrom 0 s offset tail = [] := by
  rcases h with rfl | rfl
  · rw [scanFrom]
  · rfl

/-- Characters that begin something else than a plain scalar, in some place. -/
def indicators : List Char :=
  ['\n', ' ', '\t', '\r', '#', '"', '\'', '|', '>', '-', '?', ':', '[', '{', ']', '}', ',', '&',
   '!']

/-- Every other character begins a plain scalar. -/
theorem scanStep_plain {c : Char} (hc : c ∉ indicators) (s : ScanState) (offset : Nat)
    (cs : List Char) {line : List Char} {extent : Extent}
    (hline : (c :: cs).takeWhile (· ≠ '\n') = line)
    (hextent : plainExtent (0 < s.flowDepth) 0 none line = extent) :
    scanStep s offset c cs =
      ⟨if extent.content = 0 then none else some ⟨.plain, offset, line.take extent.content⟩,
        extent.looked - 1, s.flowDepth, false⟩ := by
  simp only [indicators, List.mem_cons, List.not_mem_nil, or_false, not_or] at hc
  obtain ⟨h₁, h₂, h₃, h₄, h₅, h₆, h₇, h₈, h₉, h₁₀, h₁₁, h₁₂, h₁₃, h₁₄, h₁₅, h₁₆, h₁₇, h₁₈, h₁₉⟩ :=
    hc
  have hgap : isGap c = false := by simp [isGap, h₂, h₃]
  unfold scanStep
  rw [hline]
  dsimp only
  rw [hextent]
  simp only [hgap, h₁, h₄, h₅, h₆, h₇, h₈, h₉, h₁₀, h₁₁, h₁₂, h₁₃, h₁₄, h₁₅, h₁₆, h₁₇, h₁₈, h₁₉,
    Bool.or_self, Bool.false_and, decide_false, if_false, Bool.false_eq_true]

/-! ## 2. Keys -/

/-- A key is a word of letters. -/
def IsKey (key : List Char) : Prop := key ≠ [] ∧ ∀ c ∈ key, Text.isAsciiLetter c = true

/-- A colon with a blank ends a word that is a key. -/
theorem plainExtent_key {key : List Char} (h : ∀ c ∈ key, Text.isAsciiLetter c = true)
    (rest : List Char) (before : Option Char) :
    plainExtent false 0 before (key ++ ':' :: ' ' :: rest) = ⟨key.length, key.length⟩ := by
  induction key generalizing before with
  | nil => rfl
  | cons c key ih =>
    obtain ⟨hc, hkey⟩ := List.forall_mem_cons.mp h
    have hnot : c ∉ ['$', '#', ':', ' ', '\t', '\r'] := not_mem_of_class (by decide) hc
    simp only [List.mem_cons, List.not_mem_nil, or_false, not_or] at hnot
    obtain ⟨h₁, h₂, h₃, h₄, h₅, h₆⟩ := hnot
    have hgap : isGap c = false := by simp [isGap, h₄, h₅]
    have hopens : opensExpression c (key ++ ':' :: ' ' :: rest) = false := by
      simp [opensExpression, h₁]
    rw [List.cons_append, plainExtent]
    simp only [hopens, hgap, h₂, h₃, h₆, ih hkey, Bool.false_and, Bool.or_self, decide_false,
      if_false, Bool.false_eq_true]
    rfl

/-- **The scalars of an entry are its key and those of its value.** -/
theorem scalars_entry {key : List Char} (hkey : IsKey key) (value : List Char) :
    scalars (entry key value) = ⟨.plain, 0, key⟩ ::
      scanFrom 0 ⟨0, true, some ' ', entry key value⟩ (byteLength key + 2) value := by
  obtain ⟨hne, hletters⟩ := hkey
  have hfeed : '\n' ∉ key := fun hmem => absurd (hletters _ hmem) (by decide)
  obtain ⟨c, key, rfl⟩ := List.exists_cons_of_ne_nil hne
  have hline : (entry (c :: key) value).takeWhile (· ≠ '\n') =
      c :: key ++ ':' :: ' ' :: value.takeWhile (· ≠ '\n') := takeWhile_line hfeed _
  have hstep := scanStep_plain (not_mem_of_class (by decide) (hletters c List.mem_cons_self))
    ⟨0, true, none, entry (c :: key) value⟩ 0 (key ++ ':' :: ' ' :: value) hline
    (plainExtent_key hletters _ none)
  obtain ⟨before, htaken⟩ := scanFrom_taken key (':' :: ' ' :: value)
    ⟨0, false, some c, entry (c :: key) value⟩ (0 + c.utf8Size)
    fun hmem => hfeed (List.mem_cons_of_mem _ hmem)
  have hc : ¬c = '\n' := fun e => hfeed (e ▸ List.mem_cons_self)
  show scanFrom 0 ⟨0, true, none, entry (c :: key) value⟩ 0
    (c :: (key ++ ':' :: ' ' :: value)) = _
  rw [scanFrom, if_neg hc, hstep]
  dsimp only
  rw [List.length_cons, Nat.add_sub_cancel, htaken, if_neg (Nat.succ_ne_zero _),
    ← List.length_cons, List.take_left, Nat.zero_add, ← byteLength_cons]
  rfl

/-! ## 3. Quoted values -/

section Value

variable {before : Option Char} {line tail : List Char} {offset : Nat}

/-- A step that finds a scalar and takes the rest of the line finds the last one. -/
theorem scanFrom_found {s : ScanState} {c : Char} {front : List Char} {scalar : Scalar}
    {depth : Nat} {start : Bool}
    (hstep : scanStep s offset c (front ++ tail) = ⟨some scalar, front.length, depth, start⟩)
    (hfeed : '\n' ∉ front) (htail : EndsDocument tail) :
    scanFrom 0 s offset (c :: (front ++ tail)) = [scalar] := by
  rw [scanFrom, hstep]
  dsimp only
  obtain ⟨before', htaken⟩ := scanFrom_taken front tail
    ⟨depth, start, some c, if c = '\n' then front ++ tail else s.line⟩ (offset + c.utf8Size) hfeed
  rw [htaken, scanFrom_end htail]
  rfl

/-- The style of scalars between two such quotes. -/
def styleOf (quote : Char) : Style := if quote = '"' then .doubleQuoted else .singleQuoted

/-- A quoted value, if the search for the closing quote ends at the last one. -/
theorem scanFrom_quoted {quote : Char} {body : List Char} (hq : quote = '"' ∨ quote = '\'')
    (hlength : quotedLength? quote (body ++ quote :: tail) = some body.length)
    (hbody : '\n' ∉ body) (htail : EndsDocument tail) :
    scanFrom 0 ⟨0, true, before, line⟩ offset (quote :: (body ++ [quote] ++ tail)) =
      [⟨styleOf quote, offset + 1, body⟩] := by
  have hcontent : quotedContent quote (body ++ [quote] ++ tail) = (body, body.length + 1) := by
    rw [List.append_assoc, List.singleton_append]
    unfold quotedContent
    rw [hlength]
    dsimp only
    rw [List.take_left]
  have hstep : scanStep ⟨0, true, before, line⟩ offset quote (body ++ [quote] ++ tail) =
      ⟨some ⟨styleOf quote, offset + 1, body⟩,
        (body ++ [quote]).length, 0, false⟩ := by
    rw [List.length_append]
    rcases hq with rfl | rfl
    · unfold scanStep
      rw [hcontent]
      rfl
    · unfold scanStep
      rw [hcontent]
      rfl
  have hfeed : '\n' ∉ body ++ [quote] := by
    intro hmem
    rcases List.mem_append.mp hmem with h | h
    · exact hbody h
    · have hquote := List.mem_singleton.mp h
      rcases hq with rfl | rfl <;> cases hquote
  exact scanFrom_found hstep hfeed htail

end Value

end Yaml

end FlowExpr
