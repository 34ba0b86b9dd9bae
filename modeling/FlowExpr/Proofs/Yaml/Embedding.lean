import FlowExpr.Proofs.Text.Lines
import FlowExpr.Proofs.Yaml.Braces
import FlowExpr.Proofs.Yaml.Quoting

/-!
# Writing an expression into a document and finding it again

An expression that parses can be written as the value of a key in each style of scalar, and the
pass over the document finds exactly this expression, as it was:

* `Writing.enclosed`, `Writing.doubleQuoted`, `Writing.singleQuoted`, `Writing.block`: the texts
  that are written;
* `pieces_doubleQuoted`, `pieces_singleQuoted`: decoding undoes the quoting;
* `inPieces_enclosed`: the expression is found in the decoded text. The brace that ends it is
  the one that its writer put there (`expressionLength?_of_parseExpression`).
-/

namespace FlowExpr

open Yaml
open Text (byteLength not_mem_of_class)

/-! ## 1. Texts -/

namespace Writing

/-- The expression between its delimiters. -/
def enclosed (source : List Char) : List Char := '$' :: '{' :: (source ++ ['}'])

/-- A character between double quotes: backslash, quote and line breaks are escaped. -/
def doubleEscape (c : Char) : List Char :=
  if c = '\\' ∨ c = '"' then ['\\', c]
  else if c = '\n' then ['\\', 'n']
  else if c = '\r' then ['\\', 'r']
  else [c]

/-- The text between double quotes. -/
def doubleQuoted (cs : List Char) : List Char := '"' :: (cs.flatMap doubleEscape ++ ['"'])

/-- The text between single quotes. -/
def singleQuoted (cs : List Char) : List Char := '\'' :: (cs.flatMap singleEscape ++ ['\''])

/-- The text as the one line of a block, indented by one more than the given number, after a
    header that begins with the sign of the block. -/
def block (sign : Char) (header : List Char) (indent : Nat) (cs : List Char) : List Char :=
  sign :: (header ++ '\n' :: (List.replicate (indent + 1) ' ' ++ cs))

end Writing

open Writing

/-! ## 2. Decoding -/

/-- The characters of a text that stands as it is. -/
theorem pieces_verbatim (offset : Nat) (cs : List Char) :
    (Text.walk verbatimStep 0 offset cs).map Piece.char = cs := by
  induction cs generalizing offset with
  | nil => rfl
  | cons c cs ih =>
    have hstep : verbatimStep offset c ([] ++ cs) = ([⟨c, offset, true⟩], 0) := rfl
    have hwalk := walk_spelling hstep
    rw [List.nil_append] at hwalk
    rw [hwalk, List.map_cons, ih]

/-- Each character is written in one of the ways that are undone. -/
theorem spelled_doubleEscape (cs : List Char) :
    List.Forall₂ DoubleSpelling cs (cs.map doubleEscape) := by
  refine List.forall₂_map_right_iff.mpr (List.forall₂_same.mpr fun c _ => ?_)
  unfold doubleEscape
  by_cases h₁ : c = '\\' ∨ c = '"'
  · rw [if_pos h₁]
    refine .short ?_
    rcases h₁ with rfl | rfl <;> decide
  · rw [if_neg h₁]
    by_cases h₂ : c = '\n'
    · rw [if_pos h₂, h₂]
      exact .short (by decide)
    · rw [if_neg h₂]
      by_cases h₃ : c = '\r'
      · rw [if_pos h₃, h₃]
        exact .short (by decide)
      · rw [if_neg h₃]
        exact .self (fun h => h₁ (.inl h)) (fun h => h₁ (.inr h)) (by simp [isLineEnd, h₂, h₃])

theorem spelled_singleEscape {cs : List Char} (h : ∀ c ∈ cs, isLineEnd c = false) :
    List.Forall₂ SingleSpelling cs (cs.map singleEscape) :=
  List.forall₂_map_right_iff.mpr (List.forall₂_same.mpr fun c hc => ⟨h c hc, rfl⟩)

theorem not_isLineEnd_doubleEscape (cs : List Char) :
    ∀ c ∈ cs.flatMap doubleEscape, isLineEnd c = false :=
  undone_double.lines (spelled_doubleEscape cs)

/-- **Decoding undoes the escapes between double quotes.** -/
theorem pieces_doubleQuoted (offset : Nat) (cs : List Char) :
    (Text.walk doubleStep 0 offset (cs.flatMap doubleEscape)).map Piece.char = cs :=
  (undone_double.walk (spelled_doubleEscape cs) offset).1

/-- The first quote that no backslash takes is the closing one. -/
theorem doubleQuotedLength?_escaped (cs rest : List Char) :
    doubleQuotedLength? (cs.flatMap doubleEscape ++ '"' :: rest) =
      some (cs.flatMap doubleEscape).length :=
  undone_double.quotedLength? (spelled_doubleEscape cs) rfl

theorem not_isLineEnd_singleEscape {cs : List Char} (h : ∀ c ∈ cs, isLineEnd c = false) :
    ∀ c ∈ cs.flatMap singleEscape, isLineEnd c = false :=
  undone_single.lines (spelled_singleEscape h)

/-- **Decoding undoes the doubled quotes between single quotes.** -/
theorem pieces_singleQuoted (offset : Nat) {cs : List Char}
    (h : ∀ c ∈ cs, isLineEnd c = false) :
    (Text.walk singleStep 0 offset (cs.flatMap singleEscape)).map Piece.char = cs :=
  (undone_single.walk (spelled_singleEscape h) offset).1

/-- The first quote that is not doubled is the closing one. -/
theorem singleQuotedLength?_escaped (cs : List Char) {rest : List Char}
    (h : rest.head? ≠ some '\'') :
    singleQuotedLength? (cs.flatMap singleEscape ++ '\'' :: rest) =
      some (cs.flatMap singleEscape).length := by
  induction cs with
  | nil => exact singleQuotedLength?_close h
  | cons c cs ih =>
    rw [List.flatMap_cons, List.append_assoc, singleQuotedLength?_escape, ih, Option.map_some,
      List.length_append, Nat.add_comm]

/-! ## 3. Finding expressions in pieces -/

/-- Exactly one expression was found, it was closed, and it is the given one. -/
def FoundOnly (source : List Char) (found : List Embedded) : Prop :=
  ∃ e, found = [e] ∧ e.terminated = true ∧ e.source = source

namespace Embedded

theorem inPieces_taken (stop : Nat) : ∀ (n : Nat) (before : Option Char) (ps : List Piece),
    ps.length ≤ n → inPieces stop n before ps = []
  | _, _, [], _ => by rw [inPieces]
  | n + 1, _, p :: ps, h => by
      rw [inPieces]
      exact inPieces_taken stop n _ ps (Nat.le_of_succ_le_succ h)

/-- Without a dollar sign there is no expression. -/
theorem inPieces_plain (stop : Nat) (ps : List Piece) (h : ∀ p ∈ ps, p.char ≠ '$') :
    ∀ before, inPieces stop 0 before ps = [] := by
  induction ps with
  | nil =>
    intro before
    rw [inPieces]
  | cons p ps ih =>
    intro before
    obtain ⟨hp, hps⟩ := List.forall_mem_cons.mp h
    rw [inPieces, decide_eq_false hp, Bool.false_and, Bool.false_and]
    exact ih hps _

/-- Pieces without a dollar sign or a backslash in front change nothing. -/
theorem inPieces_skip (stop : Nat) (ps qs : List Piece)
    (h : ∀ p ∈ ps, p.char ≠ '$' ∧ p.char ≠ '\\') (before : Option Char)
    (hb : before ≠ some '\\') :
    ∃ before', before' ≠ some '\\' ∧
      inPieces stop 0 before (ps ++ qs) = inPieces stop 0 before' qs := by
  induction ps generalizing before with
  | nil => exact ⟨before, hb, rfl⟩
  | cons p ps ih =>
    obtain ⟨⟨hp, hs⟩, hps⟩ := List.forall_mem_cons.mp h
    obtain ⟨before', hb', hskip⟩ := ih hps (some p.char) fun e => hs (Option.some.inj e)
    refine ⟨before', hb', ?_⟩
    rw [List.cons_append, inPieces, decide_eq_false hp, Bool.false_and, Bool.false_and]
    exact hskip

/-- **An enclosed expression is found**, if the search for its closing brace ends where the
    expression does. -/
theorem inPieces_enclosed {source : List Char} {ps : List Piece} (stop : Nat)
    (hlength : expressionLength? (source ++ ['}']) = some source.length)
    (hps : ps.map Piece.char = enclosed source) {before : Option Char}
    (hb : before ≠ some '\\') : FoundOnly source (inPieces stop 0 before ps) := by
  obtain ⟨dollar, ps, rfl, hdollar, hps⟩ := List.map_eq_cons_iff.mp hps
  obtain ⟨left, content, rfl, hleft, hcontent⟩ := List.map_eq_cons_iff.mp hps
  have hsize : content.length = source.length + 1 := by
    rw [← List.length_map Piece.char, hcontent, List.length_append]
    rfl
  have hopen : (decide (dollar.char = '$') && decide ((List.head? (left :: content)).map
      Piece.char = some '{') && decide (before ≠ some '\\')) = true := by
    rw [decide_eq_true hdollar, decide_eq_true hb, List.head?_cons, Option.map_some, hleft]
    rfl
  rw [inPieces, if_pos hopen]
  dsimp only
  rw [List.drop_succ_cons, List.drop_zero, region, hcontent, hlength]
  have hrest : inPieces stop (source.length + 1 + 1) (some dollar.char) (left :: content) = [] :=
    inPieces_taken _ _ _ _ (Nat.le_of_eq (congrArg (· + 1) hsize))
  rw [hrest]
  exact ⟨_, rfl, rfl, List.take_left⟩

end Embedded

/-! ## 4. Values -/

namespace Yaml

section Value

variable {before : Option Char} {line tail : List Char} {offset : Nat}

theorem plainExtent_taken (inFlow : Bool) : ∀ (n : Nat) (before : Option Char) (cs : List Char),
    cs.length ≤ n → plainExtent inFlow n before cs = ⟨cs.length, cs.length⟩
  | _, _, [], _ => by
      rw [plainExtent]
      rfl
  | n + 1, _, c :: cs, h => by
      rw [plainExtent, plainExtent_taken inFlow n _ cs (Nat.le_of_succ_le_succ h)]
      rfl

theorem feed_not_mem_enclosed {source : List Char} (h : '\n' ∉ source) :
    '\n' ∉ enclosed source := by
  intro hmem
  rcases List.mem_cons.mp hmem with e | hmem
  · cases e
  · rcases List.mem_cons.mp hmem with e | hmem
    · cases e
    · rcases List.mem_append.mp hmem with hmem | hmem
      · exact h hmem
      · cases List.mem_singleton.mp hmem

/-- A plain value is an expression up to its closing brace. -/
theorem scanFrom_plain {source : List Char}
    (hlength : expressionLength? (source ++ ['}']) = some source.length)
    (hsource : '\n' ∉ source) (htail : EndsDocument tail) :
    scanFrom 0 ⟨0, true, before, line⟩ offset (enclosed source ++ tail) =
      [⟨.plain, offset, enclosed source⟩] := by
  have hfeed := feed_not_mem_enclosed hsource
  have hopens : opensExpression '$' ('{' :: (source ++ ['}'])) = true := rfl
  have hextent : plainExtent false 0 none (enclosed source) =
      ⟨(enclosed source).length, (enclosed source).length⟩ := by
    unfold enclosed
    rw [plainExtent, if_pos hopens, List.drop_succ_cons, List.drop_zero, hlength]
    dsimp only
    rw [plainExtent_taken]
    · rfl
    · rw [List.length_cons, List.length_append]
      exact Nat.le_refl _
  have hline : ('$' :: ('{' :: (source ++ ['}']) ++ tail)).takeWhile (· ≠ '\n') =
      enclosed source := by
    have hend : tail.takeWhile (fun c => decide (c ≠ '\n')) = [] := by
      rcases htail with rfl | rfl <;> rfl
    show (enclosed source ++ tail).takeWhile _ = _
    rw [takeWhile_line hfeed, hend, List.append_nil]
  have hstep := scanStep_plain (by decide : '$' ∉ indicators) ⟨0, true, before, line⟩ offset
    ('{' :: (source ++ ['}']) ++ tail) hline hextent
  rw [List.take_length] at hstep
  exact scanFrom_found hstep (fun hmem => hfeed (List.mem_cons_of_mem _ hmem)) htail

/-- The lines of a text that is one line, with or without its line feed. -/
theorem split_line {body : List Char} (h : '\n' ∉ body) (htail : EndsDocument tail) :
    Lines.split (body ++ tail) = [body] ∧ tail = [] ∨
      Lines.split (body ++ tail) = [body, []] ∧ tail = ['\n'] := by
  rcases htail with rfl | rfl
  · exact .inl ⟨Lines.split_line_append h rfl, rfl⟩
  · exact .inr ⟨Lines.split_line_append h rfl, rfl⟩

/-- One indented line that is not blank is the content of its block, and all of it is taken. -/
theorem blockContent_line {body : List Char} (hfeed : '\n' ∉ body)
    (hindent : 0 < indentOf body) (hblank : isBlankLine body = false)
    (htail : EndsDocument tail) :
    blockContent 0 (body ++ tail) = (body, (body ++ tail).length) := by
  have hkept : (isBlankLine body || decide (0 < indentOf body)) = true := by
    rw [decide_eq_true hindent, Bool.or_true]
  rcases split_line hfeed htail with ⟨hsplit, rfl⟩ | ⟨hsplit, rfl⟩
  · have hlines : blockLines 0 [body] = [body] := by
      rw [blockLines, List.takeWhile_cons, if_pos hkept]
      rfl
    have hcontent : withoutBlankEnd [body] = [body] := by
      show (List.dropWhile isBlankLine [body]).reverse = [body]
      rw [List.dropWhile_cons_of_neg (by rw [hblank]; decide)]
      rfl
    unfold blockContent
    rw [hsplit, hlines]
    dsimp only
    rw [hcontent]
    simp [joinLines]
  · have hlines : blockLines 0 [body, []] = [body, []] := by
      rw [blockLines, List.takeWhile_cons, if_pos hkept]
      rfl
    have hcontent : withoutBlankEnd [body, []] = [body] := by
      show (List.dropWhile isBlankLine [[], body]).reverse = [body]
      rw [List.dropWhile_cons_of_pos rfl, List.dropWhile_cons_of_neg (by rw [hblank]; decide)]
      rfl
    unfold blockContent
    rw [hsplit, hlines]
    dsimp only
    rw [hcontent]
    simp [joinLines]

theorem scanStep_block {sign : Char} (hsign : sign = '|' ∨ sign = '>')
    {cs header content : List Char} {size : Nat} (hheader : cs.takeWhile (· ≠ '\n') = header)
    (hcontent : blockContent (indentOf line) (cs.drop (header.length + 1)) = (content, size)) :
    scanStep ⟨0, true, before, line⟩ offset sign cs =
      ⟨if content.isEmpty then none else some ⟨.block,
          offset + 1 + Text.byteLength (cs.take (header.length + 1)), content⟩,
        header.length + 1 + size, 0, true⟩ := by
  subst hheader
  rcases hsign with rfl | rfl
  · unfold scanStep
    dsimp only
    rw [hcontent]
    rfl
  · unfold scanStep
    dsimp only
    rw [hcontent]
    rfl

/-- A block with one line. Its key is not indented. -/
theorem scanFrom_block {sign : Char} {header cs : List Char} {indent : Nat}
    (hsign : sign = '|' ∨ sign = '>') (hheader : '\n' ∉ header) (hfeed : '\n' ∉ cs)
    (hblank : isBlankLine cs = false) (hline : indentOf line = 0) (htail : EndsDocument tail) :
    ∃ start, scanFrom 0 ⟨0, true, before, line⟩ offset (block sign header indent cs ++ tail) =
      [⟨.block, start, List.replicate (indent + 1) ' ' ++ cs⟩] := by
  have htext : block sign header indent cs ++ tail =
      sign :: (header ++ '\n' :: (List.replicate (indent + 1) ' ' ++ cs ++ tail)) := by
    simp [block]
  have hindent : 0 < indentOf (List.replicate (indent + 1) ' ' ++ cs) := Nat.succ_pos _
  have hspaces : '\n' ∉ List.replicate (indent + 1) ' ' ++ cs := by
    intro hmem
    rcases List.mem_append.mp hmem with hmem | hmem
    · cases List.eq_of_mem_replicate hmem
    · exact hfeed hmem
  have hbody : isBlankLine (List.replicate (indent + 1) ' ' ++ cs) = false := by
    show List.all _ _ = false
    rw [List.all_append, show List.all cs _ = false from hblank, Bool.and_false]
  have hcontent := blockContent_line hspaces hindent hbody htail
  have hnonempty : (List.replicate (indent + 1) ' ' ++ cs).isEmpty = false := rfl
  -- from here on it only matters that the line is indented, not blank, and one line
  generalize List.replicate (indent + 1) ' ' ++ cs = body at *
  have hhead : (header ++ '\n' :: (body ++ tail)).takeWhile (· ≠ '\n') = header := by
    rw [takeWhile_line hheader]
    exact List.append_nil header
  have hdrop : (header ++ '\n' :: (body ++ tail)).drop (header.length + 1) = body ++ tail := by
    rw [← List.drop_drop, List.drop_left]
    rfl
  rw [← hdrop, ← hline] at hcontent
  have hstep : scanStep ⟨0, true, before, line⟩ offset sign _ = _ :=
    scanStep_block hsign hhead hcontent
  rw [hdrop, hnonempty] at hstep
  have hsize : (header ++ '\n' :: (body ++ tail)).length ≤
      header.length + 1 + (body ++ tail).length := by
    rw [List.length_append, List.length_cons]
    omega
  rw [htext, scanFrom, hstep]
  dsimp only
  rw [scanFrom_all_taken _ _ _ _ hsize]
  exact ⟨_, rfl⟩

end Value

end Yaml

/-! ## 5. Round trip -/

/-- A key holds no expression. -/
theorem inScalar_key {key : List Char} (h : IsKey key) :
    Embedded.inScalar ⟨.plain, 0, key⟩ = [] := by
  refine Embedded.inPieces_plain _ _ (fun p hp => ?_) none
  have hmem : p.char ∈ (Text.walk verbatimStep 0 0 key).map Piece.char :=
    List.mem_map_of_mem hp
  rw [pieces_verbatim] at hmem
  exact List.ne_of_not_mem_cons
    (not_mem_of_class (by decide : ['$'].any _ = false) (h.2 p.char hmem))

/-- An expression that is what a scalar says, after some spaces, is found in it. -/
theorem inScalar_enclosed {source : List Char} {scalar : Scalar} {indent : Nat}
    (hlength : expressionLength? (source ++ ['}']) = some source.length)
    (h : scalar.pieces.map Piece.char = List.replicate indent ' ' ++ enclosed source) :
    FoundOnly source (Embedded.inScalar scalar) := by
  obtain ⟨spaces, ps, hpieces, hspaces, hps⟩ := List.map_eq_append_iff.mp h
  have hblank : ∀ p ∈ spaces, p.char ≠ '$' ∧ p.char ≠ '\\' := by
    intro p hp
    have hmem : p.char ∈ spaces.map Piece.char := List.mem_map_of_mem hp
    rw [hspaces] at hmem
    rw [List.eq_of_mem_replicate hmem]
    exact ⟨by decide, by decide⟩
  obtain ⟨before, hbefore, hskip⟩ := Embedded.inPieces_skip scalar.decode.stop spaces ps hblank
    none nofun
  show FoundOnly source (Embedded.inPieces scalar.decode.stop 0 none scalar.pieces)
  rw [hpieces, hskip]
  exact Embedded.inPieces_enclosed _ hlength hps hbefore

/-- An entry whose value is one scalar that says the expression. -/
theorem embedded_entry {source key value : List Char} (hkey : IsKey key)
    (hlength : expressionLength? (source ++ ['}']) = some source.length)
    (h : ∀ offset, ∃ scalar indent,
      scanFrom 0 ⟨0, true, some ' ', entry key value⟩ offset value = [scalar] ∧
      scalar.pieces.map Piece.char = List.replicate indent ' ' ++ enclosed source) :
    FoundOnly source (embedded (entry key value)) := by
  obtain ⟨scalar, indent, hvalue, hpieces⟩ := h (byteLength key + 2)
  unfold embedded
  rw [scalars_entry hkey, hvalue, List.flatMap_cons, inScalar_key hkey, List.flatMap_singleton]
  exact inScalar_enclosed hlength hpieces

theorem indentOf_entry {key : List Char} (h : IsKey key) (value : List Char) :
    indentOf (entry key value) = 0 := by
  obtain ⟨c, key, rfl⟩ := List.exists_cons_of_ne_nil h.1
  have hc : c ≠ ' ' := List.ne_of_not_mem_cons
    (not_mem_of_class (by decide : [' '].any _ = false) (h.2 c List.mem_cons_self))
  show (List.takeWhile (fun c => c == ' ') (c :: (key ++ ':' :: ' ' :: value))).length = 0
  rw [List.takeWhile_cons_of_neg (by simpa using hc)]
  rfl

theorem not_isLineEnd_enclosed {source : List Char} (h : ∀ c ∈ source, isLineEnd c = false) :
    ∀ c ∈ enclosed source, isLineEnd c = false := by
  intro c hc
  rcases List.mem_cons.mp hc with rfl | hc
  · rfl
  · rcases List.mem_cons.mp hc with rfl | hc
    · rfl
    · rcases List.mem_append.mp hc with hc | hc
      · exact h c hc
      · obtain rfl := List.mem_singleton.mp hc
        rfl

/-- **Round trip.** An expression that parses is found again, alone, closed and as it was, in a
    document that has it as the value of a key: between double quotes, between single quotes if
    it is on one line, as it is, or as the line of a block if it has no line feed. -/
theorem embedded_roundTrip {source key tail : List Char}
    (hparse : (parseExpression source 0).diagnostics = []) (hkey : IsKey key)
    (htail : EndsDocument tail) :
    FoundOnly source (embedded (entry key (doubleQuoted (enclosed source) ++ tail))) ∧
    ((∀ c ∈ source, isLineEnd c = false) →
      FoundOnly source (embedded (entry key (singleQuoted (enclosed source) ++ tail)))) ∧
    ('\n' ∉ source → FoundOnly source (embedded (entry key (enclosed source ++ tail)))) ∧
    ('\n' ∉ source → ∀ sign header indent, sign = '|' ∨ sign = '>' → '\n' ∉ header →
      FoundOnly source
        (embedded (entry key (block sign header indent (enclosed source) ++ tail)))) := by
  have hlength := expressionLength?_of_parseExpression hparse []
  refine ⟨?_, fun hline => ?_, fun hfeed => ?_, fun hfeed sign header indent hsign hheader => ?_⟩
  · refine embedded_entry hkey hlength fun offset => ?_
    have hbody : '\n' ∉ (enclosed source).flatMap doubleEscape := fun hmem =>
      absurd (not_isLineEnd_doubleEscape _ _ hmem) (by decide)
    exact ⟨_, 0, scanFrom_quoted (.inl rfl) (doubleQuotedLength?_escaped _ _) hbody htail,
      pieces_doubleQuoted _ _⟩
  · refine embedded_entry hkey hlength fun offset => ?_
    have henclosed := not_isLineEnd_enclosed hline
    have hbody : '\n' ∉ (enclosed source).flatMap singleEscape := fun hmem =>
      absurd (not_isLineEnd_singleEscape henclosed _ hmem) (by decide)
    have hquote : tail.head? ≠ some '\'' := by
      rcases htail with rfl | rfl <;> decide
    exact ⟨_, 0, scanFrom_quoted (.inr rfl) (singleQuotedLength?_escaped _ hquote) hbody htail,
      pieces_singleQuoted _ henclosed⟩
  · refine embedded_entry hkey hlength fun offset => ?_
    exact ⟨_, 0, scanFrom_plain hlength hfeed htail, pieces_verbatim _ _⟩
  · refine embedded_entry hkey hlength fun offset => ?_
    obtain ⟨start, hscan⟩ := scanFrom_block hsign hheader (feed_not_mem_enclosed hfeed) rfl
      (indentOf_entry hkey _) htail
    exact ⟨_, indent + 1, hscan, pieces_verbatim _ _⟩

/-- A map with braces and a quote inside its strings: `{'}': "\""}`, as the value of `k`. -/
theorem embedded_quoted_brace :
    let source := ['{', '\'', '}', '\'', ':', ' ', '"', '\\', '"', '"', '}']
    (parseExpression source 0).diagnostics = [] ∧ IsKey ['k'] ∧ EndsDocument ['\n'] ∧
      FoundOnly source (embedded (entry ['k'] (doubleQuoted (enclosed source) ++ ['\n']))) ∧
      FoundOnly source (embedded (entry ['k'] (singleQuoted (enclosed source) ++ ['\n']))) ∧
      FoundOnly source (embedded (entry ['k'] (enclosed source ++ ['\n']))) ∧
      FoundOnly source
        (embedded (entry ['k'] (block '|' ['-'] 1 (enclosed source) ++ ['\n']))) := by
  intro source
  have hparse : (parseExpression source 0).diagnostics = [] := by cbv
  have hkey : IsKey ['k'] := ⟨by decide, by simp [Text.isAsciiLetter]⟩
  have htail : EndsDocument ['\n'] := .inr rfl
  obtain ⟨hdouble, hsingle, hplain, hblock⟩ := embedded_roundTrip hparse hkey htail
  have hline : ∀ c ∈ source, isLineEnd c = false := by simp [source, isLineEnd]
  exact ⟨hparse, hkey, htail, hdouble, hsingle hline, hplain (by decide),
    hblock (by decide) '|' ['-'] 1 (.inl rfl) (by decide)⟩

end FlowExpr
