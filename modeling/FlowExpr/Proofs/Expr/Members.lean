import FlowExpr.Proofs.Expr.Placement
import FlowExpr.Proofs.Token.Tiling

/-!
# Names of properties

What stands after a dot is the name of a property if it can be one: a name, or a sign that has a
word form. The sign counts in either spelling, so besides words there are eleven more names, the
symbols of those signs:

* `Lexer.isWord`, `Sign.marks`: words, and the signs that are spelled with a symbol or a word;
* `lexFrom_memberName`: the name that a token gives is its text, a word or such a symbol;
* `Expr.MemberOf ts`: the name of the node is given by one of the tokens `ts`, right after a dot;
* `ParserState.Reads.owns`: whatever is read, its names are of this kind.
-/

namespace FlowExpr

/-! ## 1. Words and symbols -/

/-- The text is spelled as a word: the first character of a name, and later ones. -/
def Lexer.isWord : List Char → Bool
  | [] => false
  | c :: cs => isNameStart c && cs.all isNamePart

/-- The signs that are spelled with a symbol as well as with a word. -/
def Sign.marks : List Sign :=
  [.eqEq, .notEq, .lt, .gt, .ltEq, .gtEq, .slash, .percent, .and, .or, .not]

namespace Lexer

/-- The text is a word, or the symbol of a kind that also has a word. -/
def Names (kind : TokenKind) (text : String) : Prop :=
  isWord text.toList = true ∨ ∃ sign ∈ Sign.marks, kind = .sign sign ∧ text = sign.symbol

/-- The name that the reading gives is the text that it takes, and is spelled as a name. -/
def Reading.NamesText (r : Reading) (c : Char) (cs : List Char) : Prop :=
  ∀ span name, Token.memberName? ⟨r.kind, String.ofList (c :: cs.take r.extra), span⟩ = some name →
    name = String.ofList (c :: cs.take r.extra) ∧ Names r.kind name

theorem namesText_of_not_isKeyword {r : Reading} {c : Char} {cs : List Char}
    (hk : r.kind.isKeyword = false) (hn : ∀ name, r.kind ≠ .identifier name) :
    r.NamesText c cs := by
  intro span name h
  unfold Token.memberName? at h
  split at h
  · exact absurd ‹_› (hn _)
  · simp [hk] at h

/-- A sign that is spelled with its symbol. -/
theorem namesText_of_sign {sign : Sign} {c : Char} {cs : List Char} {extra : Nat}
    (h : sign.isWordy = true →
      sign ∈ Sign.marks ∧ sign.symbol = String.ofList (c :: cs.take extra)) :
    Reading.NamesText ⟨.sign sign, extra, []⟩ c cs := by
  intro span name hname
  have hif : (if sign.isWordy then some (String.ofList (c :: cs.take extra)) else none) =
      some name := hname
  by_cases hw : sign.isWordy = true
  · obtain ⟨hmark, hsymbol⟩ := h hw
    rw [if_pos hw] at hif
    obtain rfl := Option.some.inj hif
    exact ⟨rfl, .inr ⟨sign, hmark, rfl, hsymbol.symm⟩⟩
  · rw [if_neg hw] at hif
    cases hif

theorem namesText_oneOrTwo {second : Char} {double single : Sign} {c : Char}
    (h : paired? c = some (second, double, single)) (cs : List Char) :
    (oneOrTwo second double single cs).NamesText c cs := by
  have htable : (double.isWordy = true → double ∈ Sign.marks ∧
        double.symbol = String.ofList [c, second]) ∧
      (single.isWordy = true → single ∈ Sign.marks ∧ single.symbol = String.ofList [c]) :=
    of_lookup (P := fun c entry =>
      (entry.2.1.isWordy = true → entry.2.1 ∈ Sign.marks ∧
        entry.2.1.symbol = String.ofList [c, entry.1]) ∧
      (entry.2.2.isWordy = true → entry.2.2 ∈ Sign.marks ∧
        entry.2.2.symbol = String.ofList [c])) h (by decide)
  unfold oneOrTwo
  split
  · rename_i hhead
    obtain ⟨rest, rfl⟩ := List.head?_eq_some_iff.mp hhead
    exact namesText_of_sign htable.1
  · exact namesText_of_sign (by simpa using htable.2)

/-- The later characters of a word are those that its reading takes. -/
theorem take_takeWhile (p : Char → Bool) (cs : List Char) :
    cs.take (cs.takeWhile p).length = cs.takeWhile p :=
  (List.prefix_iff_eq_take.mp (List.takeWhile_prefix p)).symm

theorem namesText_readWord {c : Char} (hc : isNameStart c = true) (cs : List Char) :
    (readWord c cs).NamesText c cs := by
  have hword : isWord (c :: cs.takeWhile isNamePart) = true := by
    rw [isWord, hc, Bool.true_and, List.all_eq_true]
    exact fun d hd => List.mem_takeWhile_imp hd
  have htext : c :: cs.take (readWord c cs).extra = c :: cs.takeWhile isNamePart :=
    congrArg (c :: ·) (take_takeWhile isNamePart cs)
  intro span name hname
  rw [htext] at hname ⊢
  -- a keyword gives its text, and a name is its text
  have heq : name = String.ofList (c :: cs.takeWhile isNamePart) := by
    unfold Token.memberName? at hname
    split at hname
    · rename_i word hkind
      have hkeyword : ∀ entry ∈ TokenKind.keywords, entry.2 ≠ .identifier word := by
        intro entry hentry hid
        have hall : ∀ entry ∈ TokenKind.keywords, entry.2.isKeyword = true := by decide
        have h := hall entry hentry
        rw [hid] at h
        cases h
      have hword : (readWord c cs).kind = .identifier word →
          word = String.ofList (c :: cs.takeWhile isNamePart) := by
        unfold readWord
        dsimp only
        cases hlook : TokenKind.keyword? (String.ofList (c :: cs.takeWhile isNamePart)) with
        | none =>
          intro h
          exact (TokenKind.identifier.inj h).symm
        | some kind =>
          intro h
          have hne := of_lookup (P := fun _ kind => kind ≠ .identifier word) hlook hkeyword
          exact absurd h hne
      rw [← Option.some.inj hname]
      exact hword hkind
    · split at hname
      · exact (Option.some.inj hname).symm
      · cases hname
  refine ⟨heq, .inl ?_⟩
  rw [heq, String.toList_ofList]
  exact hword

/-- **What a reading gives as a name is the text that it takes**, a word or the symbol of a sign
    that has a word. -/
theorem namesText_read (offset : Nat) (c : Char) (cs : List Char) :
    (read offset c cs).NamesText c cs := by
  refine read_cases (P := fun r => r.NamesText c cs) offset c cs ?_ ?_ ?_ ?_ ?_ ?_ ?_
  · intro sign h
    have htable : sign.isWordy = true → sign ∈ Sign.marks ∧ sign.symbol = String.ofList [c] :=
      of_lookup (P := fun c sign => sign.isWordy = true → sign ∈ Sign.marks ∧
        sign.symbol = String.ofList [c]) h (by decide)
    exact namesText_of_sign (by simpa using htable)
  · exact fun second double single h => namesText_oneOrTwo h cs
  · intro sign h hhead
    have htable : sign.isWordy = true → sign ∈ Sign.marks ∧ sign.symbol = String.ofList [c, c] :=
      of_lookup (P := fun c sign => sign.isWordy = true → sign ∈ Sign.marks ∧
        sign.symbol = String.ofList [c, c]) h (by decide)
    obtain ⟨rest, rfl⟩ := List.head?_eq_some_iff.mp hhead
    exact namesText_of_sign htable
  · exact fun _ => namesText_of_not_isKeyword rfl fun _ => TokenKind.noConfusion
  · exact fun h => namesText_readWord h cs
  · intro _
    unfold readNumber
    dsimp only
    split
    · rename_i kind hkind
      obtain ⟨value, rfl⟩ | ⟨value, rfl⟩ := NumberText.kind?_number hkind
      · exact namesText_of_not_isKeyword rfl fun _ => TokenKind.noConfusion
      · exact namesText_of_not_isKeyword rfl fun _ => TokenKind.noConfusion
    · exact namesText_of_not_isKeyword rfl fun _ => TokenKind.noConfusion
  · exact namesText_of_not_isKeyword rfl fun _ => TokenKind.noConfusion

end Lexer

/-- **The name that a token of a text gives after a dot is its text**, a word or the symbol of a
    sign that has a word. -/
theorem lexFrom_memberName (n offset : Nat) (cs : List Char) :
    ∀ t ∈ (lexFrom n offset cs).tokens, ∀ name, t.memberName? = some name →
      name = t.text ∧ Lexer.Names t.kind name := by
  fun_induction lexFrom n offset cs with
  | case1 n offset =>
    intro t ht name hname
    rw [List.mem_singleton.mp ht] at hname
    cases hname
  | case2 offset c cs n ih => exact ih
  | case3 offset c cs hb ih => exact ih
  | case4 offset c cs hb reading text ih =>
    intro t ht name hname
    rcases List.mem_cons.mp ht with rfl | ht
    · exact Lexer.namesText_read offset c cs _ name hname
    · exact ih t ht name hname

/-! ## 2. Names in trees -/

namespace Expr

/-- The name of a property and its range. -/
def member? : Expr → Option (String × Span)
  | property _ (some name) nameSpan _ => some (name, nameSpan)
  | _ => none

/-- If the node has a name, one of the tokens gives it, right after a dot. -/
def MemberOf (ts : List Token) (e : Expr) : Prop :=
  ∀ name nameSpan, e.member? = some (name, nameSpan) →
    ∃ dot t, [dot, t] <:+: ts ∧ dot.kind = .sign .dot ∧ t.span = nameSpan ∧
      t.memberName? = some name

theorem MemberOf.mono {ts ts' : List Token} {e : Expr} (h : e.MemberOf ts) (hts : ts <:+: ts') :
    e.MemberOf ts' := by
  intro name nameSpan hmember
  obtain ⟨dot, t, hpair, hdot, hspan, hname⟩ := h name nameSpan hmember
  exact ⟨dot, t, hpair.trans hts, hdot, hspan, hname⟩

theorem memberOf_of_none {ts : List Token} {e : Expr} (h : e.member? = none) : e.MemberOf ts := by
  intro name nameSpan hmember
  rw [h] at hmember
  cases hmember

end Expr

namespace ParserState

variable {s s₀ s' : ParserState} {es : List Expr}

/-- The tokens that are left are the end of those that were. -/
theorem Moves.isSuffix (h : s.Moves s') : s'.ahead <:+ s.ahead := by
  induction h with
  | refl => exact List.suffix_refl _
  | @take s₁ s₂ taken _ hahead _ _ _ _ ih =>
    refine List.IsSuffix.trans ?_ ih
    rw [hahead]
    exact List.suffix_append _ _
  | report _ _ _ ih => simpa using ih
  | @giveUp s₁ _ ih =>
    have hsplit := (s₁.report s₁.current.span .tooDeeplyNested).skipped_append_skip
    rw [ahead_report] at hsplit
    refine List.IsSuffix.trans ?_ ih
    exact ⟨_, hsplit⟩

/-- The names in the trees are given by tokens that are left in the state. -/
def Owns (s : ParserState) (es : List Expr) : Prop :=
  s.eof.kind = .eof → ∀ e ∈ es, e.All (Expr.MemberOf s.ahead)

theorem Owns.before (h : s.Owns es) (hm : s₀.Moves s) : s₀.Owns es := by
  intro heof e he
  rw [← hm.tokens.2] at heof
  exact (h heof e he).imp fun _ hx => hx.mono hm.isSuffix.isInfix

/-- A node without a name owns what its parts own. -/
theorem Owns.node {e : Expr} (h : s.Owns e.children) (he : e.member? = none) : s.Owns [e] := by
  intro heof x hx
  rw [List.mem_singleton.mp hx]
  exact .node (Expr.memberOf_of_none he) (h heof)

theorem Owns.append {es' : List Expr} (h : s.Owns es) (h' : s.Owns es') : s.Owns (es ++ es') := by
  intro heof e he
  rcases List.mem_append.mp he with he | he
  · exact h heof e he
  · exact h' heof e he

/-- A leaf has no name. -/
theorem owns_leaf {e : Expr} (hc : e.children = []) (he : e.member? = none) : s.Owns [e] := by
  refine Owns.node ?_ he
  rw [hc]
  exact fun _ x hx => absurd hx List.not_mem_nil

/-- The next two tokens, where the first is no end. -/
theorem isInfix_ahead (hk : s.current.kind ≠ .eof) (hk' : s.advance.current.kind ≠ .eof)
    (heof : s.eof.kind = .eof) : [s.current, s.advance.current] <:+: s.ahead := by
  unfold advance current at *
  cases hs : s.ahead with
  | nil => simp [hs, heof] at hk
  | cons dot rest =>
    cases rest with
    | nil => simp [hs, heof] at hk'
    | cons t rest => simpa [hs] using ⟨[], rest, rfl⟩

/-- **The names in what is read are given by the tokens it is read from.** -/
theorem Reads.owns (h : s.Reads es s') : s.Owns es := by
  induction h with
  | none s => exact fun _ e he => absurd he List.not_mem_nil
  | @next _ s _ _ _ _ h _ _ ih ih' => exact ih.append (ih'.before (h.moves.trans s.moves_advance))
  | lacking _ ih => exact ih.append (owns_leaf rfl rfl)
  | @atom s e he =>
    refine owns_leaf (Token.atom?_eq_some he).2.2.2 ?_
    unfold Token.atom? at he
    split at he <;> cases he <;> rfl
  | missing | useless | deep => exact owns_leaf rfl rfl
  | @parens s _ _ _ _ _ _ _ ih => exact ih.before s.moves_advance
  | @list s _ _ _ _ _ _ _ ih | @set s _ _ _ _ _ _ _ ih | @map s _ _ _ _ _ _ _ ih
  | @unary s _ _ _ _ _ _ ih =>
    exact (ih.before s.moves_advance).node rfl
  | @property s₀ s target name h hk hn ih =>
    intro heof e he
    rw [List.mem_singleton.mp he]
    refine .node (fun name' nameSpan hmember => ?_) (ih heof)
    obtain ⟨rfl, rfl⟩ := Prod.mk.inj (Option.some.inj hmember)
    have hend : s.eof.kind = .eof := h.moves.tokens.2 ▸ heof
    have hpair := isInfix_ahead (ne_eof_of_sign hk) (Token.readable_of_memberName hn).1 hend
    exact ⟨_, _, hpair.trans h.moves.isSuffix.isInfix, hk, rfl, hn⟩
  | nameless _ _ ih => exact ih.node rfl
  | @index _ s _ _ _ _ _ h _ _ _ ih ih' | @call _ s _ _ _ _ _ h _ _ _ ih ih'
  | @binary _ s _ _ _ _ _ h _ _ ih ih' | @ternary _ s _ _ _ _ h _ _ ih ih' =>
    exact (ih.append (ih'.before (h.moves.trans s.moves_advance))).node rfl
  | skipped _ ih => exact ih
  | lambda hl _ ih => exact (ih.before (moves_lambdaHead hl)).node rfl

end ParserState

theorem parseTokens_members (tokens : List Token) :
    (parseTokens tokens).root.All (Expr.MemberOf tokens) := by
  obtain ⟨s', -, ⟨hroot, -⟩ | ⟨s₁, hread, -⟩⟩ := parseTokens_reads tokens
  · rw [hroot]
    exact .node (Expr.memberOf_of_none rfl) fun _ h => absurd h List.not_mem_nil
  · have h := hread.owns (ParserState.eof_ofTokens tokens) _ (List.mem_singleton_self _)
    exact h.imp fun _ hx => hx.mono (List.takeWhile_prefix _).isInfix

/-! ## 3. Names of a text -/

/-- **The name of a property is the token after its dot**: it has the range of the token, it is
    its text, and it is spelled as a word, or the token is a sign that is spelled with its symbol
    and has a word form too. -/
theorem parseExpression_memberNames (source : List Char) (n : Nat) :
    (parseExpression source n).root.All fun x => ∀ name nameSpan,
      x.member? = some (name, nameSpan) →
        ∃ dot t, [dot, t] <:+: (lex source n).tokens ∧ dot.kind = .sign .dot ∧
          t.span = nameSpan ∧ t.text = name ∧ (Lexer.isWord name.toList = true ∨
            ∃ sign ∈ Sign.marks, t.kind = .sign sign ∧ name = sign.symbol) := by
  rw [parseExpression_eq]
  refine (parseTokens_members (lex source n).tokens).imp fun x hx name nameSpan hmember => ?_
  obtain ⟨dot, t, hpair, hdot, hspan, hname⟩ := hx name nameSpan hmember
  have ht : t ∈ (lex source n).tokens := hpair.subset (List.mem_cons_of_mem _ List.mem_cons_self)
  obtain ⟨htext, hspelled⟩ := lexFrom_memberName 0 n source t ht name hname
  exact ⟨dot, t, hpair, hdot, hspan, htext.symm, hspelled⟩

/-- In `a.mod./` both properties are named by the sign for the remainder and for division: the
    first with its word, the second with its symbol. -/
theorem parseExpression_memberNames_slash :
    let source := ['a', '.', 'm', 'o', 'd', '.', '/']
    let inner := Expr.property (.identifier "a" ⟨0, 1⟩) (some "mod") ⟨2, 5⟩ ⟨0, 5⟩
    let outer := Expr.property inner (some "/") ⟨6, 7⟩ ⟨0, 7⟩
    (parseExpression source 0).root = outer ∧
      (∃ dot t, [dot, t] <:+: (lex source 0).tokens ∧ dot.kind = .sign .dot ∧
        t.span = ⟨2, 5⟩ ∧ t.text = "mod" ∧ (Lexer.isWord "mod".toList = true ∨
          ∃ sign ∈ Sign.marks, t.kind = .sign sign ∧ "mod" = sign.symbol)) ∧
      ∃ dot t, [dot, t] <:+: (lex source 0).tokens ∧ dot.kind = .sign .dot ∧
        t.span = ⟨6, 7⟩ ∧ t.text = "/" ∧ (Lexer.isWord "/".toList = true ∨
          ∃ sign ∈ Sign.marks, t.kind = .sign sign ∧ "/" = sign.symbol) := by
  intro source inner outer
  have hnames := parseExpression_memberNames source 0
  have hinner : inner ∈ (parseExpression source 0).root.children := List.mem_cons_self
  exact ⟨rfl, (hnames.parts inner hinner).root "mod" ⟨2, 5⟩ rfl, hnames.root "/" ⟨6, 7⟩ rfl⟩

/-- **Not every name of a property is a word.** In `a.== b` the comparison is taken as a name, and
    `b` is left over. -/
theorem parseExpression_memberNames_equals :
    let root := (parseExpression ['a', '.', '=', '=', ' ', 'b'] 0).root
    root = .property (.identifier "a" ⟨0, 1⟩) (some "==") ⟨2, 4⟩ ⟨0, 4⟩ ∧
      ¬root.All fun x => ∀ name nameSpan, x.member? = some (name, nameSpan) →
        Lexer.isWord name.toList = true := by
  intro root
  refine ⟨rfl, fun h => ?_⟩
  have hword : Lexer.isWord "==".toList = true := h.root "==" ⟨2, 4⟩ rfl
  exact absurd hword (by decide)

end FlowExpr
