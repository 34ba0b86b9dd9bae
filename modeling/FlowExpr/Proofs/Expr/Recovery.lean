import FlowExpr.Proofs.Expr.Reading

/-!
# Recovery from nesting that is too deep

Where no level is left, the parser skips to the delimiter that closes the surrounding construct.
All the constructs around it still wait for their own delimiters, and go on as if nothing had
happened.

* `Paired ts`: as many delimiters are closed as were opened, whatever they are, and never more;
* `ParserState.skipped_append`, `Paired.skipped`: how skipping counts delimiters;
* `Nested core n ts`: the tokens in `n` pairs of parentheses;
* `GivenUp`: what a parser leaves that gave up a construct: an error node, one report, and the
  tokens behind the construct;
* `ends_body_nested`: every level of parentheses around a construct that was given up is closed;
* `parseTokens_tooDeep`: behind all of them the expression goes on.
-/

namespace FlowExpr

open FlowExpr.Parser FlowExpr.Rules

/-! ## 1. Delimiters in pairs -/

namespace Token

/-- The token is an opening delimiter. -/
def isOpening (t : Token) : Bool :=
  match t.kind with
  | .sign s => s.isOpening
  | _ => false

/-- The token is a closing delimiter. -/
def isClosing (t : Token) : Bool :=
  match t.kind with
  | .sign s => s.isClosing
  | _ => false

theorem isClosing_of_isOpening {t : Token} (h : t.isOpening = true) : t.isClosing = false := by
  obtain ⟨kind, text, span⟩ := t
  cases kind with
  | sign s => cases s <;> first | rfl | cases h
  | _ => rfl

theorem isOpening_of_kind {t : Token} {s : Sign} (h : t.kind = .sign s)
    (hs : s.isOpening = true) : t.isOpening = true := by
  rw [isOpening, h]
  exact hs

theorem isClosing_of_kind {t : Token} {s : Sign} (h : t.kind = .sign s)
    (hs : s.isClosing = true) : t.isClosing = true := by
  rw [isClosing, h]
  exact hs

end Token

/-- Of the delimiters, as many are closed as were opened, and in front of any of the tokens never
    more, whatever delimiters they are. -/
structure Paired (ts : List Token) : Prop where
  fronts : ∀ front, front <+: ts → front.countP Token.isClosing ≤ front.countP Token.isOpening
  total : ts.countP Token.isClosing = ts.countP Token.isOpening

namespace ParserState

/-! ## 2. Skipping -/

/-- Skipping one token: delimiters are counted, and the one that closes the surrounding construct
    is not skipped. -/
theorem skipped_cons (depth : Nat) (t : Token) (rest : List Token) :
    skipped depth (t :: rest) =
      if t.isOpening then t :: skipped (depth + 1) rest
      else if t.isClosing then if depth = 0 then [] else t :: skipped (depth - 1) rest
      else t :: skipped depth rest := by
  obtain ⟨kind, text, span⟩ := t
  cases kind with
  | sign s => cases depth <;> rfl
  | _ => rfl

theorem skipped_closing {t : Token} (h : t.isClosing = true) (rest : List Token) :
    skipped 0 (t :: rest) = [] := by
  have ho : ¬t.isOpening = true := fun ho => by simp [Token.isClosing_of_isOpening ho] at h
  rw [skipped_cons, if_neg ho, if_pos h, if_pos rfl]

/-- Skipping passes tokens that never close more than is open, and keeps count. -/
theorem skipped_append {ts : List Token} {depth : Nat}
    (h : ∀ front, front <+: ts →
      front.countP Token.isClosing ≤ depth + front.countP Token.isOpening) (rest : List Token) :
    skipped depth (ts ++ rest) = ts ++
      skipped (depth + ts.countP Token.isOpening - ts.countP Token.isClosing) rest := by
  induction ts generalizing depth with
  | nil => simp
  | cons t ts ih =>
    have hnext := fun front (hf : front <+: ts) => h _ ((List.prefix_cons_inj t).mpr hf)
    rw [List.cons_append, List.cons_append, skipped_cons]
    by_cases ho : t.isOpening = true
    · have hc := Token.isClosing_of_isOpening ho
      simp only [List.countP_cons, ho, hc, if_true, Bool.false_eq_true, if_false] at hnext ⊢
      rw [ih fun front hf => by have := hnext front hf; omega]
      congr 3
      omega
    · by_cases hc : t.isClosing = true
      · -- the token closes one of the delimiters that are open
        have hopen := hnext [] List.nil_prefix
        simp only [List.countP_cons, List.countP_nil, ho, hc, if_true, if_false,
          Bool.false_eq_true] at hnext hopen ⊢
        rw [if_neg (by omega), ih fun front hf => by have := hnext front hf; omega]
        congr 3
        omega
      · simp only [List.countP_cons, ho, hc, if_false, Bool.false_eq_true] at hnext ⊢
        exact congrArg _ (ih hnext)

end ParserState

section Pairs

variable {ts core : List Token}

/-- What is in pairs is passed. -/
theorem Paired.skipped (h : Paired ts) (depth : Nat) (rest : List Token) :
    ParserState.skipped depth (ts ++ rest) = ts ++ ParserState.skipped depth rest := by
  rw [ParserState.skipped_append fun front hf => Nat.le_add_left_of_le (h.fronts front hf)]
  rw [h.total, Nat.add_sub_cancel]

/-- In front of a delimiter that is closed too many, all of it is skipped. -/
theorem Paired.skipped_closing (h : Paired ts) {t : Token} (ht : t.isClosing = true)
    (rest : List Token) : ParserState.skipped 0 (ts ++ t :: rest) = ts := by
  rw [h.skipped, ParserState.skipped_closing ht, List.append_nil]

/-- Tokens without delimiters. -/
theorem paired_plain (h : ∀ t ∈ ts, t.isOpening = false ∧ t.isClosing = false) : Paired ts := by
  have hnone : ∀ front, front <+: ts →
      front.countP Token.isOpening = 0 ∧ front.countP Token.isClosing = 0 := by
    intro front hf
    constructor <;> refine List.countP_eq_zero.mpr fun t ht => ?_
    · simp [(h t (hf.subset ht)).1]
    · simp [(h t (hf.subset ht)).2]
  refine ⟨fun front hf => ?_, ?_⟩
  · rw [(hnone front hf).1, (hnone front hf).2]
  · rw [(hnone ts List.prefix_rfl).1, (hnone ts List.prefix_rfl).2]

/-- One more pair around them. -/
theorem Paired.enclose (h : Paired ts) {o c : Token} (ho : o.isOpening = true)
    (hc : c.isClosing = true) : Paired (o :: (ts ++ [c])) := by
  have ho' := Token.isClosing_of_isOpening ho
  have hc' : c.isOpening = false := by
    cases hopen : c.isOpening with
    | false => rfl
    | true => exact absurd hc (by simp [Token.isClosing_of_isOpening hopen])
  have htotal := h.total
  refine ⟨fun front hf => ?_, ?_⟩
  · rcases List.prefix_cons_iff.mp hf with rfl | ⟨front, rfl, hin⟩
    · exact Nat.le_refl 0
    · rcases List.prefix_concat_iff.mp hin with rfl | hin
      · simp only [List.countP_cons, List.countP_append, List.countP_nil, ho, ho', hc, hc',
          if_true, Bool.false_eq_true, if_false]
        omega
      · have hfront := h.fronts front hin
        simp only [List.countP_cons, ho, ho', if_true, Bool.false_eq_true, if_false]
        omega
  · simp only [List.countP_cons, List.countP_append, List.countP_nil, ho, ho', hc, hc',
      if_true, Bool.false_eq_true, if_false]
    omega

/-! ## 3. Parentheses -/

/-- The tokens are those of the core in a number of pairs of parentheses. -/
inductive Nested (core : List Token) : Nat → List Token → Prop where
  | core : Nested core 0 core
  | parens {n : Nat} {ts : List Token} {o c : Token} (ho : o.kind = .sign .lParen)
      (h : Nested core n ts) (hc : c.kind = .sign .rParen) :
      Nested core (n + 1) (o :: (ts ++ [c]))

theorem Nested.paired {n : Nat} (h : Nested core n ts) (hcore : Paired core) : Paired ts := by
  induction h with
  | core => exact hcore
  | parens ho _ hc ih =>
    exact ih.enclose (Token.isOpening_of_kind ho rfl) (Token.isClosing_of_kind hc rfl)

/-- The outer pairs apart from the inner ones. -/
theorem Nested.split {k n : Nat} (h : Nested core (n + k) ts) :
    ∃ inner, Nested core k inner ∧ Nested inner n ts := by
  induction n generalizing ts with
  | zero => exact ⟨ts, Nat.zero_add k ▸ h, .core⟩
  | succ n ih =>
    rw [Nat.add_right_comm] at h
    cases h with
    | parens ho h hc =>
      obtain ⟨inner, hinner, houter⟩ := ih h
      exact ⟨inner, hinner, .parens ho houter hc⟩

/-- As many opening parentheses in front as closing ones behind. -/
theorem nested_of_length {opens closes : List Token} (ho : ∀ t ∈ opens, t.kind = .sign .lParen)
    (hc : ∀ t ∈ closes, t.kind = .sign .rParen) (hlength : closes.length = opens.length) :
    Nested core opens.length (opens ++ core ++ closes) := by
  induction opens generalizing closes with
  | nil =>
    rw [List.length_eq_zero_iff.mp hlength, List.append_nil]
    exact .core
  | cons o opens ih =>
    have hne : closes ≠ [] := fun h => by rw [h] at hlength; cases hlength
    obtain ⟨closes, c, rfl⟩ : ∃ front c, closes = front ++ [c] :=
      ⟨_, _, (List.dropLast_concat_getLast hne).symm⟩
    have hinner := ih (fun t ht => ho t (List.mem_cons_of_mem _ ht))
      (fun t ht => hc t (List.mem_append_left _ ht)) (by simpa using hlength)
    have hnested := hinner.parens (ho o List.mem_cons_self)
      (hc c (List.mem_append_right _ (List.mem_singleton_self c)))
    simpa using hnested

/-- The names in the head of a lambda are no delimiters. -/
theorem NameRow.paired {names : List String} (h : NameRow ts names) : Paired ts := by
  refine paired_plain ?_
  induction h with
  | last h => simp [Token.isOpening, Token.isClosing, h]
  | cons h hc _ ih =>
    simpa [Token.isOpening, Token.isClosing, h, hc, Sign.isOpening, Sign.isClosing] using ih

/-- **A construct in parentheses is the head of a lambda only if an arrow follows it.** -/
theorem Paired.not_lambdaAhead (h : Paired ts) {o c : Token} {rest : List Token}
    (ho : o.kind = .sign .lParen) (hc : c.isClosing = true)
    (hrest : nextKind rest ≠ .sign .arrow) : lambdaAhead (o :: (ts ++ c :: rest)) = false := by
  rw [Bool.eq_false_iff]
  intro hl
  obtain ⟨head, names, after, hsplit, hh⟩ := exists_lambdaHead hl
  obtain ⟨row, right, arrow, hrow, hright, harrow, htokens⟩ : ∃ row right arrow, Paired row ∧
      right.isClosing = true ∧ arrow.kind = .sign .arrow ∧
        ts ++ c :: rest = row ++ right :: arrow :: after := by
    cases hh with
    | bare hn =>
      rw [List.cons_append, List.cons.injEq] at hsplit
      rw [hsplit.1, hn] at ho
      cases ho
    | empty _ hr ha =>
      rw [List.cons_append, List.cons.injEq] at hsplit
      exact ⟨[], _, _, paired_plain nofun, Token.isClosing_of_kind hr rfl, ha, hsplit.2⟩
    | row _ hn hr ha =>
      rw [List.cons_append, List.cons_append, List.cons.injEq] at hsplit
      exact ⟨_, _, _, hn.paired, Token.isClosing_of_kind hr rfl, ha, by simpa using hsplit.2⟩
  -- what is skipped of both sides is the same, so the parameters fill the parentheses
  have hsame := congrArg (ParserState.skipped 0) htokens
  rw [h.skipped_closing hc, hrow.skipped_closing hright] at hsame
  rw [hsame, List.append_cancel_left_eq, List.cons.injEq] at htokens
  rw [htokens.2] at hrest
  exact hrest harrow

end Pairs

/-! ## 4. What is given up -/

/-- A construct was given up at a token: there is an error node for it and a report, and the rest
    of the tokens is left. -/
structure GivenUp (s : ParserState) (token : Token) (rest : List Token) (s' : ParserState)
    (e : Expr) : Prop where
  node : ∃ stop, e = .error ⟨token.span.start, stop⟩
  left : s'.At rest
  heard : s'.truncated = false
  reported : s'.diagnostics = s.diagnostics ++ [⟨token.span, .tooDeeplyNested⟩]

namespace Parser

variable {s : ParserState}

/-- Without a level left, the parser skips to the delimiter that closes the surrounding
    construct. -/
theorem ends_tooDeep_paired {ts rest : List Token} {token c : Token} (hts : Paired ts)
    (hs : s.At (ts ++ c :: rest)) (hc : c.isClosing = true) (hheard : s.truncated = false)
    (htoken : (ts ++ c :: rest)[0]? = some token) :
    Ends s tooDeep (GivenUp s token (c :: rest)) := by
  have hcurrent : s.current = token := by
    rw [ParserState.current, hs.ahead, List.headD_eq_head?_getD, List.head?_eq_getElem?, htoken]
    rfl
  have hahead : s.giveUp.ahead = c :: rest := by
    show (s.report _ _).ahead.drop (ParserState.skipped 0 (s.report _ _).ahead).length = _
    rw [ParserState.ahead_report, hs.ahead, hts.skipped_closing hc, List.drop_left]
  refine ends_tooDeep.imp fun s' e hgiven => ?_
  rw [hgiven.1, hgiven.2, ParserState.here, hcurrent]
  refine ⟨⟨_, rfl⟩, ⟨hahead, ?_⟩, ?_, ?_⟩
  · exact (s.eof_report _ _).symm ▸ hs.eof
  · show ((s.report _ _).truncated || s.giveUp.ahead.isEmpty) = false
    rw [ParserState.truncated_report, hheard, hahead]
    rfl
  · show (s.report s.current.span .tooDeeplyNested).diagnostics = _
    rw [ParserState.report, hheard, hcurrent]
    rfl

/-! ## 5. What goes on behind it -/

section Around

variable {r : Rules} {P : ParserState → Expr → Prop} {e : Expr} {l n : Nat}

theorem ends_closing_next {sign : Sign} {delimiter : Char} (hk : s.current.kind = .sign sign) :
    Ends s (closing sign delimiter) fun s' _ => s' = s.advance :=
  ends_current (ends_eat (fun _ => ends_pure rfl) fun h => absurd hk h)

/-- A chain of postfixes ends where none follows. -/
theorem ends_postfixes_end (h : Grammar.endsChain 0 s.current.kind) (he : P s e) :
    Ends s (r.postfixes e) P := by
  refine ends_current ?_
  split
  · exact absurd (by simp_all) h.1
  · exact absurd (by simp_all) h.1
  · exact absurd (by simp_all) h.1
  · exact ends_pure he

/-- A chain of operators ends where none of its level follows. -/
theorem ends_chainRest_end (h : operator? (l + 1) s.current.kind = none) (he : P s e) :
    Ends s (r.chainRest l e) P := by
  refine ends_current ?_
  rw [h]
  exact ends_pure he

/-- What is read at one level is read at a looser one if no operator of the levels between
    follows. -/
theorem ends_climb_up (hl : l ≤ n) (h : Ends s (r.climb l) P)
    (hend : ∀ s' e, P s' e → Grammar.endsChain n s'.current.kind) : Ends s (r.climb n) P := by
  induction hl with
  | refl => exact h
  | @step n _ ih =>
    refine Ends.bind (ih fun s' e he => (hend s' e he).tighter) fun e s' he => ?_
    exact ends_chainRest_end ((hend s' e he).2 n (Nat.lt_succ_self n)) he

/-- An expression of operators is the whole expression if no question mark follows. -/
theorem ends_expression_end (hl : lambdaAhead s.ahead = false)
    (h : Ends s (r.climb BinaryOp.loosest) P)
    (hend : ∀ s' e, P s' e → s'.current.kind ≠ .sign .question) : Ends s r.expression P := by
  refine ends_get ?_
  rw [hl]
  refine Ends.bind h fun e s' he => ?_
  exact ends_eat (fun hk => absurd hk (hend s' e he)) fun _ => ends_pure he

theorem ends_prefixed_identifier {t : Token} {rest : List Token} {name : String}
    (hs : s.At (t :: rest)) (ht : t.kind = .identifier name)
    (hrest : Grammar.endsChain 0 (nextKind rest)) :
    Ends s r.prefixed fun s' e => s' = s.advance ∧ e = .identifier name t.span := by
  have hend : Grammar.endsChain 0 s.advance.current.kind := by
    rw [hs.advance.1.current_kind]
    exact hrest
  have hprimary : Ends s r.primary fun s' e => s' = s.advance ∧ e = .identifier name t.span := by
    refine ends_current ?_
    rw [hs.current_eq, ht]
    exact ends_advance (ends_pure ⟨rfl, rfl⟩)
  refine ends_current ?_
  rw [hs.current_eq, ht]
  exact Ends.bind hprimary fun e s' he => ends_postfixes_end (he.1 ▸ hend) he

/-- Parentheses around a construct that was given up are closed. -/
theorem ends_prefixed_parens {ts rest : List Token} {token o c : Token}
    (hs : s.At (o :: (ts ++ c :: rest))) (ho : o.kind = .sign .lParen)
    (hc : c.kind = .sign .rParen) (hrest : Grammar.endsChain 0 (nextKind rest))
    (h : Ends s.advance r.body (GivenUp s.advance token (c :: rest))) :
    Ends s r.prefixed (GivenUp s token rest) := by
  have hk : s.current.kind = .sign .lParen := by rw [hs.current_eq, ho]
  have hprimary : Ends s r.primary (GivenUp s token rest) := by
    refine ends_current ?_
    rw [hk]
    refine ends_advance (Ends.bind h fun e s₁ he => ?_)
    have hclose : s₁.current.kind = .sign .rParen := by rw [he.left.current_eq, hc]
    refine Ends.bind (ends_closing_next hclose) fun _ s₂ hs₂ => ends_pure ?_
    obtain ⟨-, htruncated, hreports⟩ := s₁.advance_frame
    rw [hs₂]
    refine ⟨he.node, he.left.advance.1, htruncated.trans he.heard, ?_⟩
    rw [hreports, he.reported, hs.advance.2]
  refine ends_current ?_
  rw [hk]
  refine Ends.bind hprimary fun e s' he => ends_postfixes_end ?_ he
  rw [he.left.current_kind]
  exact hrest

end Around

/-- **Every level of parentheses around a construct that was given up is closed.** -/
theorem ends_body_nested {core ts : List Token} {m : Nat} (hcore : Paired core)
    (h : Nested core m ts) {rest : List Token} {token c : Token} (hs : s.At (ts ++ c :: rest))
    (hc : c.kind = .sign .rParen) (hheard : s.truncated = false)
    (htoken : (ts ++ c :: rest)[m]? = some token) :
    Ends s (withBudget m).body (GivenUp s token (c :: rest)) := by
  have hend : Grammar.endsChain BinaryOp.loosest (.sign .rParen) :=
    Grammar.endsChain_of_endsExpression (Grammar.endsExpression_closing rfl)
  induction h generalizing s rest c with
  | core => exact ends_tooDeep_paired hcore hs (Token.isClosing_of_kind hc rfl) hheard htoken
  | @parens m ts o c' ho h hc' ih =>
    have htokens : o :: (ts ++ [c']) ++ c :: rest = o :: (ts ++ c' :: (c :: rest)) := by simp
    rw [htokens] at hs htoken
    have hnext : ∀ s' e, GivenUp s token (c :: rest) s' e → s'.current.kind = .sign .rParen :=
      fun s' e he => by rw [he.left.current_eq, hc]
    have hinner := ih hs.advance.1 hc' (s.advance_frame.2.1.trans hheard) htoken
    have hrest : Grammar.endsChain 0 (nextKind (c :: rest)) := by
      rw [nextKind_cons, hc]
      exact hend.mono (Nat.zero_le _)
    have hprefixed := ends_prefixed_parens hs ho hc' hrest hinner
    refine ends_expression_end ?_ (ends_climb_up (Nat.zero_le _) hprefixed ?_) ?_
    · rw [hs.ahead]
      exact (h.paired hcore).not_lambdaAhead ho (Token.isClosing_of_kind hc' rfl) (by simp [hc])
    · exact fun s' e he => hnext s' e he ▸ hend
    · exact fun s' e he => by simp [hnext s' e he]

/-- A node of an operator was read whose left operand was given up at a token, and nothing is
    left. -/
structure Resumed (s : ParserState) (token : Token) (op : BinaryOp) (right : Expr)
    (s' : ParserState) (e : Expr) : Prop where
  node : ∃ stop, e = .joined op (.error ⟨token.span.start, stop⟩) right
  left : s'.At []
  reported : s'.diagnostics = s.diagnostics ++ [⟨token.span, .tooDeeplyNested⟩]

/-- **The operator behind a construct that was given up takes it for its left operand.** -/
theorem ends_climb_resumed {l n : Nat} {token t name : Token} {sign : Sign} {op : BinaryOp}
    {b : String} (ht : t.kind = .sign sign) (hop : (sign, op) ∈ Grammar.binaryAt l)
    (hname : name.kind = .identifier b)
    (h : Ends s ((withBudget (n + 1)).climb l) (GivenUp s token [t, name])) :
    Ends s ((withBudget (n + 1)).climb (l + 1))
      (Resumed s token op (.identifier b name.span)) := by
  refine Ends.bind h fun e s₁ he => ends_current ?_
  obtain ⟨hname₁, hreports₁⟩ := he.left.advance
  obtain ⟨hend, hreports₂⟩ := hname₁.advance
  rw [he.left.current_eq, ht, Grammar.operator?_eq_some hop]
  refine ends_advance ?_
  have hright : Ends s₁.advance ((withBudget n).climb l) fun s' e =>
      s' = s₁.advance.advance ∧ e = .identifier b name.span := by
    refine ends_climb_up (Nat.zero_le l)
      (ends_prefixed_identifier hname₁ hname (Grammar.endsChain_eof 0)) fun s' e he => ?_
    rw [he.1, hend.current_kind]
    exact Grammar.endsChain_eof l
  refine Ends.bind hright fun right s₂ ⟨hs₂, hr⟩ => ?_
  rw [hs₂, hr]
  obtain ⟨stop, hnode⟩ := he.node
  refine ends_chainRest_end ?_ ⟨⟨stop, by rw [hnode]⟩, hend, ?_⟩
  · rw [hend.current_kind]
    rfl
  · rw [hreports₂, hreports₁, he.reported]

/-- Behind parentheses that use up all levels, the expression goes on. -/
theorem ends_body_resumed {core ts : List Token} {l n : Nat} {token t name : Token} {sign : Sign}
    {op : BinaryOp} {b : String} (hcore : Paired core) (h : Nested core (n + 2) ts)
    (ht : t.kind = .sign sign) (hop : (sign, op) ∈ Grammar.binaryAt l)
    (hname : name.kind = .identifier b) (hs : s.At (ts ++ [t, name]))
    (hheard : s.truncated = false) (htoken : (ts ++ [t, name])[n + 2]? = some token) :
    Ends s (withBudget (n + 2)).body (Resumed s token op (.identifier b name.span)) := by
  have hends := Grammar.endsChain_of_operator hop
  have hloosest : l + 1 ≤ BinaryOp.loosest := by
    rw [← (Grammar.mem_binaryAt.mp hop).2]
    exact op.looseness_le
  cases h with
  | @parens _ ts o c ho h hc =>
    have htokens : o :: (ts ++ [c]) ++ [t, name] = o :: (ts ++ c :: [t, name]) := by simp
    rw [htokens] at hs htoken
    have hinner := ends_body_nested hcore h hs.advance.1 hc
      (s.advance_frame.2.1.trans hheard) htoken
    have hprefixed : Ends s (withBudget (n + 1)).prefixed (GivenUp s token [t, name]) := by
      refine ends_prefixed_parens hs ho hc ?_ hinner
      rw [nextKind_cons, ht]
      exact hends.mono (Nat.zero_le l)
    have hleft : Ends s ((withBudget (n + 1)).climb l) (GivenUp s token [t, name]) := by
      refine ends_climb_up (Nat.zero_le l) hprefixed fun s' e he => ?_
      rw [he.left.current_eq, ht]
      exact hends
    have hresumed := ends_climb_resumed ht hop hname hleft
    refine ends_expression_end ?_ (ends_climb_up hloosest hresumed fun s' e he => ?_)
      fun s' e he => ?_
    · rw [hs.ahead]
      refine (h.paired hcore).not_lambdaAhead ho (Token.isClosing_of_kind hc rfl) ?_
      rw [nextKind_cons, ht]
      exact hends.not_arrow
    · rw [he.left.current_kind]
      exact Grammar.endsChain_eof _
    · rw [he.left.current_kind]
      exact TokenKind.noConfusion

/-- A whole input is read if an expression is read that leaves nothing. -/
theorem ends_whole_end {P : ParserState → Expr → Prop} (hs : s.current.isEof = false)
    (h : Ends s (withBudget maxDepth).body P) (hend : ∀ s' e, P s' e → s'.At []) :
    Ends s whole fun s' e => ∃ s₁, P s₁ e ∧ s'.diagnostics = s₁.diagnostics := by
  refine ends_current ?_
  rw [hs]
  refine Ends.bind h fun e s₁ he => ?_
  have htrailing : Ends s₁ trailing fun s' _ => s'.diagnostics = s₁.diagnostics := by
    refine ends_current ?_
    rw [(hend s₁ e he).current_kind]
    exact rfl
  exact Ends.bind htrailing fun _ s₂ hs₂ => ends_pure ⟨s₁, he, hs₂⟩

end Parser

/-! ## 6. Whole inputs -/

theorem Nested.length_eq {core ts : List Token} {n : Nat} (h : Nested core n ts) :
    ts.length = core.length + 2 * n := by
  induction h with
  | core => rfl
  | parens _ _ _ ih =>
    simp only [List.length_cons, List.length_append, List.length_nil]
    omega

theorem Nested.opens {core ts : List Token} {n : Nat} (h : Nested core (n + 1) ts) :
    ∃ o us, ts = o :: us ∧ o.kind = .sign .lParen := by
  cases h with
  | parens ho => exact ⟨_, _, rfl, ho⟩

theorem Nested.not_eof {core ts : List Token} {n : Nat} (h : Nested core n ts)
    (hcore : ∀ t ∈ core, t.kind ≠ .eof) : ∀ t ∈ ts, t.kind ≠ .eof := by
  induction h with
  | core => exact hcore
  | parens ho _ hc ih =>
    intro t ht
    rcases List.mem_cons.mp ht with rfl | ht
    · simp [ho]
    · rcases List.mem_append.mp ht with ht | ht
      · exact ih t ht
      · simp [List.mem_singleton.mp ht, hc]

/-- Parentheses that use up all levels, and an operator and a name behind them. -/
theorem parseTokens_nested {core ts rest : List Token} {t name : Token} {sign : Sign}
    {op : BinaryOp} {b : String} (h : Nested core maxDepth ts) (hcore : Paired core)
    (hread : ∀ t ∈ core, t.kind ≠ .eof) (ht : t.kind = .sign sign)
    (hop : BinaryOp.ofSign? sign = some op) (hname : name.kind = .identifier b)
    (hrest : nextKind rest = .eof) :
    ∃ token stop, (ts ++ [t, name])[maxDepth]? = some token ∧
      parseTokens (ts ++ [t, name] ++ rest) =
        ⟨.joined op (.error ⟨token.span.start, stop⟩) (.identifier b name.span),
          [⟨token.span, .tooDeeplyNested⟩]⟩ := by
  have hlength := h.length_eq
  obtain ⟨token, htoken⟩ : ∃ token, (ts ++ [t, name])[maxDepth]? = some token := by
    refine ⟨_, List.getElem?_eq_getElem ?_⟩
    simp only [List.length_append, List.length_cons]
    omega
  have hends : ∀ u ∈ ts ++ [t, name], u.kind ≠ .eof := by
    intro u hu
    rcases List.mem_append.mp hu with hu | hu
    · exact h.not_eof hread u hu
    · simp only [List.mem_cons, List.not_mem_nil, or_false] at hu
      rcases hu with rfl | rfl <;> simp [ht, hname]
  have hlevel : (sign, op) ∈ Grammar.binaryAt (op.looseness - 1) :=
    Grammar.mem_binaryAt.mpr ⟨hop, (Nat.sub_add_cancel op.looseness_pos).symm⟩
  have hs := ParserState.at_ofTokens_append hends rest hrest
  have hcurrent : (ParserState.ofTokens (ts ++ [t, name] ++ rest)).current.isEof = false := by
    obtain ⟨o, us, rfl, ho⟩ := h.opens
    rw [hs.current_eq]
    simp [Token.isEof, ho]
  obtain ⟨s₁, he, hreports⟩ := ends_whole_end hcurrent
    (ends_body_resumed hcore h ht hlevel hname hs rfl htoken) fun _ _ he => he.left
  obtain ⟨stop, hnode⟩ := he.node
  refine ⟨token, stop, htoken, ?_⟩
  show (⟨(whole.run _).1, (whole.run _).2.diagnostics⟩ : Parsed) = _
  rw [hnode, hreports, he.reported]
  rfl

/-- **Recovery from nesting that is too deep.** Let at least `maxDepth` opening parentheses, any
    tokens with their delimiters in pairs, as many closing parentheses, a binary operator and a
    name follow one another. Then the parentheses are an error node, the operator has it and the
    name for its operands, and one report says that the nesting is too deep, at the token with
    the index `maxDepth`. -/
theorem parseTokens_tooDeep {opens ts closes rest : List Token} {t name : Token} {sign : Sign}
    {op : BinaryOp} {b : String} (ho : ∀ t ∈ opens, t.kind = .sign .lParen)
    (hdeep : maxDepth ≤ opens.length) (hts : Paired ts) (hread : ∀ t ∈ ts, t.kind ≠ .eof)
    (hc : ∀ t ∈ closes, t.kind = .sign .rParen) (hlength : closes.length = opens.length)
    (ht : t.kind = .sign sign) (hop : BinaryOp.ofSign? sign = some op)
    (hname : name.kind = .identifier b) (hrest : nextKind rest = .eof) :
    let tokens : List Token := opens ++ ts ++ closes ++ [t, name]
    ∃ token stop, tokens[maxDepth]? = some token ∧ parseTokens (tokens ++ rest) =
      ⟨.joined op (.error ⟨token.span.start, stop⟩) (.identifier b name.span),
        [⟨token.span, .tooDeeplyNested⟩]⟩ := by
  have hnested : Nested ts opens.length (opens ++ ts ++ closes) := nested_of_length ho hc hlength
  rw [← Nat.add_sub_cancel' hdeep] at hnested
  obtain ⟨inner, hinner, houter⟩ := hnested.split
  exact parseTokens_nested houter (hinner.paired hts) (hinner.not_eof hread) ht hop hname hrest

/-- Around `[x}`, whose delimiters do not match, stand 129 pairs of parentheses, and `* b` behind
    them: the last parenthesis that opens is reported. -/
theorem parseTokens_tooDeep_mismatched :
    let token (kind : TokenKind) (i : Nat) : Token := ⟨kind, "", ⟨i, i + 1⟩⟩
    let opens := (List.range 129).map (token (.sign .lParen))
    let inner := [token (.sign .lBracket) 129, token (.identifier "x") 130,
      token (.sign .rBrace) 131]
    let closes := (List.range' 132 129).map (token (.sign .rParen))
    let others := [token (.sign .star) 261, token (.identifier "b") 262]
    ∃ stop, parseTokens (opens ++ inner ++ closes ++ others ++ [Token.eofAt 263]) =
      ⟨.joined .multiply (.error ⟨128, stop⟩) (.identifier "b" ⟨262, 263⟩),
        [⟨⟨128, 129⟩, .tooDeeplyNested⟩]⟩ := by
  intro token opens inner closes others
  have hinner : Paired inner := by
    have hname : Paired [token (.identifier "x") 130] := paired_plain (by decide)
    exact hname.enclose rfl rfl
  have hkind : ∀ kind (places : List Nat), ∀ t ∈ places.map (token kind), t.kind = kind := by
    intro kind places t ht
    obtain ⟨i, -, rfl⟩ := List.mem_map.mp ht
    rfl
  have hlength : closes.length = opens.length := by simp [opens, closes]
  have hdeep : maxDepth ≤ opens.length := by simp [opens, maxDepth]
  obtain ⟨found, stop, hfound, hparse⟩ := parseTokens_tooDeep (hkind _ _) hdeep hinner
    (by decide) (hkind _ _) hlength (rfl : (token (.sign .star) 261).kind = _) rfl
    (rfl : (token (.identifier "b") 262).kind = _) (rfl : nextKind [Token.eofAt 263] = .eof)
  have hlast : found = token (.sign .lParen) 128 := (Option.some.inj hfound).symm
  rw [hlast] at hparse
  exact ⟨stop, hparse⟩

end FlowExpr
