import FlowExpr.Proofs.Expr.Completeness

/-!
# What reading can do

Everything that the parser does, at every budget and on every list of tokens, said once and
without the budget, the levels of operators or the order in which a chain is put together:

* `ParserState.Closes`: how a construct ends;
* `ParserState.Reads s es s'`: from the state `s` to the state `s'` the trees `es` are read, one
  after another. It has one rule for each shape of a tree and for each way to recover;
* `Rules.follows_withBudget`: the rules of every budget read as these rules say;
* `ParserState.Moves`: what reading does to the state, whatever it reads.

So a property of all that is read needs one case for each rule, and a property of states one for
taking tokens, for reporting and for giving up.
-/

namespace FlowExpr

/-! ## 1. States -/

namespace ParserState

/-- Where the next token begins. -/
def here (s : ParserState) : Nat := s.current.span.start

/-- The next token is reported as not the expected one. -/
def unexpected (s : ParserState) (expected : Expected) : ParserState :=
  s.report s.current.span (.unexpectedToken expected s.current.kind)

/-- No level is left: this is reported, and the construct is skipped. -/
def giveUp (s : ParserState) : ParserState := (s.report s.current.span .tooDeeplyNested).skip

@[simp] theorem ahead_report (s : ParserState) (span : Span) (problem : Problem) :
    (s.report span problem).ahead = s.ahead := by
  unfold report
  split <;> rfl

@[simp] theorem eof_report (s : ParserState) (span : Span) (problem : Problem) :
    (s.report span problem).eof = s.eof := by
  unfold report
  split <;> rfl

@[simp] theorem lastEnd_report (s : ParserState) (span : Span) (problem : Problem) :
    (s.report span problem).lastEnd = s.lastEnd := by
  unfold report
  split <;> rfl

@[simp] theorem truncated_report (s : ParserState) (span : Span) (problem : Problem) :
    (s.report span problem).truncated = s.truncated := by
  unfold report
  split <;> rfl

@[simp] theorem current_report (s : ParserState) (span : Span) (problem : Problem) :
    (s.report span problem).current = s.current := by
  unfold current
  rw [ahead_report, eof_report]

@[simp] theorem here_report (s : ParserState) (span : Span) (problem : Problem) :
    (s.report span problem).here = s.here := by
  unfold here
  rw [current_report]

@[simp] theorem current_unexpected (s : ParserState) (expected : Expected) :
    (s.unexpected expected).current = s.current :=
  s.current_report _ _

/-- A report comes after those that are there, or nothing is reported any more. -/
theorem diagnostics_report (s : ParserState) (span : Span) (problem : Problem) :
    (s.report span problem).diagnostics = s.diagnostics ++ [⟨span, problem⟩] ∨
      s.truncated = true ∧ (s.report span problem).diagnostics = s.diagnostics := by
  unfold report
  split
  · rename_i h
    exact .inr ⟨h, rfl⟩
  · exact .inl rfl

/-- The next token is one of those that are left, or the end. -/
theorem current_mem (s : ParserState) : s.current ∈ s.ahead ∨ s.current = s.eof := by
  unfold current
  cases s.ahead with
  | nil => exact .inr rfl
  | cons t rest => exact .inl List.mem_cons_self

end ParserState

/-! ## 2. Trees -/

/-- The tree that a token is by itself. -/
def Token.atom? (t : Token) : Option Expr :=
  match t.kind with
  | .integer n => some (.literal (.integer n) t.span)
  | .decimal d => some (.literal (.decimal d) t.span)
  | .string text => some (.literal (.string text) t.span)
  | .boolean b => some (.literal (.boolean b) t.span)
  | .null => some (.literal .null t.span)
  | .identifier name => some (.identifier name t.span)
  | .invalid => some (.error t.span)
  | _ => none

/-- Such a tree is a leaf in the place of the token. -/
theorem Token.atom?_eq_some {t : Token} {e : Expr} (h : t.atom? = some e) :
    t.kind ≠ .eof ∧ e.span = t.span ∧ e.leaves = [e.span] ∧ e.children = [] := by
  unfold atom? at h
  split at h <;> simp_all only [reduceCtorEq, Option.some.injEq]
  all_goals
    subst h
    exact ⟨TokenKind.noConfusion, rfl, rfl, rfl⟩

namespace ParserState

/-- A construct ends with its closing delimiter, or where the last token that was taken ends, with
    a report. -/
inductive Closes (sign : Sign) (delimiter : Char) (s : ParserState) :
    Nat → ParserState → Prop where
  | closed (hk : s.current.kind = .sign sign) :
      Closes sign delimiter s s.current.span.stop s.advance
  | unclosed :
      Closes sign delimiter s s.lastEnd (s.report (Span.empty s.here) (.unclosed delimiter))

/-- From one state to the other these trees are read, one after another. -/
inductive Reads : ParserState → List Expr → ParserState → Prop where
  -- rows of trees, with a comma or a colon between them
  | none (s : ParserState) : Reads s [] s
  | next {s₀ s s' : ParserState} {es es' : List Expr} {sign : Sign} (h : Reads s₀ es s)
      (hk : s.current.kind = .sign sign) (h' : Reads s.advance es' s') : Reads s₀ (es ++ es') s'
  | lacking {s₀ s : ParserState} {es : List Expr} (h : Reads s₀ es s) :
      Reads s₀ (es ++ [.error (Span.empty s.here)]) (s.unexpected .colon)
  -- leaves, and what stands in the place of one
  | atom {s : ParserState} {e : Expr} (he : s.current.atom? = some e) : Reads s [e] s.advance
  | missing (s : ParserState) :
      Reads s [.error (Span.empty s.here)] (s.unexpected .expression)
  | useless {s : ParserState} (hk : s.current.kind ≠ .eof) :
      Reads s [.error s.current.span] (s.unexpected .expression).advance
  | deep (s : ParserState) :
      Reads s [.error ⟨s.here, max s.giveUp.lastEnd s.here⟩] s.giveUp
  -- what is put in brackets
  | parens {s s₁ s₂ : ParserState} {e : Expr} {stop : Nat}
      (hk : s.current.kind = .sign .lParen) (h : Reads s.advance [e] s₁)
      (hc : s₁.Closes .rParen ')' stop s₂) : Reads s [e] s₂
  | list {s s₁ s₂ : ParserState} {items : List Expr} {stop : Nat}
      (hk : s.current.kind = .sign .lBracket) (h : Reads s.advance items s₁)
      (hc : s₁.Closes .rBracket ']' stop s₂) : Reads s [.list items ⟨s.here, stop⟩] s₂
  | set {s s₁ s₂ : ParserState} {items : List Expr} {stop : Nat}
      (hk : s.current.kind = .sign .lBrace) (h : Reads s.advance items s₁)
      (hc : s₁.Closes .rBrace '}' stop s₂) : Reads s [.set items ⟨s.here, stop⟩] s₂
  | map {s s₁ s₂ : ParserState} {entries : List (Expr × Expr)} {stop : Nat}
      (hk : s.current.kind = .sign .lBrace)
      (h : Reads s.advance (entries.flatMap fun entry => [entry.1, entry.2]) s₁)
      (hc : s₁.Closes .rBrace '}' stop s₂) : Reads s [.map entries ⟨s.here, stop⟩] s₂
  -- postfixes
  | property {s₀ s : ParserState} {target : Expr} {name : String} (h : Reads s₀ [target] s)
      (hk : s.current.kind = .sign .dot) (hn : s.advance.current.memberName? = some name) :
      Reads s₀ [.property target (some name) s.advance.current.span
        ⟨target.span.start, s.advance.current.span.stop⟩] s.advance.advance
  | nameless {s₀ s : ParserState} {target : Expr} (h : Reads s₀ [target] s)
      (hk : s.current.kind = .sign .dot) :
      Reads s₀ [.property target .none (Span.empty s.current.span.stop)
        ⟨target.span.start, s.current.span.stop⟩]
        (s.advance.report s.current.span .missingPropertyName)
  | index {s₀ s s₁ s₂ : ParserState} {target i : Expr} {stop : Nat} (h : Reads s₀ [target] s)
      (hk : s.current.kind = .sign .lBracket) (hi : Reads s.advance [i] s₁)
      (hc : s₁.Closes .rBracket ']' stop s₂) :
      Reads s₀ [.index target i ⟨target.span.start, stop⟩] s₂
  | call {s₀ s s₁ s₂ : ParserState} {target : Expr} {args : List Expr} {stop : Nat}
      (h : Reads s₀ [target] s) (hk : s.current.kind = .sign .lParen)
      (hi : Reads s.advance args s₁) (hc : s₁.Closes .rParen ')' stop s₂) :
      Reads s₀ [.call target args ⟨target.span.start, stop⟩] s₂
  | skipped {s₀ s : ParserState} {e : Expr} (h : Reads s₀ [e] s) : Reads s₀ [e] s.giveUp
  -- operators
  | unary {s s' : ParserState} {sign : Sign} {op : UnaryOp} {operand : Expr}
      (hk : s.current.kind = .sign sign) (h : Reads s.advance [operand] s') :
      Reads s [.unary op operand ⟨s.here, operand.span.stop⟩] s'
  | binary {s₀ s s' : ParserState} {sign : Sign} {op : BinaryOp} {left right : Expr}
      (h : Reads s₀ [left] s) (hk : s.current.kind = .sign sign)
      (h' : Reads s.advance [right] s') : Reads s₀ [.joined op left right] s'
  | ternary {s₀ s s' : ParserState} {condition yes no : Expr} (h : Reads s₀ [condition] s)
      (hk : s.current.kind = .sign .question) (h' : Reads s.advance [yes, no] s') :
      Reads s₀ [.ternary condition yes no
        ⟨condition.span.start, max no.span.stop yes.span.stop⟩] s'
  | lambda {s s' : ParserState} {body : Expr} (hl : Parser.lambdaAhead s.ahead = true)
      (h : Reads (Parser.lambdaHead.run s).2 [body] s') :
      Reads s [.lambda (Parser.lambdaHead.run s).1 body ⟨s.here, body.span.stop⟩] s'

end ParserState

/-! ## 3. Runs -/

namespace Parser

variable {α β : Type} {s : ParserState}

/-- The run ends in a state and with a value as described. -/
def Ends (s : ParserState) (p : Parser α) (post : ParserState → α → Prop) : Prop :=
  post (p.run s).2 (p.run s).1

theorem ends_pure {a : α} {post : ParserState → α → Prop} (h : post s a) : Ends s (pure a) post := h

theorem Ends.imp {p : Parser α} {P Q : ParserState → α → Prop} (h : Ends s p P)
    (hpq : ∀ s' a, P s' a → Q s' a) : Ends s p Q := hpq _ _ h

theorem Ends.bind {p : Parser α} {f : α → Parser β} {P : ParserState → α → Prop}
    {post : ParserState → β → Prop} (h : Ends s p P)
    (hf : ∀ a s', P s' a → Ends s' (f a) post) : Ends s (p >>= f) post := hf _ _ h

theorem ends_current {f : Token → Parser α} {post : ParserState → α → Prop}
    (h : Ends s (f s.current) post) : Ends s (current >>= f) post := h

theorem ends_get {f : ParserState → Parser α} {post : ParserState → α → Prop}
    (h : Ends s (f s) post) : Ends s (get >>= f) post := h

theorem ends_advance {f : Unit → Parser α} {post : ParserState → α → Prop}
    (h : Ends s.advance (f ()) post) : Ends s (advance >>= f) post := h

theorem ends_unexpected {expected : Expected} {f : Unit → Parser α}
    {post : ParserState → α → Prop} (h : Ends (s.unexpected expected) (f ()) post) :
    Ends s (unexpected expected >>= f) post := h

theorem ends_report {span : Span} {problem : Problem} {f : Unit → Parser α}
    {post : ParserState → α → Prop} (h : Ends (s.report span problem) (f ()) post) :
    Ends s (report span problem >>= f) post := h

/-- A sign is taken where it is next, or nothing happens. -/
theorem ends_eat {sign : Sign} {f : Bool → Parser α} {post : ParserState → α → Prop}
    (hyes : s.current.kind = .sign sign → Ends s.advance (f true) post)
    (hno : s.current.kind ≠ .sign sign → Ends s (f false) post) :
    Ends s (eat sign >>= f) post := by
  have hrun : (eat sign >>= f).run s =
      (f ((eat sign).run s).1).run ((eat sign).run s).2 := rfl
  rw [run_eat] at hrun
  unfold Ends
  rw [hrun]
  by_cases hk : s.current.kind = .sign sign
  · rw [if_pos hk]
    exact hyes hk
  · rw [if_neg hk]
    exact hno hk

theorem ends_closing (sign : Sign) (delimiter : Char) :
    Ends s (closing sign delimiter) fun s' stop => s.Closes sign delimiter stop s' := by
  refine ends_current (ends_eat (fun hk => ends_pure (.closed hk)) fun _ => ?_)
  have hlast := s.lastEnd_report (Span.empty s.here) (.unclosed delimiter)
  show s.Closes sign delimiter (s.report (Span.empty s.here) (.unclosed delimiter)).lastEnd _
  rw [hlast]
  exact .unclosed

theorem ends_tooDeep : Ends s tooDeep fun s' e =>
    s' = s.giveUp ∧ e = .error ⟨s.here, max s.giveUp.lastEnd s.here⟩ := ⟨rfl, rfl⟩

/-! ### Rows -/

section

variable {item : Parser α} {P : List α → ParserState → Prop}
variable (hitem : ∀ as s, s.current.kind = .sign .comma → P as s →
  Ends s.advance item fun s' a => P (as ++ [a]) s')

include hitem

/-- What holds of a row and the state behind it goes on to hold with each item after a comma. -/
theorem ends_afterCommasUpTo : ∀ (n : Nat) {as : List α} {s : ParserState}, P as s →
    Ends s (afterCommasUpTo item n) fun s' others => P (as ++ others) s'
  | 0, as, s, h => ends_pure (by rwa [List.append_nil])
  | n + 1, as, s, h => by
      refine ends_eat (fun hk => ?_) fun _ => ends_pure (by rwa [List.append_nil])
      refine Ends.bind (hitem as s hk h) fun a s₁ ha => ?_
      refine Ends.bind (ends_afterCommasUpTo n ha) fun others s₂ hothers => ends_pure ?_
      rwa [List.append_cons]

theorem ends_afterCommas {as : List α} (h : P as s) :
    Ends s (afterCommas item) fun s' others => P (as ++ others) s' :=
  ends_get (ends_afterCommasUpTo hitem s.ahead.length h)

theorem ends_commaSeparated {close : Sign} (hnone : P [] s)
    (hfirst : Ends s item fun s' a => P [a] s') :
    Ends s (commaSeparated item close) fun s' as => P as s' := by
  refine ends_current ?_
  split
  · exact ends_pure hnone
  · refine Ends.bind hfirst fun first s₁ h => ?_
    exact Ends.bind (ends_afterCommas hitem h) fun others s₂ hothers => ends_pure hothers

end

/-- Items that each follow a comma continue a row of trees. -/
theorem ends_reads_afterCommas {item : Parser α} {trees : α → List Expr}
    (hitem : ∀ s, Ends s item fun s' a => s.Reads (trees a) s') {s₀ : ParserState} {es : List Expr}
    (h : s₀.Reads es s) :
    Ends s (afterCommas item) fun s' as => s₀.Reads (es ++ as.flatMap trees) s' := by
  have hrow : s₀.Reads (es ++ [].flatMap trees) s := by
    rwa [List.flatMap_nil, List.append_nil]
  refine ends_afterCommas (P := fun as s' => s₀.Reads (es ++ as.flatMap trees) s')
    (fun as s₁ hk h₁ => (hitem s₁.advance).imp fun s' a ha => ?_) hrow
  rw [List.flatMap_append, List.flatMap_singleton, ← List.append_assoc]
  exact h₁.next hk ha

theorem ends_reads_commaSeparated {item : Parser Expr} {close : Sign}
    (hitem : ∀ s, Ends s item fun s' e => s.Reads [e] s') :
    Ends s (commaSeparated item close) fun s' es => s.Reads es s' :=
  ends_commaSeparated (fun _ s₁ hk h => (hitem s₁.advance).imp fun _ _ he => h.next hk he) (.none s)
    (hitem s)

end Parser

/-! ## 4. Rules -/

open FlowExpr.Parser FlowExpr.Rules

/-- What the rules read. A postfix continues its target, and a chain its left operand once the
    operator is taken, wherever these began. -/
structure Rules.Follows (r : Rules) : Prop where
  body : ∀ s, Ends s r.body fun s' e => s.Reads [e] s'
  unary : ∀ s, Ends s r.unary fun s' e => s.Reads [e] s'
  access : ∀ s target, Ends s (r.access target) fun s' e =>
    ∀ s₀ : ParserState, s₀.Reads [target] s → s₀.Reads [e] s'
  chain : ∀ (s : ParserState) l op left sign, s.current.kind = .sign sign →
    Ends s.advance (r.chain l op left) fun s' e =>
      ∀ s₀ : ParserState, s₀.Reads [left] s → s₀.Reads [e] s'

theorem Rules.follows_exhausted : Rules.Follows exhausted where
  body s := ends_tooDeep.imp fun _ _ ⟨hs, he⟩ => hs ▸ he ▸ .deep s
  unary s := ends_tooDeep.imp fun _ _ ⟨hs, he⟩ => hs ▸ he ▸ .deep s
  access _ _ := Ends.bind ends_tooDeep fun _ _ ⟨hs, _⟩ =>
    ends_pure fun _ h => hs ▸ h.skipped
  chain s _ _ _ _ hk := Ends.bind ends_tooDeep fun _ _ ⟨hs, he⟩ =>
    ends_pure fun _ h => hs ▸ he ▸ h.binary hk (.deep s.advance)

section Level

variable {r : Rules} {s : ParserState}

/-! ### Postfixes -/

theorem ends_postfixes (hr : Rules.Follows r) (target : Expr) :
    Ends s (r.postfixes target) fun s' e =>
      ∀ s₀ : ParserState, s₀.Reads [target] s → s₀.Reads [e] s' := by
  refine ends_current ?_
  split
  · exact hr.access s target
  · exact hr.access s target
  · exact hr.access s target
  · exact ends_pure fun _ h => h

theorem ends_member (hk : s.current.kind = .sign .dot) (target : Expr) :
    Ends s (member target) fun s' e =>
      ∀ s₀ : ParserState, s₀.Reads [target] s → s₀.Reads [e] s' := by
  refine ends_current (ends_advance (ends_current ?_))
  split
  · rename_i name hn
    exact ends_advance (ends_pure fun _ h => h.property hk hn)
  · exact ends_report (ends_pure fun _ h => h.nameless hk)

theorem ends_onePostfix (hr : Rules.Follows r) (target : Expr) :
    Ends s (r.onePostfix target) fun s' e =>
      ∀ s₀ : ParserState, s₀.Reads [target] s → s₀.Reads [e] s' := by
  refine ends_current ?_
  split
  · rename_i hk
    refine Ends.bind (ends_member hk target) fun e s₁ he => ?_
    exact (ends_postfixes hr e).imp fun _ _ h s₀ ht => h s₀ (he s₀ ht)
  · rename_i hk
    refine ends_advance (Ends.bind (hr.body s.advance) fun i s₁ hi => ?_)
    refine Ends.bind (ends_closing .rBracket ']') fun stop s₂ hc => ?_
    exact (ends_postfixes hr _).imp fun _ _ h s₀ ht => h s₀ (ht.index hk hi hc)
  · rename_i hk
    refine ends_advance (Ends.bind (ends_reads_commaSeparated hr.body) fun args s₁ hargs => ?_)
    refine Ends.bind (ends_closing .rParen ')') fun stop s₂ hc => ?_
    exact (ends_postfixes hr _).imp fun _ _ h s₀ ht => h s₀ (ht.call hk hargs hc)
  · exact ends_pure fun _ h => h

/-! ### What stands alone -/

theorem ends_entry (hr : Rules.Follows r) (s : ParserState) :
    Ends s r.entry fun s' entry => s.Reads [entry.1, entry.2] s' := by
  refine Ends.bind (hr.body s) fun key s₁ hkey => ?_
  refine ends_eat (fun hk => ?_) fun _ => ends_unexpected (ends_current ?_)
  · exact Ends.bind (hr.body s₁.advance) fun value s₂ hvalue => ends_pure (hkey.next hk hvalue)
  · rw [ParserState.current_unexpected]
    exact ends_pure hkey.lacking

theorem ends_braces (hr : Rules.Follows r) (hk : s.current.kind = .sign .lBrace) :
    Ends s.advance (r.braces s.here) fun s' e => s.Reads [e] s' := by
  refine ends_current (ends_eat (fun hclose => ends_pure ?_) fun _ => ?_)
  · exact .map hk (.none _) (.closed hclose)
  · refine Ends.bind (hr.body s.advance) fun first s₁ hfirst => ?_
    refine ends_eat (fun hcolon => ?_) fun _ => ?_
    · refine Ends.bind (hr.body s₁.advance) fun value s₂ hvalue => ?_
      have hentry := hfirst.next hcolon hvalue
      refine Ends.bind (ends_reads_afterCommas (ends_entry hr) hentry) fun others s₃ hothers => ?_
      exact Ends.bind (ends_closing .rBrace '}') fun stop s₄ hc => ends_pure (.map hk hothers hc)
    · refine Ends.bind (ends_reads_afterCommas hr.body hfirst) fun others s₂ hothers => ?_
      rw [List.flatMap_singleton'] at hothers
      exact Ends.bind (ends_closing .rBrace '}') fun stop s₃ hc => ends_pure (.set hk hothers hc)

theorem ends_primary (hr : Rules.Follows r) :
    Ends s r.primary fun s' e => s.Reads [e] s' := by
  have hatom : ∀ e, s.current.atom? = some e →
      Ends s (advance >>= fun _ => pure e) fun s' e => s.Reads [e] s' :=
    fun e he => ends_advance (ends_pure (.atom he))
  have hleft : Ends s (unexpected .expression >>= fun _ =>
      pure (Expr.error (Span.empty s.current.span.start))) fun s' e => s.Reads [e] s' :=
    ends_unexpected (ends_pure (.missing s))
  refine ends_current ?_
  split
  next hk => exact hatom _ (by simp [Token.atom?, hk])
  next hk => exact hatom _ (by simp [Token.atom?, hk])
  next hk => exact hatom _ (by simp [Token.atom?, hk])
  next hk => exact hatom _ (by simp [Token.atom?, hk])
  next hk => exact hatom _ (by simp [Token.atom?, hk])
  next hk => exact hatom _ (by simp [Token.atom?, hk])
  next hk => exact hatom _ (by simp [Token.atom?, hk])
  next hk =>
    refine ends_advance (Ends.bind (hr.body s.advance) fun e s₁ he => ?_)
    exact Ends.bind (ends_closing .rParen ')') fun _ s₂ hc => ends_pure (.parens hk he hc)
  next hk =>
    refine ends_advance (Ends.bind (ends_reads_commaSeparated hr.body) fun items s₁ hitems => ?_)
    exact Ends.bind (ends_closing .rBracket ']') fun _ s₂ hc => ends_pure (.list hk hitems hc)
  next hk => exact ends_advance (ends_braces hr hk)
  next => exact hleft
  next => exact hleft
  next => exact hleft
  next => exact hleft
  next => exact hleft
  next => exact hleft
  next => exact ends_unexpected (ends_advance (ends_pure (.useless (by assumption))))

/-! ### Operators -/

theorem ends_prefixed (hr : Rules.Follows r) :
    Ends s r.prefixed fun s' e => s.Reads [e] s' := by
  have haccess : Ends s (r.primary >>= r.postfixes) fun s' e => s.Reads [e] s' :=
    Ends.bind (ends_primary hr) fun e _ he => (ends_postfixes hr e).imp fun _ _ h => h s he
  refine ends_current ?_
  split
  · rename_i sign hk
    split
    · refine ends_advance (Ends.bind (hr.unary s.advance) fun operand s₁ ho => ?_)
      exact ends_pure (.unary hk ho)
    · exact haccess
  · exact haccess

theorem ends_chainRest (hr : Rules.Follows r) (l : Nat) (left : Expr) :
    Ends s (r.chainRest l left) fun s' e =>
      ∀ s₀ : ParserState, s₀.Reads [left] s → s₀.Reads [e] s' := by
  refine ends_current ?_
  split
  · rename_i op ho
    obtain ⟨sign, hk, -⟩ := Grammar.exists_sign_of_operator? ho
    exact ends_advance (hr.chain s l op left sign hk)
  · exact ends_pure fun _ h => h

theorem ends_climb (hr : Rules.Follows r) :
    ∀ (l : Nat) (s : ParserState), Ends s (r.climb l) fun s' e => s.Reads [e] s'
  | 0, _ => ends_prefixed hr
  | l + 1, s =>
      Ends.bind (ends_climb hr l s) fun e _ he =>
        (ends_chainRest hr l e).imp fun _ _ h => h s he

theorem ends_rightOperand (hr : Rules.Follows r) (l : Nat) (op : BinaryOp) (left : Expr)
    {sign : Sign} (hk : s.current.kind = .sign sign) :
    Ends s.advance (r.rightOperand l op left) fun s' e =>
      ∀ s₀ : ParserState, s₀.Reads [left] s → s₀.Reads [e] s' := by
  refine Ends.bind (ends_climb hr l s.advance) fun right s₁ hright => ?_
  refine (ends_chainRest hr l _).imp fun _ _ h s₀ hleft => ?_
  exact h s₀ (hleft.binary hk hright)

/-! ### Whole expressions -/

theorem ends_conditional (hr : Rules.Follows r) :
    Ends s r.conditional fun s' e => s.Reads [e] s' := by
  refine Ends.bind (ends_climb hr BinaryOp.loosest s) fun condition s₁ hc => ?_
  refine ends_eat (fun hk => ?_) fun _ => ends_pure hc
  refine Ends.bind (hr.body s₁.advance) fun yes s₂ hyes => ?_
  refine ends_eat (fun hcolon => ?_) fun _ => ends_unexpected (ends_current ?_)
  · refine Ends.bind (hr.body s₂.advance) fun no s₃ hno => ends_pure ?_
    exact hc.ternary hk (hyes.next hcolon hno)
  · rw [ParserState.current_unexpected]
    exact ends_pure (hc.ternary hk hyes.lacking)

theorem ends_expression (hr : Rules.Follows r) :
    Ends s r.expression fun s' e => s.Reads [e] s' := by
  refine ends_get ?_
  split
  · rename_i hl
    -- once the head is taken, all that is left is the body
    have hbody := (hr.body (lambdaHead.run s).2).imp fun _ _ h => ParserState.Reads.lambda hl h
    exact hbody
  · exact ends_conditional hr

/-- One more level: rules built from rules that follow these do so too. -/
theorem Rules.Follows.within (hr : Rules.Follows r) : Rules.Follows r.within where
  body _ := ends_expression hr
  unary _ := ends_prefixed hr
  access _ target := ends_onePostfix hr target
  chain _ l op left _ hk := ends_rightOperand hr l op left hk

end Level

/-- **The rules of every budget read as described.** -/
theorem Rules.follows_withBudget : ∀ n, Rules.Follows (withBudget n)
  | 0 => follows_exhausted
  | n + 1 => (follows_withBudget n).within

/-! ## 5. What reading does to the state -/

namespace ParserState

/-- From one state to the other, tokens are taken from the front, something is reported at a token
    or in front of one, or a construct is given up. -/
inductive Moves (s : ParserState) : ParserState → Prop where
  | refl : Moves s s
  | take {s₁ s₂ : ParserState} {taken : List Token} (h : Moves s s₁)
      (hahead : s₁.ahead = taken ++ s₂.ahead) (heof : s₂.eof = s₁.eof)
      (hlast : s₂.lastEnd = (taken.getLast?.map fun t => t.span.stop).getD s₁.lastEnd)
      (htruncated : s₂.truncated = s₁.truncated) (hd : s₂.diagnostics = s₁.diagnostics) :
      Moves s s₂
  | report {s₁ : ParserState} {t : Token} {span : Span} {problem : Problem} (h : Moves s s₁)
      (ht : t ∈ s.ahead ∨ t = s.eof) (hspan : span = t.span ∨ span = Span.empty t.span.start) :
      Moves s (s₁.report span problem)
  | giveUp {s₁ : ParserState} (h : Moves s s₁) : Moves s s₁.giveUp

variable {s s₁ s' : ParserState} {es : List Expr}

/-- What is skipped comes first. -/
theorem skipped_isPrefix (depth : Nat) (ts : List Token) : skipped depth ts <+: ts := by
  fun_induction skipped depth ts with
  | case1 => exact List.nil_prefix
  | case3 => exact List.nil_prefix
  | case2 _ _ _ _ _ _ ih | case4 _ _ _ _ _ _ _ ih | case5 _ _ _ _ _ _ _ ih | case6 _ _ _ _ ih =>
    exact (List.prefix_cons_inj _).mpr ih

theorem skipped_append_skip (s : ParserState) : skipped 0 s.ahead ++ s.skip.ahead = s.ahead :=
  List.prefix_iff_eq_append.mp (skipped_isPrefix 0 s.ahead)

/-- No token is new. -/
theorem Moves.tokens (h : s.Moves s') : s'.ahead ⊆ s.ahead ∧ s'.eof = s.eof := by
  induction h with
  | refl => exact ⟨List.Subset.refl _, rfl⟩
  | take _ hahead heof _ _ _ ih =>
    refine ⟨fun t ht => ih.1 ?_, heof.trans ih.2⟩
    rw [hahead]
    exact List.mem_append_right _ ht
  | report _ _ _ ih => simpa using ih
  | @giveUp s₁ _ ih =>
    have hsplit := (s₁.report s₁.current.span .tooDeeplyNested).skipped_append_skip
    refine ⟨fun t ht => ih.1 ?_, ?_⟩
    · rw [← s₁.ahead_report s₁.current.span .tooDeeplyNested, ← hsplit]
      exact List.mem_append_right _ ht
    · exact (s₁.eof_report _ _).trans ih.2

theorem Moves.trans (h : s.Moves s₁) (h' : s₁.Moves s') : s.Moves s' := by
  induction h' with
  | refl => exact h
  | take _ hahead heof hlast htruncated hd ih => exact ih.take hahead heof hlast htruncated hd
  | report _ ht hspan ih =>
    exact ih.report (ht.imp (fun ht => h.tokens.1 ht) fun ht => ht.trans h.tokens.2) hspan
  | giveUp _ ih => exact ih.giveUp

/-- Diagnostics are only added. -/
theorem Moves.diagnostics (h : s.Moves s') : s.diagnostics <+: s'.diagnostics := by
  have hreport : ∀ (s₁ : ParserState) span problem,
      s₁.diagnostics <+: (s₁.report span problem).diagnostics := by
    intro s₁ span problem
    rcases s₁.diagnostics_report span problem with hd | ⟨-, hd⟩
    · rw [hd]
      exact List.prefix_append _ _
    · simp [hd]
  induction h with
  | refl => exact List.prefix_rfl
  | take _ _ _ _ _ hd ih => rwa [hd]
  | @report s₁ _ span problem _ _ _ ih => exact ih.trans (hreport s₁ span problem)
  | @giveUp s₁ _ ih => exact ih.trans (hreport s₁ s₁.current.span .tooDeeplyNested)

theorem moves_advance (s : ParserState) : s.Moves s.advance := by
  unfold advance
  split
  · exact .refl
  · rename_i t rest hahead
    have hsplit : s.ahead = [t] ++ rest := hahead
    exact .take .refl hsplit rfl rfl rfl rfl

theorem moves_report (s : ParserState) (problem : Problem) :
    s.Moves (s.report s.current.span problem) :=
  .report .refl s.current_mem (.inl rfl)

theorem moves_lambdaHead (hl : Parser.lambdaAhead s.ahead = true) :
    s.Moves (Parser.lambdaHead.run s).2 := by
  obtain ⟨head, names, rest, hahead, hh⟩ := exists_lambdaHead hl
  obtain ⟨front, arrow, rfl, ha, hf, -⟩ := hh.exists_arrow
  have hsplit : s.ahead = front ++ arrow :: rest := by
    rw [hahead, List.append_assoc]
    rfl
  rw [run_lambdaHead hsplit ha hf]
  refine .take .refl hahead rfl ?_ rfl rfl
  rw [List.getLast?_append, List.getLast?_singleton]
  rfl

theorem Closes.moves {sign : Sign} {delimiter : Char} {stop : Nat}
    (h : s.Closes sign delimiter stop s') : s.Moves s' := by
  cases h with
  | closed _ => exact s.moves_advance
  | unclosed => exact .report .refl s.current_mem (.inr rfl)

/-- **Whatever is read, this is what it does to the state.** -/
theorem Reads.moves (h : s.Reads es s') : s.Moves s' := by
  induction h with
  | none => exact .refl
  | @next _ s _ _ _ _ _ _ _ ih ih' => exact ih.trans (s.moves_advance.trans ih')
  | @lacking _ s _ _ ih => exact ih.trans (s.moves_report _)
  | @atom s _ _ => exact s.moves_advance
  | missing s => exact s.moves_report _
  | @useless s _ => exact (s.moves_report _).trans (moves_advance _)
  | deep s => exact .giveUp .refl
  | @parens s _ _ _ _ _ _ hc ih | @list s _ _ _ _ _ _ hc ih | @set s _ _ _ _ _ _ hc ih
  | @map s _ _ _ _ _ _ hc ih => exact s.moves_advance.trans (ih.trans hc.moves)
  | @property _ s _ _ _ _ _ ih =>
    exact ih.trans (s.moves_advance.trans s.advance.moves_advance)
  | @nameless _ s _ _ _ ih =>
    exact ih.trans (s.moves_advance.report s.current_mem (.inl rfl))
  | @index _ s _ _ _ _ _ _ _ _ hc ih ih' | @call _ s _ _ _ _ _ _ _ _ hc ih ih' =>
    exact ih.trans (s.moves_advance.trans (ih'.trans hc.moves))
  | skipped _ ih => exact ih.giveUp
  | @unary s _ _ _ _ _ _ ih => exact s.moves_advance.trans ih
  | @binary _ s _ _ _ _ _ _ _ _ ih ih' | @ternary _ s _ _ _ _ _ _ _ ih ih' =>
    exact ih.trans (s.moves_advance.trans ih')
  | lambda hl _ ih => exact (moves_lambdaHead hl).trans ih

end ParserState

end FlowExpr
