import FlowExpr.Proofs.Expr.Grammar
import Mathlib.Data.List.TakeWhile

/-!
# Every derivation is found

What the grammar derives within the nesting bound, the parser reads without a complaint, and
its tree is the derived one up to places.

* `Parser.LeadsTo p tokens rest good q`: in front of `tokens` and `rest`, the parser `p` takes
  the tokens, complains about nothing, has a value that is `good`, and from then on behaves
  as `q` of that value in front of `rest`. With `pure` for `q` this is `Parser.Reads`.
* `Phrase.Found`: what the parser does in front of a phrase, one statement for each place of
  the grammar. Chains are where `LeadsTo` is needed: the grammar adds operators and postfixes
  at the end of a chain, the parser goes on with a chain that it has begun.
* `Derives.found`: by induction on derivations, every phrase is found.
-/

namespace FlowExpr

/-! ## 1. Reading as a relation -/

/-- The state stands in front of the tokens, and the end token is one. -/
structure ParserState.At (s : ParserState) (ts : List Token) : Prop where
  ahead : s.ahead = ts
  eof : s.eof.kind = .eof

theorem ParserState.At.current_kind {s : ParserState} {ts : List Token} (h : s.At ts) :
    s.current.kind = nextKind ts := by
  cases ts with
  | nil => simp [current, h.ahead, h.eof, nextKind]
  | cons t ts => simp [current, h.ahead]

theorem ParserState.At.current_eq {s : ParserState} {t : Token} {ts : List Token}
    (h : s.At (t :: ts)) : s.current = t := by
  simp [current, h.ahead]

/-- Taking a token changes neither the end token nor what was skipped or reported. -/
theorem ParserState.advance_frame (s : ParserState) : s.advance.eof = s.eof ∧
    s.advance.truncated = s.truncated ∧ s.advance.diagnostics = s.diagnostics := by
  unfold ParserState.advance
  split <;> exact ⟨rfl, rfl, rfl⟩

theorem ParserState.At.advance {s : ParserState} {t : Token} {ts : List Token}
    (h : s.At (t :: ts)) : s.advance.At ts ∧ s.advance.diagnostics = s.diagnostics := by
  have e : s.advance = { s with ahead := ts, lastEnd := t.span.stop } := by
    simp [ParserState.advance, h.ahead]
  rw [e]
  exact ⟨⟨rfl, h.eof⟩, rfl⟩

namespace Parser

variable {α β γ : Type}

/-- In front of the tokens and the rest, `p` takes the tokens silently and goes on as `q` of a
    good value in front of the rest. -/
def LeadsTo (p : Parser β) (ts rest : List Token) (good : α → Prop) (q : α → Parser β) : Prop :=
  ∀ s : ParserState, s.At (ts ++ rest) →
    ∃ a s', good a ∧ s'.At rest ∧ s'.diagnostics = s.diagnostics ∧ p.run s = (q a).run s'

/-- In front of the tokens and the rest, `p` takes the tokens silently and has a good value. -/
def Reads (p : Parser α) (ts rest : List Token) (good : α → Prop) : Prop :=
  LeadsTo p ts rest good pure

/-- One part of the way after another. -/
theorem LeadsTo.trans {p : Parser γ} {ts us rest : List Token} {P : α → Prop} {Q : β → Prop}
    {q : α → Parser γ} {r : β → Parser γ} (h : LeadsTo p ts (us ++ rest) P q)
    (hq : ∀ a, P a → LeadsTo (q a) us rest Q r) : LeadsTo p (ts ++ us) rest Q r := by
  intro s hs
  rw [List.append_assoc] at hs
  obtain ⟨a, s₁, ha, hs₁, hd₁, e₁⟩ := h s hs
  obtain ⟨b, s₂, hb, hs₂, hd₂, e₂⟩ := hq a ha s₁ hs₁
  exact ⟨b, s₂, hb, hs₂, hd₂.trans hd₁, e₁.trans e₂⟩

/-- What is done afterwards is done afterwards on the whole way. -/
theorem LeadsTo.bind {p : Parser β} {ts rest : List Token} {P : α → Prop} {q : α → Parser β}
    (h : LeadsTo p ts rest P q) (f : β → Parser γ) :
    LeadsTo (p >>= f) ts rest P fun a => q a >>= f := by
  intro s hs
  obtain ⟨a, s', ha, hs', hd, e⟩ := h s hs
  refine ⟨a, s', ha, hs', hd, ?_⟩
  show (f (p.run s).1).run (p.run s).2 = (f ((q a).run s').1).run ((q a).run s').2
  rw [e]

/-- A value is read, and then the rest of the way. -/
theorem Reads.then {p : Parser α} {ts us rest : List Token} {P : α → Prop} {Q : β → Prop}
    {f : α → Parser γ} {r : β → Parser γ} (h : Reads p ts (us ++ rest) P)
    (hf : ∀ a, P a → LeadsTo (f a) us rest Q r) : LeadsTo (p >>= f) (ts ++ us) rest Q r :=
  LeadsTo.trans (LeadsTo.bind h f) hf

/-- The next token is taken with something that reads it, and then the rest of the way. -/
theorem Reads.take {p : Parser α} {t : Token} {us rest : List Token} {P : α → Prop}
    {Q : β → Prop} {f : α → Parser γ} {r : β → Parser γ} (h : Reads p [t] (us ++ rest) P)
    (hf : ∀ a, P a → LeadsTo (f a) us rest Q r) : LeadsTo (p >>= f) (t :: us) rest Q r :=
  Reads.then h hf

/-- Nothing is taken, and then the rest of the way. -/
theorem Reads.look {p : Parser α} {us rest : List Token} {P : α → Prop} {Q : β → Prop}
    {f : α → Parser γ} {r : β → Parser γ} (h : Reads p [] (us ++ rest) P)
    (hf : ∀ a, P a → LeadsTo (f a) us rest Q r) : LeadsTo (p >>= f) us rest Q r :=
  Reads.then h hf

/-- The last thing to be read. -/
theorem Reads.last {p : Parser α} {ts rest : List Token} {P : α → Prop} {Q : β → Prop}
    {f : α → Parser γ} {r : β → Parser γ} (h : Reads p ts rest P)
    (hf : ∀ a, P a → LeadsTo (f a) [] rest Q r) : LeadsTo (p >>= f) ts rest Q r := by
  have hthen := Reads.then (h : Reads p ts ([] ++ rest) P) hf
  rwa [List.append_nil] at hthen

/-- Nothing is left to be done. -/
theorem LeadsTo.refl {q : α → Parser β} {rest : List Token} {P : α → Prop} {a : α} (h : P a) :
    LeadsTo (q a) [] rest P q :=
  fun s hs => ⟨a, s, h, hs, rfl, rfl⟩

theorem reads_pure {rest : List Token} {P : α → Prop} {a : α} (h : P a) :
    Reads (pure a) [] rest P :=
  LeadsTo.refl h

/-! ## 2. Single tokens -/

theorem reads_current {rest : List Token} :
    Reads current [] rest fun t => t.kind = nextKind rest :=
  fun s hs => ⟨s.current, s, hs.current_kind, hs, rfl, rfl⟩

theorem reads_current_cons {t : Token} {rest : List Token} :
    Reads current [] (t :: rest) fun x => x = t :=
  fun s hs => ⟨s.current, s, hs.current_eq, hs, rfl, rfl⟩

theorem reads_get {rest : List Token} :
    Reads get [] rest fun s : ParserState => s.ahead = rest :=
  fun s hs => ⟨s, s, hs.ahead, hs, rfl, rfl⟩

theorem reads_advance {t : Token} {rest : List Token} :
    Reads advance [t] rest fun _ => True :=
  fun s hs => ⟨(), s.advance, trivial, hs.advance.1, hs.advance.2, rfl⟩

theorem run_eat (sign : Sign) (s : ParserState) :
    (eat sign).run s =
      if s.current.kind = .sign sign then (true, s.advance) else (false, s) := by
  show StateT.run (if s.current.kind = .sign sign then _ else _) s = _
  split <;> rfl

theorem reads_eat {t : Token} {rest : List Token} {sign : Sign} (h : t.kind = .sign sign) :
    Reads (eat sign) [t] rest fun b => b = true := by
  intro s hs
  refine ⟨true, s.advance, rfl, hs.advance.1, hs.advance.2, ?_⟩
  rw [run_eat, if_pos (by rw [hs.current_eq, h])]
  rfl

theorem reads_eat_not {rest : List Token} {sign : Sign} (h : nextKind rest ≠ .sign sign) :
    Reads (eat sign) [] rest fun b => b = false := by
  intro s hs
  refine ⟨false, s, rfl, hs, rfl, ?_⟩
  rw [run_eat, if_neg (by rw [hs.current_kind]; exact h)]
  rfl

theorem reads_closing {t : Token} {rest : List Token} {sign : Sign} (delimiter : Char)
    (h : t.kind = .sign sign) : Reads (closing sign delimiter) [t] rest fun _ => True := by
  refine Reads.look reads_current fun token _ => ?_
  refine Reads.take (reads_eat h) fun b hb => ?_
  rw [hb]
  exact reads_pure trivial

/-! ## 3. Rows -/

theorem reads_afterCommas_end {item : Parser α} {rest : List Token} {P : List α → Prop}
    (h : nextKind rest ≠ .sign .comma) (hP : P []) (m : Nat) :
    Reads (afterCommasUpTo item m) [] rest P := by
  cases m with
  | zero => exact reads_pure hP
  | succ m =>
    refine Reads.look (reads_eat_not h) fun b hb => ?_
    rw [hb]
    exact reads_pure hP

theorem reads_afterCommas_item {item : Parser α} {comma : Token} {ts us rest : List Token}
    {m : Nat} {P : α → Prop} {Q R : List α → Prop} (hc : comma.kind = .sign .comma)
    (h : Reads item ts (us ++ rest) P) (hm : Reads (afterCommasUpTo item m) us rest Q)
    (hR : ∀ a as, P a → Q as → R (a :: as)) :
    Reads (afterCommasUpTo item (m + 1)) (comma :: (ts ++ us)) rest R := by
  refine Reads.take (reads_eat hc) fun b hb => ?_
  rw [hb]
  refine Reads.then h fun a ha => ?_
  exact Reads.last hm fun as has => reads_pure (hR a as ha has)

/-- There are never more items to be looked for than tokens. -/
theorem reads_afterCommas {item : Parser α} {ts rest : List Token} {len : Nat}
    {P : List α → Prop} (h : ∀ m, len ≤ m → Reads (afterCommasUpTo item m) ts rest P)
    (hl : len ≤ ts.length) : Reads (afterCommas item) ts rest P := by
  refine Reads.look reads_get fun s hs => h _ ?_
  rw [hs, List.length_append]
  omega

end Parser

/-! ## 4. Where phrases end -/

namespace Grammar

/-- The kind can follow an expression: a closing delimiter, a comma, a colon or the end. -/
def endsExpression (kind : TokenKind) : Prop :=
  kind = .eof ∨ kind ∈ [Sign.rParen, .rBracket, .rBrace, .comma, .colon].map TokenKind.sign

/-- The kind is neither a postfix nor an operator below a level nor an arrow. -/
def endsChain (level : Nat) (kind : TokenKind) : Prop :=
  kind ∉ [Sign.dot, .lBracket, .lParen, .arrow].map TokenKind.sign ∧
    ∀ l < level, Rules.operator? (l + 1) kind = none

instance (level : Nat) (kind : TokenKind) : Decidable (endsChain level kind) :=
  inferInstanceAs (Decidable (_ ∧ _))

theorem operator?_eq_some {level : Nat} {sign : Sign} {op : BinaryOp}
    (h : (sign, op) ∈ binaryAt level) : Rules.operator? (level + 1) (.sign sign) = some op := by
  obtain ⟨ho, hl⟩ := mem_binaryAt.mp h
  simp [Rules.operator?, ho, hl]

/-- What is read as an operator of a level is one of its signs. -/
theorem exists_sign_of_operator? {level : Nat} {kind : TokenKind} {op : BinaryOp}
    (h : Rules.operator? (level + 1) kind = some op) :
    ∃ sign, kind = .sign sign ∧ (sign, op) ∈ binaryAt level := by
  cases kind with
  | sign sign =>
    obtain ⟨ho, hl⟩ := Option.filter_eq_some_iff.mp h
    exact ⟨sign, rfl, mem_binaryAt.mpr ⟨ho, by simpa using hl⟩⟩
  | _ => cases h

theorem endsChain_of_endsExpression {kind : TokenKind} (h : endsExpression kind) :
    endsChain binary.length kind := by
  rcases h with rfl | h
  · decide
  · have hall : ∀ kind ∈ [Sign.rParen, .rBracket, .rBrace, .comma, .colon].map TokenKind.sign,
        endsChain binary.length kind := by decide
    exact hall kind h

theorem endsChain_eof (level : Nat) : endsChain level .eof :=
  ⟨by decide, fun _ _ => rfl⟩

/-- What stands alone does not begin with a unary operator. -/
theorem opensPrimary.not_unary {sign : Sign} (h : opensPrimary (.sign sign)) :
    UnaryOp.ofSign? sign = none := by
  rcases h with h | ⟨_, h⟩ | h | h | h
  · cases h
  · cases h
  all_goals
    cases h
    rfl

theorem endsChain_question : endsChain binary.length (.sign .question) := by decide

/-- An operator ends the chains that are tighter. -/
theorem endsChain_of_operator {level : Nat} {sign : Sign} {op : BinaryOp}
    (h : (sign, op) ∈ binaryAt level) : endsChain level (.sign sign) := by
  obtain ⟨ho, hl⟩ := mem_binaryAt.mp h
  refine ⟨fun hm => ?_, fun l hlt => ?_⟩
  · simp only [List.map_cons, List.map_nil, List.mem_cons, TokenKind.sign.injEq,
      List.not_mem_nil, or_false] at hm
    rcases hm with rfl | rfl | rfl | rfl <;> cases ho
  · have hne : ¬ op.looseness = l + 1 := by omega
    simp [Rules.operator?, ho, hne]

theorem endsChain.tighter {level : Nat} {kind : TokenKind} (h : endsChain (level + 1) kind) :
    endsChain level kind :=
  ⟨h.1, fun l hl => h.2 l (Nat.lt_succ_of_lt hl)⟩

theorem endsChain.mono {l level : Nat} {kind : TokenKind} (h : endsChain level kind)
    (hl : l ≤ level) : endsChain l kind :=
  ⟨h.1, fun i hi => h.2 i (Nat.lt_of_lt_of_le hi hl)⟩

theorem endsChain.not_arrow {level : Nat} {kind : TokenKind} (h : endsChain level kind) :
    kind ≠ .sign .arrow := by
  rintro rfl
  exact h.1 (by decide)

theorem endsExpression_closing {sign : Sign} (h : sign.isClosing = true) :
    endsExpression (.sign sign) := by
  cases sign <;> cases h <;> simp [endsExpression]

end Grammar

/-- Number of trees or entries of a row. -/
def Phrase.rowLength : Phrase → Nat
  | .moreItems es => es.length
  | .moreEntries es => es.length
  | _ => 0

/-- Every tree or entry of a row takes at least its comma. -/
theorem Derives.rowLength_le {p : Phrase} {ts : List Token} {c : Nat} (h : Derives p ts c) :
    p.rowLength ≤ ts.length := by
  induction h with
  | item _ _ _ _ ih =>
    simp only [Phrase.rowLength, List.length_cons, List.length_append] at ih ⊢
    omega
  | entry _ _ _ _ _ _ _ ih =>
    simp only [Phrase.rowLength, List.length_cons, List.length_append] at ih ⊢
    omega
  | _ => exact Nat.zero_le _

/-- The phrase is what follows the first of several trees or entries. -/
def Phrase.isRow : Phrase → Bool
  | .moreItems _ | .moreEntries _ => true
  | _ => false

/-- A row begins with a comma, or it is empty. -/
theorem Derives.row_next {p : Phrase} {ts : List Token} {c : Nat} (h : Derives p ts c)
    (hp : p.isRow = true) (rest : List Token) :
    nextKind (ts ++ rest) = .sign .comma ∨ nextKind (ts ++ rest) = nextKind rest := by
  cases h with
  | noItems | noEntries => exact .inr rfl
  | item hc | entry hc => exact .inl hc
  | _ => cases hp

/-- What ends the last tree of a row also ends the others. -/
theorem Derives.row_endsExpression {p : Phrase} {ts : List Token} {c : Nat} (h : Derives p ts c)
    (hp : p.isRow = true) {rest : List Token} (hr : Grammar.endsExpression (nextKind rest)) :
    Grammar.endsExpression (nextKind (ts ++ rest)) := by
  rcases h.row_next hp rest with e | e <;> rw [e]
  · simp [Grammar.endsExpression]
  · exact hr

/-! ## 5. Trees up to places -/

/-- The trees are equal up to places. -/
def Expr.Like (e e' : Expr) : Prop := e'.unplaced = e.unplaced

/-- Rows of trees that are equal up to places. -/
def Expr.AllLike (es es' : List Expr) : Prop := es'.map unplaced = es.map unplaced

/-- Rows of entries that are equal up to places. -/
def Expr.EntriesLike (es es' : List (Expr × Expr)) : Prop :=
  es'.map (Prod.map unplaced unplaced) = es.map (Prod.map unplaced unplaced)

/-! ## 6. What the parser does in front of a phrase -/

open FlowExpr.Parser FlowExpr.Rules

/-- The parser finds a phrase in a row of tokens, with any budget of at least the cost. -/
def Phrase.Found (ts : List Token) (c : Nat) : Phrase → Prop
  | .expression e => ∀ n, c ≤ n → ∀ rest, Grammar.endsExpression (nextKind rest) →
      Reads (withBudget n).body ts rest e.Like
  | .chain 0 _ e => ∀ n, c ≤ n → ∀ rest, Grammar.endsChain 0 (nextKind rest) →
      Reads (withBudget n).prefixed ts rest e.Like
  | .chain (l + 1) k e => ∀ n, c ≤ n → ∀ rest, Grammar.endsChain l (nextKind rest) →
      LeadsTo ((withBudget n).climb (l + 1)) ts rest e.Like ((withBudget (n - k)).chainRest l)
  | .postfixed k e => ∀ n, c ≤ n → ∀ rest,
      LeadsTo ((withBudget n).primary >>= (withBudget n).postfixes) ts rest e.Like
        (withBudget (n - k)).postfixes
  | .primary e => ∀ n, c ≤ n → ∀ rest, Reads (withBudget n).primary ts rest e.Like
  | .moreItems es => ∀ n, c ≤ n → ∀ m, es.length ≤ m → ∀ rest,
      Grammar.endsExpression (nextKind rest) → nextKind rest ≠ .sign .comma →
      Reads (afterCommasUpTo (withBudget n).body m) ts rest (Expr.AllLike es)
  | .moreEntries es => ∀ n, c ≤ n → ∀ m, es.length ≤ m → ∀ rest,
      Grammar.endsExpression (nextKind rest) → nextKind rest ≠ .sign .comma →
      Reads (afterCommasUpTo (withBudget n).entry m) ts rest (Expr.EntriesLike es)
  | .arguments es => ∀ n, c ≤ n → ∀ close : Sign, close.isClosing = true → ∀ rest,
      nextKind rest = .sign close →
      Reads (commaSeparated (withBudget n).body close) ts rest (Expr.AllLike es)

/-! ### Chains of operators -/

/-- The rest of a chain ends where no operator of its level follows. -/
theorem reads_chainRest_end (deeper : Rules) {l : Nat} {rest : List Token} {e : Expr}
    (h : operator? (l + 1) (nextKind rest) = none) {P : Expr → Prop} (he : P e) :
    Reads (deeper.chainRest l e) [] rest P := by
  refine Reads.look reads_current fun token ht => ?_
  rw [ht, List.nil_append, h]
  exact reads_pure he

/-- A chain in front of something that ends it is read as a whole. -/
theorem Phrase.Found.climb {ts : List Token} {c l k : Nat} {e : Expr}
    (h : Phrase.Found ts c (.chain l k e)) {n : Nat} (hn : c ≤ n) {rest : List Token}
    (hr : Grammar.endsChain l (nextKind rest)) : Reads ((withBudget n).climb l) ts rest e.Like := by
  cases l with
  | zero => exact h n hn rest hr
  | succ l =>
    have hlead := LeadsTo.trans (h n hn ([] ++ rest) hr.tighter) fun e' he' =>
      reads_chainRest_end _ (hr.2 l (Nat.lt_succ_self l)) he'
    rwa [List.append_nil] at hlead

theorem found_single {ts : List Token} {c l k : Nat} {e : Expr}
    (h : Phrase.Found ts c (.chain l k e)) : Phrase.Found ts c (.chain (l + 1) 0 e) := by
  intro n hn rest hr
  exact LeadsTo.bind (h.climb hn hr) _

theorem found_operator {t : Token} {sign : Sign} {ts₁ ts₂ : List Token} {l k j : Nat}
    {op : BinaryOp} {left right : Expr} {span : Span} {c₁ c₂ : Nat}
    (h₁ : Phrase.Found ts₁ c₁ (.chain (l + 1) k left)) (ht : t.kind = .sign sign)
    (ho : (sign, op) ∈ Grammar.binaryAt l) (h₂ : Phrase.Found ts₂ c₂ (.chain l j right)) :
    Phrase.Found (ts₁ ++ t :: ts₂) (max c₁ (k + 1 + c₂))
      (.chain (l + 1) (k + 1) (.binary op left right span)) := by
  intro n hn rest hr
  have hends : Grammar.endsChain l t.kind := ht ▸ Grammar.endsChain_of_operator ho
  refine LeadsTo.trans (h₁ n (by omega) (t :: ts₂ ++ rest) hends) fun left' hleft => ?_
  -- the operator takes one of the levels that the chain has left
  obtain ⟨m, hm⟩ : ∃ m, n - k = m + 1 := ⟨n - k - 1, by omega⟩
  have hm' : n - (k + 1) = m := by omega
  rw [hm, hm']
  refine Reads.look reads_current fun token htoken => ?_
  rw [htoken, List.cons_append, nextKind_cons, ht, Grammar.operator?_eq_some ho]
  refine Reads.take reads_advance fun _ _ => ?_
  refine Reads.last (h₂.climb (by omega) hr) fun right' hright => ?_
  refine LeadsTo.refl ?_
  rw [Expr.Like, Expr.joined, Expr.unplaced_binary, Expr.unplaced_binary, hleft, hright]

/-! ### Unary operators -/

theorem found_unary {t : Token} {sign : Sign} {ts : List Token} {op : UnaryOp} {operand : Expr}
    {span : Span} {c : Nat} (ht : t.kind = .sign sign) (ho : (sign, op) ∈ Grammar.unary)
    (h : Phrase.Found ts c (.chain 0 0 operand)) :
    Phrase.Found (t :: ts) (c + 1) (.chain 0 0 (.unary op operand span)) := by
  intro n hn rest hr
  obtain ⟨m, rfl⟩ : ∃ m, n = m + 1 := ⟨n - 1, by omega⟩
  refine Reads.look reads_current fun token htoken => ?_
  rw [htoken, List.cons_append, nextKind_cons, ht]
  simp only [Grammar.mem_unary.mp ho]
  refine Reads.take reads_advance fun _ _ => ?_
  refine Reads.last (h m (by omega) rest hr) fun operand' hoperand => ?_
  refine reads_pure ?_
  rw [Expr.Like, Expr.unplaced_unary, Expr.unplaced_unary, hoperand]

/-- The rest of a chain of postfixes ends where no postfix follows. -/
theorem reads_postfixes_end (deeper : Rules) {rest : List Token} {e : Expr}
    (h : Grammar.endsChain 0 (nextKind rest)) {P : Expr → Prop} (he : P e) :
    Reads (deeper.postfixes e) [] rest P := by
  refine Reads.look reads_current fun token ht => ?_
  rw [ht]
  split
  · exact absurd (by simp_all) h.1
  · exact absurd (by simp_all) h.1
  · exact absurd (by simp_all) h.1
  · exact reads_pure he

theorem found_operand {ts : List Token} {k : Nat} {e : Expr} {c : Nat}
    (hd : Derives (.postfixed k e) ts c) (h : Phrase.Found ts c (.postfixed k e)) :
    Phrase.Found ts c (.chain 0 0 e) := by
  intro n hn rest hr
  have hlead := LeadsTo.trans (h n hn ([] ++ rest)) fun e' he' =>
    reads_postfixes_end (withBudget (n - k)) hr he'
  rw [List.append_nil] at hlead
  obtain ⟨t, us, rfl, ht⟩ := hd.opens rfl
  refine Reads.look reads_current fun token htoken => ?_
  rw [htoken, List.cons_append, nextKind_cons]
  split
  · rename_i sign hk
    rw [Grammar.opensPrimary.not_unary (hk ▸ ht)]
    exact hlead
  · exact hlead

/-! ### Chains of postfixes -/

theorem found_unchained {ts : List Token} {e : Expr} {c : Nat}
    (h : Phrase.Found ts c (.primary e)) : Phrase.Found ts c (.postfixed 0 e) := by
  intro n hn rest
  exact LeadsTo.bind (h n hn rest) _

/-- A postfix takes one of the levels that the chain has left; then it is read. -/
theorem found_postfix {ts us : List Token} {t : Token} {k : Nat} {target e : Expr} {c c' : Nat}
    (h : Phrase.Found ts c (.postfixed k target))
    (ht : t.kind ∈ [Sign.dot, .lBracket, .lParen].map TokenKind.sign) (hk : k + 1 ≤ c')
    (hu : ∀ m, c' ≤ m + (k + 1) → ∀ rest target', target.Like target' →
      LeadsTo ((withBudget m).onePostfix target') (t :: us) rest e.Like (withBudget m).postfixes) :
    Phrase.Found (ts ++ t :: us) (max c c') (.postfixed (k + 1) e) := by
  intro n hn rest
  refine LeadsTo.trans (h n (by omega) (t :: us ++ rest)) fun target' htarget => ?_
  obtain ⟨m, hm⟩ : ∃ m, n - k = m + 1 := ⟨n - k - 1, by omega⟩
  have hm' : n - (k + 1) = m := by omega
  rw [hm, hm']
  refine Reads.look reads_current fun token htoken => ?_
  rw [htoken, List.cons_append, nextKind_cons]
  have hone := hu m (by omega) rest target' htarget
  simp only [List.map_cons, List.map_nil, List.mem_cons, List.not_mem_nil, or_false] at ht
  rcases ht with ht | ht | ht <;> rw [ht] <;> exact hone

theorem reads_member {dot t : Token} {rest : List Token} {target target' : Expr} {name : String}
    {nameSpan span : Span} (hn : t.memberName? = some name) (ht : target.Like target') :
    Reads (member target') [dot, t] rest
      (Expr.property target (some name) nameSpan span).Like := by
  refine Reads.look reads_current fun _ _ => ?_
  refine Reads.take reads_advance fun _ _ => ?_
  refine Reads.look reads_current_cons fun token htoken => ?_
  rw [htoken, hn]
  refine Reads.last reads_advance fun _ _ => reads_pure ?_
  rw [Expr.Like, Expr.unplaced_property, Expr.unplaced_property, ht]

theorem found_property {dot t : Token} {ts : List Token} {k : Nat} {target : Expr}
    {name : String} {nameSpan span : Span} {c : Nat}
    (h : Phrase.Found ts c (.postfixed k target)) (hd : dot.kind = .sign .dot)
    (hn : t.memberName? = some name) :
    Phrase.Found (ts ++ [dot, t]) (max c (k + 1))
      (.postfixed (k + 1) (.property target (some name) nameSpan span)) := by
  refine found_postfix h (by simp [hd]) (Nat.le_refl _) fun m _ rest target' htarget => ?_
  refine Reads.look reads_current fun token htoken => ?_
  rw [htoken, List.cons_append, nextKind_cons, hd]
  exact Reads.last (reads_member hn htarget) fun e he => LeadsTo.refl he

theorem found_index {left right : Token} {ts₁ ts₂ : List Token} {k : Nat} {target i : Expr}
    {span : Span} {c₁ c₂ : Nat} (h₁ : Phrase.Found ts₁ c₁ (.postfixed k target))
    (hl : left.kind = .sign .lBracket) (h₂ : Phrase.Found ts₂ c₂ (.expression i))
    (hr : right.kind = .sign .rBracket) :
    Phrase.Found (ts₁ ++ left :: (ts₂ ++ [right])) (max c₁ (k + 1 + c₂))
      (.postfixed (k + 1) (.index target i span)) := by
  refine found_postfix h₁ (by simp [hl]) (by omega) fun m hm rest target' htarget => ?_
  refine Reads.look reads_current fun token htoken => ?_
  rw [htoken, List.cons_append, nextKind_cons, hl]
  refine Reads.take reads_advance fun _ _ => ?_
  refine Reads.then (h₂ m (by omega) _ (by simp [Grammar.endsExpression, hr])) fun i' hi => ?_
  refine Reads.take (reads_closing _ hr) fun stop _ => ?_
  refine LeadsTo.refl ?_
  rw [Expr.Like, Expr.unplaced_index, Expr.unplaced_index, htarget, hi]

theorem found_call {left right : Token} {ts₁ ts₂ : List Token} {k : Nat} {target : Expr}
    {args : List Expr} {span : Span} {c₁ c₂ : Nat}
    (h₁ : Phrase.Found ts₁ c₁ (.postfixed k target)) (hl : left.kind = .sign .lParen)
    (h₂ : Phrase.Found ts₂ c₂ (.arguments args)) (hr : right.kind = .sign .rParen) :
    Phrase.Found (ts₁ ++ left :: (ts₂ ++ [right])) (max c₁ (k + 1 + c₂))
      (.postfixed (k + 1) (.call target args span)) := by
  refine found_postfix h₁ (by simp [hl]) (by omega) fun m hm rest target' htarget => ?_
  refine Reads.look reads_current fun token htoken => ?_
  rw [htoken, List.cons_append, nextKind_cons, hl]
  refine Reads.take reads_advance fun _ _ => ?_
  refine Reads.then (h₂ m (by omega) .rParen rfl _ hr) fun args' hargs => ?_
  refine Reads.take (reads_closing _ hr) fun stop _ => ?_
  refine LeadsTo.refl ?_
  rw [Expr.Like, Expr.unplaced_call, Expr.unplaced_call, htarget, hargs]

/-! ### What stands alone -/

theorem found_literal {t : Token} {value : Literal} {span : Span}
    (h : Grammar.literal? t.kind = some value) :
    Phrase.Found [t] 0 (.primary (.literal value span)) := by
  intro n _ rest
  refine Reads.look reads_current fun token htoken => ?_
  rw [htoken, List.cons_append, nextKind_cons]
  cases hk : t.kind with
  | integer | decimal | string | boolean | null =>
    rw [hk] at h
    cases h
    exact Reads.last reads_advance fun _ _ => reads_pure rfl
  | _ =>
    rw [hk] at h
    cases h

theorem found_identifier {t : Token} {name : String} {span : Span}
    (h : t.kind = .identifier name) :
    Phrase.Found [t] 0 (.primary (.identifier name span)) := by
  intro n _ rest
  refine Reads.look reads_current fun token htoken => ?_
  rw [htoken, List.cons_append, nextKind_cons, h]
  exact Reads.last reads_advance fun _ _ => reads_pure rfl

theorem found_parentheses {left right : Token} {ts : List Token} {e : Expr} {c : Nat}
    (hl : left.kind = .sign .lParen) (h : Phrase.Found ts c (.expression e))
    (hr : right.kind = .sign .rParen) :
    Phrase.Found (left :: (ts ++ [right])) c (.primary e) := by
  intro n hn rest
  refine Reads.look reads_current fun token htoken => ?_
  rw [htoken, List.cons_append, nextKind_cons, hl]
  refine Reads.take reads_advance fun _ _ => ?_
  refine Reads.then (h n hn _ (by simp [Grammar.endsExpression, hr])) fun e' he => ?_
  exact Reads.last (reads_closing _ hr) fun _ _ => reads_pure he

theorem found_list {left right : Token} {ts : List Token} {items : List Expr} {span : Span}
    {c : Nat} (hl : left.kind = .sign .lBracket) (h : Phrase.Found ts c (.arguments items))
    (hr : right.kind = .sign .rBracket) :
    Phrase.Found (left :: (ts ++ [right])) c (.primary (.list items span)) := by
  intro n hn rest
  refine Reads.look reads_current fun token htoken => ?_
  rw [htoken, List.cons_append, nextKind_cons, hl]
  refine Reads.take reads_advance fun _ _ => ?_
  refine Reads.then (h n hn .rBracket rfl _ hr) fun items' hitems => ?_
  refine Reads.last (reads_closing _ hr) fun stop _ => reads_pure ?_
  rw [Expr.Like, Expr.unplaced_list, Expr.unplaced_list, hitems]

/-! ### Sets and maps -/

theorem found_emptyMap {left right : Token} {span : Span} (hl : left.kind = .sign .lBrace)
    (hr : right.kind = .sign .rBrace) :
    Phrase.Found [left, right] 0 (.primary (.map [] span)) := by
  intro n _ rest
  refine Reads.look reads_current fun token htoken => ?_
  rw [htoken, List.cons_append, nextKind_cons, hl]
  refine Reads.take reads_advance fun _ _ => ?_
  refine Reads.look reads_current fun close _ => ?_
  refine Reads.last (reads_eat hr) fun b hb => ?_
  rw [hb]
  exact reads_pure rfl

theorem found_set {left right : Token} {ts₁ ts₂ : List Token} {e : Expr} {es : List Expr}
    {span : Span} {c₁ c₂ : Nat} (hl : left.kind = .sign .lBrace)
    (h₁ : Phrase.Found ts₁ c₁ (.expression e)) (hd : Derives (.expression e) ts₁ c₁)
    (h₂ : Phrase.Found ts₂ c₂ (.moreItems es)) (hd₂ : Derives (.moreItems es) ts₂ c₂)
    (hr : right.kind = .sign .rBrace) :
    Phrase.Found (left :: (ts₁ ++ (ts₂ ++ [right]))) (max c₁ c₂)
      (.primary (.set (e :: es) span)) := by
  intro n hn rest
  have hends : Grammar.endsExpression (nextKind (right :: rest)) := by
    rw [nextKind_cons, hr]
    exact Grammar.endsExpression_closing rfl
  have hnext := hd₂.row_endsExpression rfl hends
  have hcolon : nextKind (ts₂ ++ right :: rest) ≠ .sign .colon := by
    rcases hd₂.row_next rfl (right :: rest) with e | e <;> rw [e] <;> simp [hr]
  refine Reads.look reads_current fun token htoken => ?_
  rw [htoken, List.cons_append, nextKind_cons, hl]
  refine Reads.take reads_advance fun _ _ => ?_
  refine Reads.look reads_current fun close _ => ?_
  obtain ⟨t, us, rfl, ht⟩ := hd.opens rfl
  refine Reads.look (reads_eat_not (ht.not_closing rfl)) fun b hb => ?_
  rw [hb]
  refine Reads.then (h₁ n (by omega) _ (by simpa using hnext)) fun e' he => ?_
  refine Reads.look (reads_eat_not (by simpa using hcolon)) fun b hb => ?_
  rw [hb]
  refine Reads.then (reads_afterCommas (fun m hm => h₂ n (by omega) m hm _ hends (by simp [hr]))
    hd₂.rowLength_le) fun es' hes => ?_
  refine Reads.last (reads_closing _ hr) fun stop _ => reads_pure ?_
  rw [Expr.Like, Expr.unplaced_set, Expr.unplaced_set, List.map_cons, List.map_cons, he, hes]

theorem reads_entry {colon : Token} {ts₁ ts₂ rest : List Token} {key value : Expr} {c₁ c₂ n : Nat}
    (h₁ : Phrase.Found ts₁ c₁ (.expression key)) (hc : colon.kind = .sign .colon)
    (h₂ : Phrase.Found ts₂ c₂ (.expression value)) (hn : max c₁ c₂ ≤ n)
    (hr : Grammar.endsExpression (nextKind rest)) :
    Reads (withBudget n).entry (ts₁ ++ colon :: ts₂) rest
      fun entry => key.Like entry.1 ∧ value.Like entry.2 := by
  refine Reads.then (h₁ n (by omega) _ (by simp [Grammar.endsExpression, hc])) fun key' hkey => ?_
  refine Reads.take (reads_eat hc) fun b hb => ?_
  rw [hb]
  exact Reads.last (h₂ n (by omega) _ hr) fun value' hvalue => reads_pure ⟨hkey, hvalue⟩

theorem found_map {left colon right : Token} {ts₁ ts₂ ts₃ : List Token} {key value : Expr}
    {es : List (Expr × Expr)} {span : Span} {c₁ c₂ c₃ : Nat} (hl : left.kind = .sign .lBrace)
    (h₁ : Phrase.Found ts₁ c₁ (.expression key)) (hd : Derives (.expression key) ts₁ c₁)
    (hc : colon.kind = .sign .colon) (h₂ : Phrase.Found ts₂ c₂ (.expression value))
    (h₃ : Phrase.Found ts₃ c₃ (.moreEntries es)) (hd₃ : Derives (.moreEntries es) ts₃ c₃)
    (hr : right.kind = .sign .rBrace) :
    Phrase.Found (left :: (ts₁ ++ colon :: (ts₂ ++ (ts₃ ++ [right])))) (max c₁ (max c₂ c₃))
      (.primary (.map ((key, value) :: es) span)) := by
  intro n hn rest
  have hends : Grammar.endsExpression (nextKind (right :: rest)) := by
    rw [nextKind_cons, hr]
    exact Grammar.endsExpression_closing rfl
  have hnext := hd₃.row_endsExpression rfl hends
  refine Reads.look reads_current fun token htoken => ?_
  rw [htoken, List.cons_append, nextKind_cons, hl]
  refine Reads.take reads_advance fun _ _ => ?_
  refine Reads.look reads_current fun close _ => ?_
  obtain ⟨t, us, rfl, ht⟩ := hd.opens rfl
  refine Reads.look (reads_eat_not (ht.not_closing rfl)) fun b hb => ?_
  rw [hb]
  refine Reads.then (h₁ n (by omega) _ (by simp [Grammar.endsExpression, hc])) fun key' hkey => ?_
  refine Reads.take (reads_eat hc) fun b hb => ?_
  rw [hb]
  refine Reads.then (h₂ n (by omega) _ (by simpa using hnext)) fun value' hvalue => ?_
  refine Reads.then (reads_afterCommas (fun m hm => h₃ n (by omega) m hm _ hends (by simp [hr]))
    hd₃.rowLength_le) fun es' hes => ?_
  refine Reads.last (reads_closing _ hr) fun stop _ => reads_pure ?_
  rw [Expr.Like, Expr.unplaced_map, Expr.unplaced_map, List.map_cons, List.map_cons, hes,
    Prod.map_apply, Prod.map_apply, hkey, hvalue]

/-! ### Rows and arguments -/

theorem found_item {comma : Token} {ts₁ ts₂ : List Token} {e : Expr} {es : List Expr}
    {c₁ c₂ : Nat} (hc : comma.kind = .sign .comma) (h₁ : Phrase.Found ts₁ c₁ (.expression e))
    (h₂ : Phrase.Found ts₂ c₂ (.moreItems es)) (hd₂ : Derives (.moreItems es) ts₂ c₂) :
    Phrase.Found (comma :: (ts₁ ++ ts₂)) (max c₁ c₂) (.moreItems (e :: es)) := by
  intro n hn m hm rest hr hrc
  obtain ⟨m, rfl⟩ : ∃ j, m = j + 1 := ⟨m - 1, by simp only [List.length_cons] at hm; omega⟩
  refine reads_afterCommas_item hc (h₁ n (by omega) _ (hd₂.row_endsExpression rfl hr))
    (h₂ n (by omega) m (Nat.le_of_succ_le_succ hm) rest hr hrc) fun e' es' he hes => ?_
  rw [Expr.AllLike, List.map_cons, List.map_cons, he, hes]

theorem found_entry {comma colon : Token} {ts₁ ts₂ ts₃ : List Token} {key value : Expr}
    {es : List (Expr × Expr)} {c₁ c₂ c₃ : Nat} (hm : comma.kind = .sign .comma)
    (h₁ : Phrase.Found ts₁ c₁ (.expression key)) (hc : colon.kind = .sign .colon)
    (h₂ : Phrase.Found ts₂ c₂ (.expression value)) (h₃ : Phrase.Found ts₃ c₃ (.moreEntries es))
    (hd₃ : Derives (.moreEntries es) ts₃ c₃) :
    Phrase.Found (comma :: (ts₁ ++ colon :: (ts₂ ++ ts₃))) (max c₁ (max c₂ c₃))
      (.moreEntries ((key, value) :: es)) := by
  intro n hn m hle rest hr hrc
  obtain ⟨m, rfl⟩ : ∃ j, m = j + 1 := ⟨m - 1, by simp only [List.length_cons] at hle; omega⟩
  have hentry := reads_entry h₁ hc h₂ (by omega : max c₁ c₂ ≤ n) (hd₃.row_endsExpression rfl hr)
  have hrow := reads_afterCommas_item hm hentry
    (h₃ n (by omega) m (Nat.le_of_succ_le_succ hle) rest hr hrc)
    (R := Expr.EntriesLike ((key, value) :: es)) fun ⟨key', value'⟩ es' he hes => ?_
  · rwa [List.append_assoc] at hrow
  · rw [Expr.EntriesLike, List.map_cons, List.map_cons, Prod.map_apply, Prod.map_apply, he.1,
      he.2, hes]

theorem found_noArguments : Phrase.Found [] 0 (.arguments []) := by
  intro n _ close _ rest hr
  refine Reads.look reads_current fun token htoken => ?_
  rw [htoken, List.nil_append, if_pos hr]
  exact reads_pure rfl

theorem found_someArguments {ts₁ ts₂ : List Token} {e : Expr} {es : List Expr} {c₁ c₂ : Nat}
    (h₁ : Phrase.Found ts₁ c₁ (.expression e)) (hd : Derives (.expression e) ts₁ c₁)
    (h₂ : Phrase.Found ts₂ c₂ (.moreItems es)) (hd₂ : Derives (.moreItems es) ts₂ c₂) :
    Phrase.Found (ts₁ ++ ts₂) (max c₁ c₂) (.arguments (e :: es)) := by
  intro n hn close hclose rest hr
  have hends : Grammar.endsExpression (nextKind rest) := by
    rw [hr]
    exact Grammar.endsExpression_closing hclose
  have hcomma : nextKind rest ≠ .sign .comma := by
    rw [hr]
    rintro ⟨⟩
    cases hclose
  obtain ⟨t, us, rfl, ht⟩ := hd.opens rfl
  have hne : nextKind (t :: us ++ ts₂ ++ rest) ≠ .sign close := ht.not_closing hclose
  refine Reads.look reads_current fun token htoken => ?_
  rw [htoken, if_neg hne]
  refine Reads.then (h₁ n (by omega) _ (hd₂.row_endsExpression rfl hends)) fun e' he => ?_
  refine Reads.last (reads_afterCommas (fun m hm => h₂ n (by omega) m hm _ hends hcomma)
    hd₂.rowLength_le) fun es' hes => reads_pure ?_
  rw [Expr.AllLike, List.map_cons, List.map_cons, he, hes]

/-! ### Whole expressions -/

theorem reads_expression_operation (deeper : Rules) {ts rest : List Token} {P : Expr → Prop}
    (hn : lambdaAhead (ts ++ rest) = false) (h : Reads deeper.conditional ts rest P) :
    Reads deeper.expression ts rest P := by
  refine Reads.look reads_get fun s hs => ?_
  rw [hs, hn]
  exact h

theorem found_operation {ts : List Token} {k : Nat} {e : Expr} {c : Nat}
    (hd : Derives (.chain Grammar.binary.length k e) ts c)
    (h : Phrase.Found ts c (.chain Grammar.binary.length k e)) :
    Phrase.Found ts (c + 1) (.expression e) := by
  intro n hn rest hr
  obtain ⟨m, rfl⟩ : ∃ m, n = m + 1 := ⟨n - 1, by omega⟩
  have hends := Grammar.endsChain_of_endsExpression hr
  refine reads_expression_operation _ (hd.not_lambdaAhead rfl rest hends.not_arrow) ?_
  refine Reads.last (h.climb (by omega) hends) fun e' he => ?_
  refine Reads.look (reads_eat_not ?_) fun b hb => ?_
  · rw [List.nil_append]
    rcases hr with hr | hr <;> intro hq <;> simp [hq] at hr
  · rw [hb]
    exact reads_pure he

theorem found_conditional {question colon : Token} {ts₁ ts₂ ts₃ : List Token} {k : Nat}
    {condition yes no : Expr} {span : Span} {c₁ c₂ c₃ : Nat}
    (hd : Derives (.chain Grammar.binary.length k condition) ts₁ c₁)
    (h₁ : Phrase.Found ts₁ c₁ (.chain Grammar.binary.length k condition))
    (hq : question.kind = .sign .question) (h₂ : Phrase.Found ts₂ c₂ (.expression yes))
    (hc : colon.kind = .sign .colon) (h₃ : Phrase.Found ts₃ c₃ (.expression no)) :
    Phrase.Found (ts₁ ++ question :: (ts₂ ++ colon :: ts₃)) (max c₁ (max c₂ c₃) + 1)
      (.expression (.ternary condition yes no span)) := by
  intro n hn rest hr
  obtain ⟨m, rfl⟩ : ∃ m, n = m + 1 := ⟨n - 1, by omega⟩
  have hends : Grammar.endsChain Grammar.binary.length question.kind :=
    hq ▸ Grammar.endsChain_question
  refine reads_expression_operation _ ?_ ?_
  · rw [List.append_assoc]
    exact hd.not_lambdaAhead rfl _ hends.not_arrow
  refine Reads.then (h₁.climb (by omega) hends) fun condition' hcondition => ?_
  refine Reads.take (reads_eat hq) fun b hb => ?_
  rw [hb]
  refine Reads.then (h₂ m (by omega) _ (by simp [Grammar.endsExpression, hc])) fun yes' hyes => ?_
  refine Reads.take (reads_eat hc) fun b hb => ?_
  rw [hb]
  refine Reads.last (h₃ m (by omega) _ hr) fun no' hno => ?_
  refine reads_pure ?_
  rw [Expr.Like, Expr.unplaced_ternary, Expr.unplaced_ternary, hcondition, hyes, hno]

/-- Taking the head of a lambda is going on after its arrow. -/
theorem run_lambdaHead {s : ParserState} {front rest : List Token} {arrow : Token}
    (hs : s.ahead = front ++ arrow :: rest) (ha : arrow.kind = .sign .arrow)
    (hf : ∀ t ∈ front, t.kind ≠ .sign .arrow) :
    lambdaHead.run s =
      (headParams front, { s with ahead := rest, lastEnd := arrow.span.stop }) := by
  have htake : s.ahead.takeWhile (fun t => t.kind ≠ .sign .arrow) = front := by
    rw [hs, List.takeWhile_append_of_pos (by simpa using hf)]
    simp [ha]
  have hdrop : s.ahead.drop (front.length + 1) = rest := by
    rw [hs, ← List.drop_drop, List.drop_left]
    rfl
  have hget : s.ahead[front.length]? = some arrow := by
    rw [hs, List.getElem?_append_right (Nat.le_refl _), Nat.sub_self]
    rfl
  show (headParams (s.ahead.takeWhile _), ParserState.mk (s.ahead.drop _) _ _ _ _) = _
  rw [htake, hdrop, hget]
  rfl

theorem reads_lambdaHead {head rest : List Token} {names : List String}
    (h : LambdaHead head names) :
    Reads lambdaHead head rest fun params => params.map Param.name = names := by
  obtain ⟨front, arrow, rfl, ha, hf, hp⟩ := h.exists_arrow
  intro s hs
  have hahead : s.ahead = front ++ arrow :: rest := by rw [hs.ahead, List.append_assoc]; rfl
  exact ⟨headParams front, { s with ahead := rest, lastEnd := arrow.span.stop }, hp,
    ⟨rfl, hs.eof⟩, rfl, run_lambdaHead hahead ha hf⟩

theorem found_lambda {head ts : List Token} {params : List Param} {body : Expr} {span : Span}
    {c : Nat} (hh : LambdaHead head (params.map Param.name))
    (h : Phrase.Found ts c (.expression body)) :
    Phrase.Found (head ++ ts) (c + 1) (.expression (.lambda params body span)) := by
  intro n hn rest hr
  obtain ⟨m, rfl⟩ : ∃ m, n = m + 1 := ⟨n - 1, by omega⟩
  refine Reads.look reads_get fun s hs => ?_
  rw [hs, List.append_assoc, hh.lambdaAhead]
  refine Reads.look reads_current fun _ _ => ?_
  refine Reads.then (reads_lambdaHead hh) fun params' hparams => ?_
  refine Reads.last (h m (by omega) rest hr) fun body' hbody => reads_pure ?_
  have hforget : ∀ ps : List Param, ps.map (Param.relocate fun _ => 0) =
      (ps.map Param.name).map fun name => ⟨name, ⟨0, 0⟩⟩ := by
    intro ps
    rw [List.map_map]
    rfl
  rw [Expr.Like, Expr.unplaced_lambda, Expr.unplaced_lambda, hforget, hforget, hparams, hbody]

/-! ## 7. Every derivation is found -/

/-- **Every phrase is found**, with any budget of at least its cost. -/
theorem Derives.found {p : Phrase} {ts : List Token} {c : Nat} (h : Derives p ts c) :
    p.Found ts c := by
  induction h with
  | lambda hh _ ih => exact found_lambda hh ih
  | operation h ih => exact found_operation h ih
  | conditional h₁ hq _ hc _ ih₁ ih₂ ih₃ => exact found_conditional h₁ ih₁ hq ih₂ hc ih₃
  | single _ ih => exact found_single ih
  | operator _ ht ho _ ih₁ ih₂ => exact found_operator ih₁ ht ho ih₂
  | unary ht ho _ ih => exact found_unary ht ho ih
  | operand h ih => exact found_operand h ih
  | unchained _ ih => exact found_unchained ih
  | property _ hd hn ih => exact found_property ih hd hn
  | index _ hl _ hr ih₁ ih₂ => exact found_index ih₁ hl ih₂ hr
  | call _ hl _ hr ih₁ ih₂ => exact found_call ih₁ hl ih₂ hr
  | literal h => exact found_literal h
  | identifier h => exact found_identifier h
  | parentheses hl _ hr ih => exact found_parentheses hl ih hr
  | list hl _ hr ih => exact found_list hl ih hr
  | emptyMap hl hr => exact found_emptyMap hl hr
  | set hl h₁ h₂ hr ih₁ ih₂ => exact found_set hl ih₁ h₁ ih₂ h₂ hr
  | map hl h₁ hc _ h₃ hr ih₁ ih₂ ih₃ => exact found_map hl ih₁ h₁ hc ih₂ ih₃ h₃ hr
  | noItems =>
    exact fun _ _ m _ _ _ hc => reads_afterCommas_end hc (show Expr.AllLike [] [] from rfl) m
  | item hc _ h₂ ih₁ ih₂ => exact found_item hc ih₁ ih₂ h₂
  | noEntries =>
    exact fun _ _ m _ _ _ hc => reads_afterCommas_end hc (show Expr.EntriesLike [] [] from rfl) m
  | entry hm _ hc _ h₃ ih₁ ih₂ ih₃ => exact found_entry hm ih₁ hc ih₂ ih₃ h₃
  | noArguments => exact found_noArguments
  | someArguments h₁ h₂ ih₁ ih₂ => exact found_someArguments ih₁ h₁ ih₂ h₂

/-- The end token of a state is an end. -/
theorem ParserState.eof_ofTokens (tokens : List Token) : (ofTokens tokens).eof.kind = .eof := by
  show ((tokens.find? Token.isEof).getD _).kind = .eof
  cases h : tokens.find? Token.isEof with
  | none => rfl
  | some t => simpa [Token.isEof] using List.find?_some h

/-- The state before anything was read stands in front of the tokens up to the first end token. -/
theorem ParserState.at_ofTokens_append {ts : List Token} (h : ∀ t ∈ ts, t.kind ≠ .eof)
    (rest : List Token) (hrest : nextKind rest = .eof) :
    (ParserState.ofTokens (ts ++ rest)).At ts := by
  refine ⟨?_, eof_ofTokens _⟩
  show (ts ++ rest).takeWhile (fun t => !t.isEof) = ts
  rw [List.takeWhile_append_of_pos fun t ht => by simp [Token.isEof, h t ht]]
  cases rest with
  | nil => exact List.append_nil ts
  | cons t rest => simp [Token.isEof, show t.kind = .eof from hrest]

theorem ParserState.at_ofTokens {ts : List Token} (h : ∀ t ∈ ts, t.Readable) :
    (ParserState.ofTokens ts).At ts := by
  have hat := at_ofTokens_append (fun t ht => (h t ht).1) [] rfl
  rwa [List.append_nil] at hat

/-- Nothing follows, and nothing is reported. -/
theorem reads_trailing : Reads trailing [] [] fun _ => True := by
  refine Reads.look reads_current fun token ht => ?_
  rw [ht]
  exact fun s hs => ⟨(), s.finish, trivial, ⟨rfl, hs.eof⟩, rfl, rfl⟩

theorem reads_whole {ts : List Token} {e : Expr} {c : Nat} (h : Derives (.expression e) ts c)
    (hc : c ≤ maxDepth) : Reads whole ts [] e.Like := by
  obtain ⟨t, us, rfl, _⟩ := h.opens rfl
  have hread := h.readable t List.mem_cons_self
  refine Reads.look reads_current_cons fun token htoken => ?_
  have heof : token.isEof = false := by simp [Token.isEof, htoken, hread.1]
  rw [heof]
  refine Reads.last (h.found maxDepth hc [] (.inl rfl)) fun e' he => ?_
  exact Reads.last reads_trailing fun _ _ => reads_pure he

/-- **Completeness.** A row of tokens that derives a tree within the nesting bound is read
    without a diagnostic, and the tree that is read is the derived one up to places. -/
theorem parseTokens_of_derives {ts : List Token} {e : Expr} {c : Nat}
    (h : Derives (.expression e) ts c) (hc : c ≤ maxDepth) :
    (parseTokens ts).root.unplaced = e.unplaced ∧ (parseTokens ts).diagnostics = [] := by
  have hs := ParserState.at_ofTokens h.readable
  rw [← List.append_nil ts] at hs
  obtain ⟨e', s', he, _, hd, hrun⟩ := reads_whole h hc _ hs
  rw [List.append_nil] at hrun hd
  unfold parseTokens
  rw [hrun]
  exact ⟨he, hd⟩

/-- A key that is a conditional: `{(x) ? y : z : w}`. Its parentheses are no head of a lambda,
    and its first colon is not that of the entry. -/
theorem parseTokens_conditional_key :
    let tokens := [TokenKind.sign .lBrace, .sign .lParen, .identifier "x", .sign .rParen,
      .sign .question, .identifier "y", .sign .colon, .identifier "z", .sign .colon,
      .identifier "w", .sign .rBrace].map fun kind => (⟨kind, "", ⟨0, 0⟩⟩ : Token)
    let named (name : String) : Expr := .identifier name ⟨0, 0⟩
    let tree := Expr.map
      [(.ternary (named "x") (named "y") (named "z") ⟨0, 0⟩, named "w")] ⟨0, 0⟩
    Derives (.expression tree) tokens 3 ∧ 3 ≤ maxDepth ∧
      (parseTokens tokens).root.unplaced = tree.unplaced ∧
      (parseTokens tokens).diagnostics = [] := by
  have chained : ∀ {ts e c} (l : Nat), Derives (.primary e) ts c → Derives (.chain l 0 e) ts c :=
    fun l h => Nat.rec (.operand (.unchained h)) (fun _ ih => .single ih) l
  have name : ∀ n, Derives (.expression (.identifier n ⟨0, 0⟩)) [⟨.identifier n, "", ⟨0, 0⟩⟩] 1 :=
    fun n => .operation (chained _ (.identifier rfl))
  have sign : ∀ s, (⟨.sign s, "", ⟨0, 0⟩⟩ : Token).kind = .sign s := fun _ => rfl
  have condition := chained Grammar.binary.length
    (.parentheses (sign .lParen) (name "x") (sign .rParen))
  have key : Derives (.expression (.ternary _ _ _ ⟨0, 0⟩)) _ _ :=
    .conditional condition (sign .question) (name "y") (sign .colon) (name "z")
  have tree : Derives (.primary (.map _ ⟨0, 0⟩)) _ _ :=
    .map (sign .lBrace) key (sign .colon) (name "w") .noEntries (sign .rBrace)
  have h := Derives.operation (chained _ tree)
  exact ⟨h, by decide, parseTokens_of_derives h (by decide)⟩

end FlowExpr
