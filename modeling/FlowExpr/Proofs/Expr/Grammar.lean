import FlowExpr.Proofs.Expr.Relocation

/-!
# The grammar of expressions

Which rows of tokens write which trees, said without the parser:

* `Derives phrase tokens cost`: the tokens can be read as the phrase, and reading them takes
  `cost` levels of nesting. A phrase is a place of the grammar with the tree that is read
  there. Places of trees are free: the grammar says nothing about them.
* A level of nesting is taken by every nested expression, by every unary operator, by every
  operator of a chain for what stands after it, and by every postfix of a chain. The levels
  of what is nested add up; an operand pays nothing for the operators after it. The cost is the
  greatest sum.
* `LambdaHead`: the tokens of a lambda up to its arrow.

Main facts: what is derived has no end token and no unreadable token (`Derives.readable`), its
tree has neither error nodes nor nameless properties (`Derives.gapless`), and only a lambda
begins like one (`Derives.not_lambdaAhead`).
-/

namespace FlowExpr

/-! ## 1. Signs of operators -/

namespace Grammar

/-- The levels of binary operators, from the tightest to the loosest. -/
def binary : List (List (Sign × BinaryOp)) :=
  [[(.star, .multiply), (.slash, .divide), (.percent, .modulo)],
   [(.plus, .add), (.minus, .subtract)],
   [(.plusEq, .concat)],
   [(.lt, .lessThan), (.gt, .greaterThan), (.ltEq, .lessEqual), (.gtEq, .greaterEqual),
    (.instanceOf, .instanceOf)],
   [(.eqEq, .equal), (.notEq, .notEqual)],
   [(.and, .and)],
   [(.or, .or)]]

/-- The operators of a level. -/
def binaryAt (level : Nat) : List (Sign × BinaryOp) := binary.getD level []

/-- The unary operators. -/
def unary : List (Sign × UnaryOp) := [(.minus, .negate), (.not, .not), (.empty, .empty)]

/-- The levels are those of the parser's operators: the table and the looseness agree. -/
theorem mem_binaryAt {sign : Sign} {op : BinaryOp} {level : Nat} :
    (sign, op) ∈ binaryAt level ↔ BinaryOp.ofSign? sign = some op ∧ op.looseness = level + 1 := by
  constructor
  · intro h
    have hl : level < 7 := by
      refine Classical.byContradiction fun hn => ?_
      rw [binaryAt, List.getD_eq_getElem?_getD,
        List.getElem?_eq_none (Nat.le_of_not_lt hn : binary.length ≤ level)] at h
      exact List.not_mem_nil h
    have hall : ∀ l < 7, ∀ entry ∈ binaryAt l,
        BinaryOp.ofSign? entry.1 = some entry.2 ∧ entry.2.looseness = l + 1 := by decide
    exact hall level hl _ h
  · rintro ⟨ho, hl⟩
    have hmem : (sign, op) ∈ binaryAt (op.looseness - 1) := by
      cases sign <;> cases ho <;> decide
    rwa [hl] at hmem

theorem mem_unary {sign : Sign} {op : UnaryOp} :
    (sign, op) ∈ unary ↔ UnaryOp.ofSign? sign = some op := by
  cases sign <;> cases op <;> decide

/-- The value of a literal token. -/
def literal? : TokenKind → Option Literal
  | .integer n => some (.integer n)
  | .decimal d => some (.decimal d)
  | .string text => some (.string text)
  | .boolean b => some (.boolean b)
  | .null => some .null
  | _ => none

end Grammar

/-! ## 2. Lambda heads -/

/-- Names separated by commas, at least one. -/
inductive NameRow : List Token → List String → Prop where
  | last {t : Token} {name : String} (h : t.kind = .identifier name) : NameRow [t] [name]
  | cons {t comma : Token} {ts : List Token} {name : String} {names : List String}
      (h : t.kind = .identifier name) (hc : comma.kind = .sign .comma) (hr : NameRow ts names) :
      NameRow (t :: comma :: ts) (name :: names)

/-- The head of a lambda with the names of its parameters: `x ->`, `() ->`, `(x, y) ->`. -/
inductive LambdaHead : List Token → List String → Prop where
  | bare {t arrow : Token} {name : String} (h : t.kind = .identifier name)
      (ha : arrow.kind = .sign .arrow) : LambdaHead [t, arrow] [name]
  | empty {left right arrow : Token} (hl : left.kind = .sign .lParen)
      (hr : right.kind = .sign .rParen) (ha : arrow.kind = .sign .arrow) :
      LambdaHead [left, right, arrow] []
  | row {left right arrow : Token} {ts : List Token} {names : List String}
      (hl : left.kind = .sign .lParen) (h : NameRow ts names)
      (hr : right.kind = .sign .rParen) (ha : arrow.kind = .sign .arrow) :
      LambdaHead (left :: ts ++ [right, arrow]) names

/-! ## 3. Derivations -/

/-- A place of the grammar and what is read there: a whole expression; an expression of
    operators up to a level, with the number of operators of its outermost chain; a chain of
    postfixes with their number; what a chain of postfixes begins with; expressions or entries
    that each follow a comma; the arguments of a call or the items of a list. -/
inductive Phrase where
  | expression (e : Expr)
  | chain (level operators : Nat) (e : Expr)
  | postfixed (postfixes : Nat) (e : Expr)
  | primary (e : Expr)
  | moreItems (es : List Expr)
  | moreEntries (es : List (Expr × Expr))
  | arguments (es : List Expr)

/-- **The grammar**: the tokens write the phrase, and the derivation takes a number of levels. -/
inductive Derives : Phrase → List Token → Nat → Prop where
  -- expressions: each takes a level
  | lambda {head ts : List Token} {params : List Param} {body : Expr} {span : Span} {c : Nat}
      (hh : LambdaHead head (params.map Param.name)) (hb : Derives (.expression body) ts c) :
      Derives (.expression (.lambda params body span)) (head ++ ts) (c + 1)
  | operation {ts : List Token} {k : Nat} {e : Expr} {c : Nat}
      (h : Derives (.chain Grammar.binary.length k e) ts c) :
      Derives (.expression e) ts (c + 1)
  | conditional {question colon : Token} {ts₁ ts₂ ts₃ : List Token} {k : Nat}
      {condition yes no : Expr} {span : Span} {c₁ c₂ c₃ : Nat}
      (h₁ : Derives (.chain Grammar.binary.length k condition) ts₁ c₁)
      (hq : question.kind = .sign .question) (h₂ : Derives (.expression yes) ts₂ c₂)
      (hc : colon.kind = .sign .colon) (h₃ : Derives (.expression no) ts₃ c₃) :
      Derives (.expression (.ternary condition yes no span))
        (ts₁ ++ question :: (ts₂ ++ colon :: ts₃)) (max c₁ (max c₂ c₃) + 1)
  -- chains of binary operators: an operand takes a level for each operator before it
  | single {ts : List Token} {l k : Nat} {e : Expr} {c : Nat} (h : Derives (.chain l k e) ts c) :
      Derives (.chain (l + 1) 0 e) ts c
  | operator {t : Token} {sign : Sign} {ts₁ ts₂ : List Token} {l k j : Nat} {op : BinaryOp}
      {left right : Expr} {span : Span} {c₁ c₂ : Nat}
      (h₁ : Derives (.chain (l + 1) k left) ts₁ c₁) (ht : t.kind = .sign sign)
      (ho : (sign, op) ∈ Grammar.binaryAt l) (h₂ : Derives (.chain l j right) ts₂ c₂) :
      Derives (.chain (l + 1) (k + 1) (.binary op left right span)) (ts₁ ++ t :: ts₂)
        (max c₁ (k + 1 + c₂))
  -- unary operators: each takes a level
  | unary {t : Token} {sign : Sign} {ts : List Token} {op : UnaryOp} {operand : Expr}
      {span : Span} {c : Nat} (ht : t.kind = .sign sign) (ho : (sign, op) ∈ Grammar.unary)
      (h : Derives (.chain 0 0 operand) ts c) :
      Derives (.chain 0 0 (.unary op operand span)) (t :: ts) (c + 1)
  | operand {ts : List Token} {k : Nat} {e : Expr} {c : Nat} (h : Derives (.postfixed k e) ts c) :
      Derives (.chain 0 0 e) ts c
  -- chains of postfixes: a postfix takes a level for itself and for each one before it
  | unchained {ts : List Token} {e : Expr} {c : Nat} (h : Derives (.primary e) ts c) :
      Derives (.postfixed 0 e) ts c
  | property {dot t : Token} {ts : List Token} {k : Nat} {target : Expr} {name : String}
      {nameSpan span : Span} {c : Nat} (h : Derives (.postfixed k target) ts c)
      (hd : dot.kind = .sign .dot) (hn : t.memberName? = some name) :
      Derives (.postfixed (k + 1) (.property target (some name) nameSpan span))
        (ts ++ [dot, t]) (max c (k + 1))
  | index {left right : Token} {ts₁ ts₂ : List Token} {k : Nat} {target i : Expr} {span : Span}
      {c₁ c₂ : Nat} (h₁ : Derives (.postfixed k target) ts₁ c₁)
      (hl : left.kind = .sign .lBracket) (h₂ : Derives (.expression i) ts₂ c₂)
      (hr : right.kind = .sign .rBracket) :
      Derives (.postfixed (k + 1) (.index target i span))
        (ts₁ ++ left :: (ts₂ ++ [right])) (max c₁ (k + 1 + c₂))
  | call {left right : Token} {ts₁ ts₂ : List Token} {k : Nat} {target : Expr}
      {args : List Expr} {span : Span} {c₁ c₂ : Nat} (h₁ : Derives (.postfixed k target) ts₁ c₁)
      (hl : left.kind = .sign .lParen) (h₂ : Derives (.arguments args) ts₂ c₂)
      (hr : right.kind = .sign .rParen) :
      Derives (.postfixed (k + 1) (.call target args span))
        (ts₁ ++ left :: (ts₂ ++ [right])) (max c₁ (k + 1 + c₂))
  -- what stands alone
  | literal {t : Token} {value : Literal} {span : Span}
      (h : Grammar.literal? t.kind = some value) : Derives (.primary (.literal value span)) [t] 0
  | identifier {t : Token} {name : String} {span : Span} (h : t.kind = .identifier name) :
      Derives (.primary (.identifier name span)) [t] 0
  | parentheses {left right : Token} {ts : List Token} {e : Expr} {c : Nat}
      (hl : left.kind = .sign .lParen) (h : Derives (.expression e) ts c)
      (hr : right.kind = .sign .rParen) : Derives (.primary e) (left :: (ts ++ [right])) c
  | list {left right : Token} {ts : List Token} {items : List Expr} {span : Span} {c : Nat}
      (hl : left.kind = .sign .lBracket) (h : Derives (.arguments items) ts c)
      (hr : right.kind = .sign .rBracket) :
      Derives (.primary (.list items span)) (left :: (ts ++ [right])) c
  | emptyMap {left right : Token} {span : Span} (hl : left.kind = .sign .lBrace)
      (hr : right.kind = .sign .rBrace) : Derives (.primary (.map [] span)) [left, right] 0
  | set {left right : Token} {ts₁ ts₂ : List Token} {e : Expr} {es : List Expr} {span : Span}
      {c₁ c₂ : Nat} (hl : left.kind = .sign .lBrace) (h₁ : Derives (.expression e) ts₁ c₁)
      (h₂ : Derives (.moreItems es) ts₂ c₂) (hr : right.kind = .sign .rBrace) :
      Derives (.primary (.set (e :: es) span)) (left :: (ts₁ ++ (ts₂ ++ [right]))) (max c₁ c₂)
  | map {left colon right : Token} {ts₁ ts₂ ts₃ : List Token} {key value : Expr}
      {es : List (Expr × Expr)} {span : Span} {c₁ c₂ c₃ : Nat}
      (hl : left.kind = .sign .lBrace) (h₁ : Derives (.expression key) ts₁ c₁)
      (hc : colon.kind = .sign .colon) (h₂ : Derives (.expression value) ts₂ c₂)
      (h₃ : Derives (.moreEntries es) ts₃ c₃) (hr : right.kind = .sign .rBrace) :
      Derives (.primary (.map ((key, value) :: es) span))
        (left :: (ts₁ ++ colon :: (ts₂ ++ (ts₃ ++ [right])))) (max c₁ (max c₂ c₃))
  -- rows
  | noItems : Derives (.moreItems []) [] 0
  | item {comma : Token} {ts₁ ts₂ : List Token} {e : Expr} {es : List Expr} {c₁ c₂ : Nat}
      (hc : comma.kind = .sign .comma) (h₁ : Derives (.expression e) ts₁ c₁)
      (h₂ : Derives (.moreItems es) ts₂ c₂) :
      Derives (.moreItems (e :: es)) (comma :: (ts₁ ++ ts₂)) (max c₁ c₂)
  | noEntries : Derives (.moreEntries []) [] 0
  | entry {comma colon : Token} {ts₁ ts₂ ts₃ : List Token} {key value : Expr}
      {es : List (Expr × Expr)} {c₁ c₂ c₃ : Nat} (hm : comma.kind = .sign .comma)
      (h₁ : Derives (.expression key) ts₁ c₁) (hc : colon.kind = .sign .colon)
      (h₂ : Derives (.expression value) ts₂ c₂) (h₃ : Derives (.moreEntries es) ts₃ c₃) :
      Derives (.moreEntries ((key, value) :: es))
        (comma :: (ts₁ ++ colon :: (ts₂ ++ ts₃))) (max c₁ (max c₂ c₃))
  | noArguments : Derives (.arguments []) [] 0
  | someArguments {ts₁ ts₂ : List Token} {e : Expr} {es : List Expr} {c₁ c₂ : Nat}
      (h₁ : Derives (.expression e) ts₁ c₁) (h₂ : Derives (.moreItems es) ts₂ c₂) :
      Derives (.arguments (e :: es)) (ts₁ ++ ts₂) (max c₁ c₂)

/-! ## 4. Tokens and trees of a derivation -/

/-- The token is neither the end nor unreadable input. -/
def Token.Readable (t : Token) : Prop := t.kind ≠ .eof ∧ t.kind ≠ .invalid

theorem Token.readable_of_sign {t : Token} {sign : Sign} (h : t.kind = .sign sign) :
    t.Readable := by
  simp [Readable, h]

theorem Token.readable_of_identifier {t : Token} {name : String}
    (h : t.kind = .identifier name) : t.Readable := by
  simp [Readable, h]

theorem Token.readable_of_literal {t : Token} {value : Literal}
    (h : Grammar.literal? t.kind = some value) : t.Readable := by
  constructor <;> intro hk <;> rw [hk] at h <;> cases h

theorem Token.readable_of_memberName {t : Token} {name : String}
    (h : t.memberName? = some name) : t.Readable := by
  constructor <;> intro hk <;> simp [memberName?, hk, TokenKind.isKeyword] at h

theorem NameRow.readable {ts : List Token} {names : List String} (h : NameRow ts names) :
    ∀ t ∈ ts, t.Readable := by
  induction h with
  | last h => simpa using Token.readable_of_identifier h
  | cons h hc _ ih =>
    simpa [Token.readable_of_identifier h, Token.readable_of_sign hc] using ih

theorem LambdaHead.readable {ts : List Token} {names : List String} (h : LambdaHead ts names) :
    ∀ t ∈ ts, t.Readable := by
  cases h with
  | bare h ha => simp [Token.readable_of_identifier h, Token.readable_of_sign ha]
  | empty hl hr ha =>
    simp [Token.readable_of_sign hl, Token.readable_of_sign hr, Token.readable_of_sign ha]
  | row hl h hr ha =>
    intro t ht
    simp only [List.cons_append, List.mem_cons, List.mem_append, List.not_mem_nil, or_false] at ht
    rcases ht with rfl | ht | rfl | rfl
    · exact Token.readable_of_sign hl
    · exact h.readable t ht
    · exact Token.readable_of_sign hr
    · exact Token.readable_of_sign ha

/-- **Every token of a derivation can be read**: no end token, no unreadable input. -/
theorem Derives.readable {p : Phrase} {ts : List Token} {c : Nat} (h : Derives p ts c) :
    ∀ t ∈ ts, t.Readable := by
  induction h with
  | lambda hh _ ih => simpa [or_imp, forall_and] using ⟨hh.readable, ih⟩
  | literal h => simpa using Token.readable_of_literal h
  | identifier h => simpa using Token.readable_of_identifier h
  | property _ hd hn ih =>
    simpa [or_imp, forall_and] using
      ⟨ih, Token.readable_of_sign hd, Token.readable_of_memberName hn⟩
  | _ => simp_all [or_imp, Token.readable_of_sign]

/-- The node stands for something missing: unreadable input, or a property without a name. -/
def Expr.isGap : Expr → Bool
  | .error _ | .property _ none _ _ => true
  | _ => false

/-- No node of the tree stands for something missing. -/
def Expr.Gapless (e : Expr) : Prop := ∀ depth, ∀ node ∈ e.nodes depth, node.2.isGap = false

/-- The trees of a phrase. -/
def Phrase.trees : Phrase → List Expr
  | .expression e | .chain _ _ e | .postfixed _ e | .primary e => [e]
  | .moreItems es | .arguments es => es
  | .moreEntries es => es.flatMap fun entry => [entry.1, entry.2]

theorem Expr.mem_nodesOfList {es : List Expr} {depth : Nat} {node : Nat × Expr} :
    node ∈ Expr.nodesOfList depth es ↔ ∃ e ∈ es, node ∈ e.nodes depth := by
  induction es with
  | nil => simp [Expr.nodesOfList]
  | cons e es ih => simp [Expr.nodesOfList, ih]

theorem Expr.mem_nodesOfEntries {es : List (Expr × Expr)} {depth : Nat} {node : Nat × Expr} :
    node ∈ Expr.nodesOfEntries depth es ↔
      ∃ e ∈ es.flatMap fun entry => [entry.1, entry.2], node ∈ e.nodes depth := by
  induction es with
  | nil => simp [Expr.nodesOfEntries]
  | cons entry es ih =>
    obtain ⟨key, value⟩ := entry
    simp [Expr.nodesOfEntries, ih]

/-- The nodes of a tree are its root and the nodes of its parts. -/
theorem Expr.mem_nodes {e : Expr} {depth : Nat} {node : Nat × Expr} :
    node ∈ e.nodes depth ↔
      node = (depth, e) ∨ ∃ x ∈ e.children, node ∈ x.nodes (depth + 1) := by
  cases e with
  | call target args span =>
    simp [Expr.nodes, Expr.children, Expr.mem_nodesOfList]
  | list items span => simp [Expr.nodes, Expr.children, Expr.mem_nodesOfList]
  | set items span => simp [Expr.nodes, Expr.children, Expr.mem_nodesOfList]
  | map entries span => simp only [Expr.nodes, Expr.children, List.mem_cons,
      Expr.mem_nodesOfEntries]
  | _ => simp [Expr.nodes, Expr.children]

/-- A tree has no gaps if its root is none and its parts have none. -/
theorem Expr.gapless_of_children {e : Expr} (he : e.isGap = false)
    (hc : ∀ x ∈ e.children, x.Gapless) : e.Gapless := by
  intro depth node hn
  rcases Expr.mem_nodes.mp hn with rfl | ⟨x, hx, hn⟩
  · exact he
  · exact hc x hx (depth + 1) node hn

/-- **The trees of a derivation have no gaps**: no error node, no property without a name. -/
theorem Derives.gapless {p : Phrase} {ts : List Token} {c : Nat} (h : Derives p ts c) :
    ∀ e ∈ p.trees, e.Gapless := by
  induction h with
  | lambda _ _ ih | unary _ _ _ ih | property _ _ _ ih | list _ _ _ ih =>
    simp only [Phrase.trees, List.mem_singleton, forall_eq]
    exact Expr.gapless_of_children rfl (by simpa [Expr.children, Phrase.trees] using ih)
  | conditional _ _ _ _ _ ih₁ ih₂ ih₃ =>
    simp only [Phrase.trees, List.mem_singleton, forall_eq] at ih₁ ih₂ ih₃ ⊢
    exact Expr.gapless_of_children rfl (by simp [Expr.children, ih₁, ih₂, ih₃])
  | operator _ _ _ _ ih₁ ih₂ | index _ _ _ _ ih₁ ih₂ | call _ _ _ _ ih₁ ih₂
  | set _ _ _ _ ih₁ ih₂ =>
    simp only [Phrase.trees, List.mem_singleton, forall_eq] at ih₁ ih₂ ⊢
    exact Expr.gapless_of_children rfl (by simpa [Expr.children, ih₁] using ih₂)
  | map _ _ _ _ _ _ ih₁ ih₂ ih₃ =>
    simp only [Phrase.trees, List.mem_singleton, forall_eq] at ih₁ ih₂ ih₃ ⊢
    refine Expr.gapless_of_children rfl ?_
    simpa [Expr.children, ih₁, ih₂] using ih₃
  | literal | identifier | emptyMap =>
    simp only [Phrase.trees, List.mem_singleton, forall_eq]
    exact Expr.gapless_of_children rfl (by simp [Expr.children])
  | entry _ _ _ _ _ ih₁ ih₂ ih₃ =>
    simp only [Phrase.trees, List.mem_singleton, forall_eq] at ih₁ ih₂ ih₃ ⊢
    simpa [ih₁, ih₂] using ih₃
  | _ => simp_all [Phrase.trees]

/-! ## 5. How phrases begin -/

/-- Kind of the first token, the end if there is none. -/
def nextKind : List Token → TokenKind
  | [] => .eof
  | t :: _ => t.kind

@[simp] theorem nextKind_cons (t : Token) (ts : List Token) : nextKind (t :: ts) = t.kind := rfl

namespace Grammar

/-- The kind begins something that stands alone. -/
def opensPrimary (kind : TokenKind) : Prop :=
  (literal? kind).isSome ∨ (∃ name, kind = .identifier name) ∨ kind = .sign .lParen ∨
    kind = .sign .lBracket ∨ kind = .sign .lBrace

/-- The kind begins an expression. -/
def opensExpression (kind : TokenKind) : Prop :=
  opensPrimary kind ∨ ∃ sign op, kind = .sign sign ∧ (sign, op) ∈ unary

end Grammar

/-- What the first token of a phrase is like; rows may be empty. -/
def Phrase.Opens (kind : TokenKind) : Phrase → Prop
  | .expression _ | .chain .. => Grammar.opensExpression kind
  | .postfixed .. | .primary _ => Grammar.opensPrimary kind
  | _ => True

/-- The phrase is one tree. -/
def Phrase.isTree : Phrase → Bool
  | .expression _ | .chain .. | .postfixed .. | .primary _ => true
  | _ => false

theorem LambdaHead.opens {ts : List Token} {names : List String} (h : LambdaHead ts names) :
    ∃ t us, ts = t :: us ∧ Grammar.opensPrimary t.kind := by
  cases h with
  | bare h => exact ⟨_, _, rfl, .inr (.inl ⟨_, h⟩)⟩
  | empty hl => exact ⟨_, _, rfl, .inr (.inr (.inl hl))⟩
  | row hl => exact ⟨_, _, rfl, .inr (.inr (.inl hl))⟩

/-- A phrase that is one tree begins with a token, and not with just any. -/
theorem Derives.opens {p : Phrase} {ts : List Token} {c : Nat} (h : Derives p ts c)
    (hp : p.isTree = true) : ∃ t us, ts = t :: us ∧ p.Opens t.kind := by
  induction h with
  | lambda hh =>
    obtain ⟨t, us, rfl, ht⟩ := hh.opens
    exact ⟨t, _, rfl, .inl ht⟩
  | operation _ ih | single _ ih | unchained _ ih => exact ih rfl
  | conditional _ _ _ _ _ ih =>
    obtain ⟨t, us, rfl, ht⟩ := ih rfl
    exact ⟨t, _, rfl, ht⟩
  | operator _ _ _ _ ih | index _ _ _ _ ih | call _ _ _ _ ih | property _ _ _ ih =>
    obtain ⟨t, us, rfl, ht⟩ := ih rfl
    exact ⟨t, _, rfl, ht⟩
  | unary ht ho => exact ⟨_, _, rfl, .inr ⟨_, _, ht, ho⟩⟩
  | operand _ ih =>
    obtain ⟨t, us, rfl, ht⟩ := ih rfl
    exact ⟨t, _, rfl, .inl ht⟩
  | literal h => exact ⟨_, _, rfl, .inl (by rw [h]; rfl)⟩
  | identifier h => exact ⟨_, _, rfl, .inr (.inl ⟨_, h⟩)⟩
  | parentheses hl => exact ⟨_, _, rfl, .inr (.inr (.inl hl))⟩
  | list hl => exact ⟨_, _, rfl, .inr (.inr (.inr (.inl hl)))⟩
  | emptyMap hl | set hl | map hl => exact ⟨_, _, rfl, .inr (.inr (.inr (.inr hl)))⟩
  | _ => cases hp

/-! ## 6. Only a lambda begins like one -/

theorem namesThenArrow_eq_false {t : Token} {ts : List Token}
    (h : ∀ name, t.kind ≠ .identifier name) : Parser.namesThenArrow (t :: ts) = false := by
  obtain ⟨kind, text, span⟩ := t
  cases kind with
  | identifier name => exact absurd rfl (h name)
  | _ => rfl

/-- A name in front of neither a comma nor a closing parenthesis with an arrow is no row of
    parameters. -/
theorem namesThenArrow_name {t : Token} {ts : List Token} (hc : nextKind ts ≠ .sign .comma)
    (ha : nextKind ts = .sign .rParen → nextKind ts.tail ≠ .sign .arrow) :
    Parser.namesThenArrow (t :: ts) = false := by
  unfold Parser.namesThenArrow
  split
  · rename_i h
    cases h
    exact absurd rfl hc
  · rename_i h
    cases h
    exact absurd rfl (ha rfl)
  · rfl

/-- A tree in front of neither a comma nor a closing parenthesis with an arrow is no row of
    parameters. -/
theorem Derives.not_namesThenArrow {p : Phrase} {ts : List Token} {c : Nat} (h : Derives p ts c)
    (hp : p.isTree = true) : ∀ rest : List Token, nextKind rest ≠ .sign .comma →
      (nextKind rest = .sign .rParen → nextKind rest.tail ≠ .sign .arrow) →
      Parser.namesThenArrow (ts ++ rest) = false := by
  induction h with
  | lambda hh =>
    intro rest _ _
    generalize List.map Param.name _ = names at hh
    cases hh with
    | bare h ha => exact namesThenArrow_name (by simp [ha]) (by simp [ha])
    | empty hl => exact namesThenArrow_eq_false (by simp [hl])
    | row hl => exact namesThenArrow_eq_false (by simp [hl])
  | operation _ ih | single _ ih | operand _ ih | unchained _ ih => exact ih rfl
  | conditional _ hq _ _ _ ih =>
    intro rest _ _
    rw [List.append_assoc]
    exact ih rfl _ (by simp [hq]) (by simp [hq])
  | operator _ ht ho _ ih =>
    intro rest _ _
    rw [List.append_assoc]
    have hs := (Grammar.mem_binaryAt.mp ho).1
    refine ih rfl _ ?_ ?_
    · rintro hk
      cases ht.symm.trans hk
      cases hs
    · intro hk
      cases ht.symm.trans hk
      cases hs
  | property _ hd _ ih =>
    intro rest _ _
    rw [List.append_assoc]
    exact ih rfl _ (by simp [hd]) (by simp [hd])
  | index _ hl _ _ ih | call _ hl _ _ ih =>
    intro rest _ _
    rw [List.append_assoc]
    exact ih rfl _ (by simp [hl]) (by simp [hl])
  | unary ht => exact fun _ _ _ => namesThenArrow_eq_false (by simp [ht])
  | literal h =>
    intro rest _ _
    refine namesThenArrow_eq_false fun name hk => ?_
    rw [hk] at h
    cases h
  | identifier => exact fun rest hc ha => namesThenArrow_name hc ha
  | parentheses hl | list hl | emptyMap hl | set hl | map hl =>
    exact fun _ _ _ => namesThenArrow_eq_false (by simp [hl])
  | _ => cases hp

theorem lambdaAhead_eq_false {t : Token} {ts : List Token}
    (hi : ∀ name, t.kind ≠ .identifier name) (hp : t.kind ≠ .sign .lParen) :
    Parser.lambdaAhead (t :: ts) = false := by
  unfold Parser.lambdaAhead
  split
  · rename_i h
    cases h
    exact absurd rfl (hi _)
  · rename_i h
    cases h
    exact absurd rfl hp
  · rename_i h
    cases h
    exact absurd rfl hp
  · rfl

theorem lambdaAhead_name {t : Token} {ts : List Token} {name : String}
    (ht : t.kind = .identifier name) (hn : nextKind ts ≠ .sign .arrow) :
    Parser.lambdaAhead (t :: ts) = false := by
  unfold Parser.lambdaAhead
  split
  · rename_i h
    cases h
    exact absurd rfl hn
  · rename_i h
    cases h
    cases ht
  · rename_i h
    cases h
    cases ht
  · rfl

theorem lambdaAhead_paren {t : Token} {ts : List Token} (ht : t.kind = .sign .lParen)
    (hn : nextKind ts ≠ .sign .rParen) :
    Parser.lambdaAhead (t :: ts) = Parser.namesThenArrow ts := by
  unfold Parser.lambdaAhead
  split
  · rename_i h
    cases h
    cases ht
  · rename_i h
    cases h
    exact absurd rfl hn
  · rename_i h
    cases h
    rfl
  · rename_i h
    obtain ⟨kind, text, span⟩ := t
    cases ht
    exact absurd rfl (h _ _ _)

/-- The phrase is a tree of operators or tighter. -/
def Phrase.isOperand : Phrase → Bool
  | .chain .. | .postfixed .. | .primary _ => true
  | _ => false

/-- What begins an expression closes nothing. -/
theorem Grammar.opensExpression.not_closing {kind : TokenKind} (h : Grammar.opensExpression kind)
    {sign : Sign} (hs : sign.isClosing = true) : kind ≠ .sign sign := by
  rintro rfl
  rcases h with (h | ⟨_, h⟩ | h | h | h) | ⟨_, op, h, hu⟩
  · cases h
  · cases h
  · cases h
    cases hs
  · cases h
    cases hs
  · cases h
    cases hs
  · cases h
    have ho := Grammar.mem_unary.mp hu
    cases sign <;> cases hs <;> cases ho

/-- **Operators and what is tighter never begin like a lambda**, whatever follows them but an
    arrow. -/
theorem Derives.not_lambdaAhead {p : Phrase} {ts : List Token} {c : Nat} (h : Derives p ts c)
    (hp : p.isOperand = true) : ∀ rest : List Token, nextKind rest ≠ .sign .arrow →
      Parser.lambdaAhead (ts ++ rest) = false := by
  induction h with
  | single _ ih | operand _ ih | unchained _ ih => exact ih rfl
  | operator _ ht ho _ ih =>
    intro rest _
    rw [List.append_assoc]
    refine ih rfl _ fun hk => ?_
    cases ht.symm.trans hk
    cases (Grammar.mem_binaryAt.mp ho).1
  | property _ hd _ ih =>
    intro rest _
    rw [List.append_assoc]
    exact ih rfl _ (by simp [hd])
  | index _ hl _ _ ih | call _ hl _ _ ih =>
    intro rest _
    rw [List.append_assoc]
    exact ih rfl _ (by simp [hl])
  | unary ht ho =>
    intro rest _
    refine lambdaAhead_eq_false (by simp [ht]) fun hk => ?_
    cases ht.symm.trans hk
    cases Grammar.mem_unary.mp ho
  | literal h =>
    intro rest _
    refine lambdaAhead_eq_false (fun name hk => ?_) (fun hk => ?_) <;> rw [hk] at h <;> cases h
  | identifier h => exact fun rest hr => lambdaAhead_name h hr
  | parentheses hl h hr =>
    -- the parentheses hold an expression, which is no row of parameters in front of an arrow
    intro rest hn
    obtain ⟨t, us, rfl, ht⟩ := h.opens rfl
    have hne : t.kind ≠ .sign .rParen := ht.not_closing rfl
    rw [List.cons_append, lambdaAhead_paren hl (by exact hne), List.append_assoc]
    exact h.not_namesThenArrow rfl _ (by simp [hr]) (fun _ => hn)
  | list hl | emptyMap hl | set hl | map hl =>
    exact fun _ _ => lambdaAhead_eq_false (by simp [hl]) (by simp [hl])
  | _ => cases hp

/-! ## 7. Lambda heads -/

/-- A token that is a name, as it is matched. -/
theorem Token.eq_identifier {t : Token} {name : String} (h : t.kind = .identifier name) :
    t = ⟨.identifier name, t.text, t.span⟩ := by
  rw [← h]

/-- A token that is a sign, as it is matched. -/
theorem Token.eq_sign {t : Token} {sign : Sign} (h : t.kind = .sign sign) :
    t = ⟨.sign sign, t.text, t.span⟩ := by
  rw [← h]

theorem NameRow.namesThenArrow {ts rest : List Token} {names : List String} {right arrow : Token}
    (h : NameRow ts names) (hr : right.kind = .sign .rParen) (ha : arrow.kind = .sign .arrow) :
    Parser.namesThenArrow (ts ++ right :: arrow :: rest) = true := by
  induction h with
  | last h =>
    rw [Token.eq_identifier h, Token.eq_sign hr, Token.eq_sign ha]
    rfl
  | cons h hc _ ih =>
    rw [Token.eq_identifier h, Token.eq_sign hc]
    exact ih

/-- Names, a closing parenthesis and an arrow are what is looked for after a parenthesis. -/
theorem exists_nameRow {ts : List Token} (h : Parser.namesThenArrow ts = true) :
    ∃ row names right arrow rest, ts = row ++ right :: arrow :: rest ∧ NameRow row names ∧
      right.kind = .sign .rParen ∧ arrow.kind = .sign .arrow := by
  fun_induction Parser.namesThenArrow ts with
  | case1 name _ _ _ _ rest ih =>
    obtain ⟨row, names, right, arrow, rest', rfl, hrow, hr, ha⟩ := ih h
    exact ⟨_ :: _ :: row, name :: names, right, arrow, rest', rfl, .cons rfl rfl hrow, hr, ha⟩
  | case2 name => exact ⟨[_], [name], _, _, _, rfl, .last rfl, rfl, rfl⟩
  | case3 => cases h

theorem LambdaHead.lambdaAhead {ts : List Token} {names : List String} (h : LambdaHead ts names)
    (rest : List Token) : Parser.lambdaAhead (ts ++ rest) = true := by
  cases h with
  | bare h ha =>
    rw [Token.eq_identifier h, Token.eq_sign ha]
    rfl
  | empty hl hr ha =>
    rw [Token.eq_sign hl, Token.eq_sign hr, Token.eq_sign ha]
    rfl
  | row hl h hr ha =>
    rw [List.cons_append, List.cons_append, List.append_assoc, lambdaAhead_paren hl]
    · exact h.namesThenArrow hr ha
    · cases h with
      | last h | cons h => simp [h]

/-- **What looks like the head of a lambda is one.** -/
theorem exists_lambdaHead {ts : List Token} (h : Parser.lambdaAhead ts = true) :
    ∃ head names rest, ts = head ++ rest ∧ LambdaHead head names := by
  unfold Parser.lambdaAhead at h
  split at h
  · exact ⟨[_, _], _, _, rfl, .bare rfl rfl⟩
  · exact ⟨[_, _, _], _, _, rfl, .empty rfl rfl rfl⟩
  · rename_i text span _ _
    obtain ⟨row, names, right, arrow, rest, rfl, hrow, hr, ha⟩ := exists_nameRow h
    exact ⟨⟨.sign .lParen, text, span⟩ :: row ++ [right, arrow], names, rest, by simp,
      .row rfl hrow hr ha⟩
  · cases h

theorem NameRow.not_arrow {ts : List Token} {names : List String} (h : NameRow ts names) :
    ∀ t ∈ ts, t.kind ≠ .sign .arrow := by
  induction h with
  | last h => simp [h]
  | cons h hc _ ih => simpa [h, hc] using ih

theorem NameRow.headParams {ts : List Token} {names : List String} (h : NameRow ts names)
    (us : List Token) : (Parser.headParams (ts ++ us)).map Param.name =
      names ++ (Parser.headParams us).map Param.name := by
  induction h with
  | last h => simp [Parser.headParams, h]
  | cons h hc _ ih => simp [Parser.headParams, h, hc, ih]

/-- The head of a lambda ends with its first arrow, and the names before it are its
    parameters. -/
theorem LambdaHead.exists_arrow {ts : List Token} {names : List String}
    (h : LambdaHead ts names) : ∃ front arrow, ts = front ++ [arrow] ∧
      arrow.kind = .sign .arrow ∧ (∀ t ∈ front, t.kind ≠ .sign .arrow) ∧
      (Parser.headParams front).map Param.name = names := by
  cases h with
  | bare h ha => exact ⟨[_], _, rfl, ha, by simp [h], by simp [Parser.headParams, h]⟩
  | empty hl hr ha =>
    exact ⟨[_, _], _, rfl, ha, by simp [hl, hr], by simp [Parser.headParams, hl, hr]⟩
  | @row left right arrow ts _ hl h hr ha =>
    refine ⟨left :: (ts ++ [right]), arrow, by simp, ha, ?_, ?_⟩
    · simpa [hl, hr, or_imp, forall_and] using h.not_arrow
    · simp [Parser.headParams, hl, hr, h.headParams]

end FlowExpr
