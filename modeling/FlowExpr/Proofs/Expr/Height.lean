import FlowExpr.Proofs.Expr.Placement
import FlowExpr.Proofs.Expr.Soundness

/-!
# How high trees get

The budget bounds how far the parser nests, not how high its trees get. What is nested in a
construct is read while the construct holds its levels; but an operand before a sign is over when
the sign is read, and has given its levels back. So operators and postfixes pile up on what they
follow, and only the rest of a path keeps to the budget:

* `Expr.leading?`, `Expr.nested`: the operand before the sign of a node, and its other parts;
* `Expr.IsPath`: the nodes from the root of a tree down to a leaf, and how many of them are
  leading operands;
* `reach n`: how many nodes such a path has at most, in a tree that is read with `n` levels. It
  grows with the square of the budget, and some trees get that high but for two nodes;
* `Rules.Grows n`: what the rules of a budget of `n` levels read, and what they add to a tree.

What was skipped for want of levels ends before a closing delimiter or at the end. So a chain that
went one operator too far has nothing put on top of it (`ParserState.Stopped`, `Expr.Tops`).
-/

namespace FlowExpr

/-! ## 1. Paths -/

namespace Expr

/-- The operand that stands before the sign of a node: the left one, the target of a postfix, or
    the condition. -/
def leading? : Expr → Option Expr
  | property target .. | index target .. | call target .. => some target
  | binary _ left .. => some left
  | ternary condition .. => some condition
  | _ => none

/-- The other parts of a node, which are read after it took its level. -/
def nested (e : Expr) : List Expr := e.children.drop e.leading?.toList.length

theorem mem_children_iff {e x : Expr} : x ∈ e.children ↔ e.leading? = some x ∨ x ∈ e.nested := by
  have hparts : e.children = e.leading?.toList ++ e.nested := by cases e <;> rfl
  rw [hparts, List.mem_append, Option.mem_toList]

/-- The nodes from the root down to a leaf, and how many of them are the leading operand of the
    one above. -/
inductive IsPath : Expr → List Expr → Nat → Prop where
  | leaf {e : Expr} (h : e.children = []) : IsPath e [e] 0
  | leading {e x : Expr} {path : List Expr} {j : Nat} (hx : e.leading? = some x)
      (h : IsPath x path j) : IsPath e (e :: path) (j + 1)
  | nested {e x : Expr} {path : List Expr} {j : Nat} (hx : x ∈ e.nested) (h : IsPath x path j) :
      IsPath e (e :: path) j

/-- No path down the tree has more than `k` nodes, or more than `d` that are no leading
    operands. -/
def Shallow (k d : Nat) (e : Expr) : Prop :=
  ∀ path j, e.IsPath path j → path.length ≤ k ∧ path.length ≤ d + j

variable {e : Expr} {k k' d d' c : Nat}

theorem Shallow.mono (h : e.Shallow k d) (hk : k ≤ k') (hd : d ≤ d') : e.Shallow k' d' := by
  intro path j hpath
  have hbounds := h path j hpath
  omega

/-- A node is higher by one than its parts. A leading operand is not counted apart. -/
theorem Shallow.node (hleading : ∀ x, e.leading? = some x → x.Shallow k d)
    (hnested : ∀ x ∈ e.nested, x.Shallow k c) (hc : c < d) : e.Shallow (k + 1) d := by
  intro path j hpath
  cases hpath with
  | leaf _ =>
    rw [List.length_singleton]
    omega
  | leading hx hrest =>
    have hbounds := hleading _ hx _ _ hrest
    rw [List.length_cons]
    omega
  | nested hx hrest =>
    have hbounds := hnested _ hx _ _ hrest
    rw [List.length_cons]
    omega

/-- A node without a leading operand. -/
theorem Shallow.nest (hnone : e.leading? = none) (h : ∀ x ∈ e.children, x.Shallow k d) :
    e.Shallow (k + 1) (d + 1) := by
  refine .node (fun x hx => ?_) (fun x hx => h x ?_) (Nat.lt_succ_self d)
  · rw [hnone] at hx
    cases hx
  · exact mem_children_iff.mpr (.inr hx)

/-- A node with a leading operand. -/
theorem Shallow.lead {x : Expr} (hleading : x.Shallow k d) (hx : e.leading? = some x)
    (hnested : ∀ x ∈ e.nested, x.Shallow k c) (hc : c < d) : e.Shallow (k + 1) d := by
  refine .node (fun y hy => ?_) hnested hc
  rw [hx] at hy
  exact Option.some.inj hy ▸ hleading

theorem shallow_leaf (h : e.children = []) (hnone : e.leading? = none) : e.Shallow 1 1 := by
  refine .nest (k := 0) (d := 0) hnone fun x hx => ?_
  rw [h] at hx
  exact absurd hx List.not_mem_nil

end Expr

/-! ## 2. Runs -/

/-- The next token is no sign, unless one that closes something. -/
def ParserState.Stopped (s : ParserState) : Prop :=
  ∀ sign, s.current.kind = .sign sign → sign.isClosing = true

namespace Parser

variable {α β : Type} {s : ParserState}

/-- Run in a sane state, the parser stays sane and ends with a state and a value as described. -/
def Yields (s : ParserState) (p : Parser α) (post : ParserState → α → Prop) : Prop :=
  s.Sane → Ends s p fun s' a => s'.Sane ∧ post s' a

theorem yields_pure {a : α} {post : ParserState → α → Prop} (h : post s a) :
    Yields s (pure a) post :=
  fun hs => ends_pure ⟨hs, h⟩

theorem Yields.imp {p : Parser α} {P Q : ParserState → α → Prop} (h : Yields s p P)
    (hpq : ∀ s' a, P s' a → Q s' a) : Yields s p Q :=
  fun hs => (h hs).imp fun s' a => And.imp_right (hpq s' a)

theorem Yields.bind {p : Parser α} {f : α → Parser β} {P : ParserState → α → Prop}
    {post : ParserState → β → Prop} (h : Yields s p P)
    (hf : ∀ a s', P s' a → Yields s' (f a) post) : Yields s (p >>= f) post :=
  fun hs => (h hs).bind fun a s' ha => hf a s' ha.2 ha.1

section

variable {post : ParserState → α → Prop}

theorem yields_current {f : Token → Parser α} (h : Yields s (f s.current) post) :
    Yields s (current >>= f) post :=
  fun hs => ends_current (h hs)

theorem yields_get {f : ParserState → Parser α} (h : Yields s (f s) post) :
    Yields s (get >>= f) post :=
  fun hs => ends_get (h hs)

theorem yields_advance {f : Unit → Parser α} (h : Yields s.advance (f ()) post) :
    Yields s (advance >>= f) post :=
  fun hs => ends_advance (h hs.advance)

theorem yields_report {span : Span} {problem : Problem} {f : Unit → Parser α}
    (h : Yields (s.report span problem) (f ()) post) : Yields s (report span problem >>= f) post :=
  fun hs => ends_report (h (hs.report span problem).1)

theorem yields_unexpected {expected : Expected} {f : Unit → Parser α}
    (h : Yields (s.unexpected expected) (f ()) post) :
    Yields s (unexpected expected >>= f) post :=
  fun hs => ends_unexpected (h (hs.report _ _).1)

/-- A sign is taken where it is next, or nothing happens. -/
theorem yields_eat {sign : Sign} {f : Bool → Parser α}
    (hyes : s.current.kind = .sign sign → Yields s.advance (f true) post)
    (hno : Yields s (f false) post) : Yields s (eat sign >>= f) post :=
  fun hs => ends_eat (fun hk => hyes hk hs.advance) fun _ => hno hs

end

theorem yields_closing (sign : Sign) (delimiter : Char) :
    Yields s (closing sign delimiter) fun _ _ => True := by
  refine fun hs => (ends_closing sign delimiter).imp fun s' stop hc => ⟨?_, trivial⟩
  cases hc with
  | closed => exact hs.advance
  | unclosed => exact (hs.report _ _).1

/-- What is sound stays sane. -/
theorem yields_of_sound {p : Parser α} {good : List Token → α → Prop} (h : Sound s p good) :
    Yields s p fun _ _ => True :=
  fun hs => ⟨(h hs).1, trivial⟩

/-- What is skipped ends before a delimiter that nothing skipped has opened. -/
theorem closing_of_drop_skipped (depth : Nat) (ts : List Token) {t : Token} {rest : List Token}
    (h : ts.drop (ParserState.skipped depth ts).length = t :: rest) {sign : Sign}
    (hk : t.kind = .sign sign) : sign.isClosing = true := by
  fun_induction ParserState.skipped depth ts with
  | case1 => cases h
  | case3 ts' rest' sign' hkind hopen hclose =>
    obtain ⟨rfl, -⟩ := List.cons.inj h
    obtain rfl : sign' = sign := by simpa [hkind] using hk
    exact hclose
  | case2 _ _ _ _ _ _ ih | case4 _ _ _ _ _ _ _ ih | case5 _ _ _ _ _ _ _ ih | case6 _ _ _ _ ih =>
    exact ih h

theorem stopped_skip (hs : s.Sane) : s.skip.Stopped := by
  intro sign hk
  unfold ParserState.current at hk
  cases hahead : s.skip.ahead with
  | nil =>
    rw [hahead] at hk
    have heof : s.skip.eof.kind = .eof := hs.eof
    exact absurd (heof.symm.trans hk) TokenKind.noConfusion
  | cons t rest =>
    rw [hahead] at hk
    exact closing_of_drop_skipped 0 s.ahead hahead hk

/-- Without a level left there is an error node, and nothing can be put on top of it. -/
theorem yields_tooDeep : Yields s tooDeep fun s' e => s'.Stopped ∧ e.Shallow 1 1 := by
  intro hs
  obtain ⟨hsane, hreported⟩ := hs.report s.current.span .tooDeeplyNested
  refine ends_tooDeep.imp fun s' e ⟨hs', he⟩ => ?_
  rw [hs', he]
  exact ⟨⟨hsane.eof, fun _ => hreported⟩, stopped_skip hsane, Expr.shallow_leaf rfl rfl⟩

theorem yields_lambdaHead (h : lambdaAhead s.ahead = true) : Yields s lambdaHead fun _ _ => True :=
  yields_of_sound (sound_lambdaHead h)

/-! ## 3. Rows -/

section

variable {item : Parser α} {P : α → Prop} (hitem : ∀ s, Yields s item fun _ a => P a)

include hitem

/-- An item after a comma continues a row, and the parser stays sane. -/
theorem ends_sane_row (as : List α) (s : ParserState) (h : s.Sane ∧ ∀ a ∈ as, P a) :
    Ends s.advance item fun s' a => s'.Sane ∧ ∀ b ∈ as ++ [a], P b := by
  refine (hitem s.advance h.1.advance).imp fun s' a ha => ⟨ha.1, ?_⟩
  exact List.forall_mem_append.mpr ⟨h.2, List.forall_mem_singleton.mpr ha.2⟩

theorem yields_afterCommas : Yields s (afterCommas item) fun _ as => ∀ a ∈ as, P a :=
  fun hs => ends_afterCommas (P := fun as s' => s'.Sane ∧ ∀ a ∈ as, P a)
    (fun as s' _ => ends_sane_row hitem as s') ⟨hs, List.forall_mem_nil P⟩

theorem yields_commaSeparated {close : Sign} :
    Yields s (commaSeparated item close) fun _ as => ∀ a ∈ as, P a :=
  fun hs => ends_commaSeparated (P := fun as s' => s'.Sane ∧ ∀ a ∈ as, P a)
    (fun as s' _ => ends_sane_row hitem as s') ⟨hs, List.forall_mem_nil P⟩
    ((hitem s hs).imp fun _ _ => And.imp_right List.forall_mem_singleton.mpr)

end

end Parser

/-! ## 4. Rules -/

/-- The number of nodes on a path, at most, in an expression that is read with a number of
    levels. -/
def reach : Nat → Nat
  | 0 => 1
  | n + 1 => reach n + 8 * n + 2

/-- The same for an expression of operators up to a looseness, given the levels that are left for
    what is nested in it. Each looseness has its own chain, and each chain the whole budget. -/
def operandReach (n : Nat) : Nat → Nat
  | 0 => reach n + 1 + n
  | l + 1 => operandReach n l + n

theorem reach_pos (n : Nat) : 0 < reach n := by
  cases n with
  | zero => exact Nat.one_pos
  | succ n => exact Nat.succ_pos _

/-- What a budget reaches grows with its square. -/
theorem reach_eq (n : Nat) : reach n + 2 * n = 4 * (n * n) + 1 := by
  induction n with
  | zero => rfl
  | succ n ih =>
    have hsquare : (n + 1) * (n + 1) = n * n + 2 * n + 1 := by
      rw [Nat.succ_mul, Nat.mul_succ]
      omega
    rw [reach, hsquare]
    omega

theorem reach_lt_operandReach (n l : Nat) : reach n < operandReach n l := by
  induction l with
  | zero =>
    rw [operandReach]
    omega
  | succ l ih =>
    rw [operandReach]
    omega

/-- An operand that is read with a level less is lower. -/
theorem operandReach_lt_succ (n l : Nat) : operandReach n l < operandReach (n + 1) l := by
  induction l with
  | zero =>
    rw [operandReach, operandReach, reach]
    omega
  | succ l ih =>
    rw [operandReach, operandReach]
    omega

/-- The tree keeps to its bounds, or goes one node beyond where nothing can be put on top. -/
def Expr.Tops (k d : Nat) (s : ParserState) (e : Expr) : Prop :=
  e.Shallow k d ∨ e.Shallow (k + 1) d ∧ s.Stopped

section Tops

variable {k k' d : Nat} {s : ParserState} {e : Expr}

theorem Expr.Tops.mono (h : e.Tops k d s) (hk : k ≤ k') : e.Tops k' d s :=
  h.imp (fun h => h.mono hk (Nat.le_refl d))
    fun h => ⟨h.1.mono (Nat.succ_le_succ hk) (Nat.le_refl d), h.2⟩

theorem Expr.Tops.shallow (h : e.Tops k d s) : e.Shallow (k + 1) d :=
  h.elim (fun h => h.mono (Nat.le_succ k) (Nat.le_refl d)) And.left

/-- Where a sign is next that closes nothing, the tree keeps to its bounds. -/
theorem Expr.Tops.shallow_of_sign (h : e.Tops k d s) {sign : Sign}
    (hk : s.current.kind = .sign sign) (hsign : sign.isClosing = false) : e.Shallow k d := by
  refine h.resolve_right fun hover => ?_
  rw [hover.2 sign hk] at hsign
  cases hsign

end Tops

open FlowExpr.Parser FlowExpr.Rules

/-- What the rules of a budget of `n` levels read, and what they put on top of a tree that is
    there. -/
structure Rules.Grows (n : Nat) (r : Rules) : Prop where
  body : ∀ s, Yields s r.body fun _ e => e.Shallow (reach n) (n + 1)
  unary : ∀ s, Yields s r.unary fun _ e => e.Shallow (reach n) (n + 1)
  access : ∀ s target k d, reach n ≤ k → n < d → target.Shallow k d →
    Yields s (r.access target) fun _ e => e.Shallow (k + n) d
  chain : ∀ s l op left k d, operandReach n l ≤ k → n + 1 < d → left.Shallow k d →
    Yields s (r.chain l op left) fun s' e => e.Tops (k + n) d s'

/-- A binary node: the right operand is nested, the left one is not. -/
theorem Expr.Shallow.joined {left right : Expr} {k d c : Nat} (hleft : left.Shallow k d)
    (hright : right.Shallow k c) (hc : c < d) (op : BinaryOp) :
    (Expr.joined op left right).Shallow (k + 1) d := by
  refine hleft.lead rfl (fun x hx => ?_) hc
  rw [List.mem_singleton.mp hx]
  exact hright

theorem Rules.grows_exhausted : Rules.Grows 0 exhausted where
  body _ := yields_tooDeep.imp fun _ _ h => h.2
  unary _ := yields_tooDeep.imp fun _ _ h => h.2
  access _ _ _ _ _ _ htarget := Yields.bind yields_tooDeep fun _ _ _ => yields_pure htarget
  chain _ l op left k d hk hd hleft := by
    refine Yields.bind yields_tooDeep fun right s₁ hright => yields_pure (.inr ⟨?_, hright.1⟩)
    have hlow : 1 ≤ k := by
      have hoperand := reach_lt_operandReach 0 l
      omega
    exact hleft.joined (hright.2.mono hlow (Nat.le_refl 1)) hd op

section Level

variable {n : Nat} {r : Rules} {s : ParserState}

/-! ### Postfixes -/

theorem yields_postfixes (hr : Rules.Grows n r) {target : Expr} {k d : Nat} (hk : reach n ≤ k)
    (hd : n < d) (htarget : target.Shallow k d) :
    Yields s (r.postfixes target) fun _ e => e.Shallow (k + n) d := by
  refine yields_current ?_
  split
  · exact hr.access s target k d hk hd htarget
  · exact hr.access s target k d hk hd htarget
  · exact hr.access s target k d hk hd htarget
  · exact yields_pure (htarget.mono (Nat.le_add_right k n) (Nat.le_refl d))

theorem yields_member {target : Expr} {k d : Nat} (hd : 0 < d) (htarget : target.Shallow k d) :
    Yields s (member target) fun _ e => e.Shallow (k + 1) d := by
  have hnode : ∀ name nameSpan span,
      (Expr.property target name nameSpan span).Shallow (k + 1) d := fun _ _ _ =>
    htarget.lead rfl (fun x hx => absurd hx List.not_mem_nil) hd
  refine yields_current (yields_advance (yields_current ?_))
  split
  · exact yields_advance (yields_pure (hnode _ _ _))
  · exact yields_report (yields_pure (hnode _ _ _))

theorem yields_onePostfix (hr : Rules.Grows n r) {target : Expr} {k d : Nat} (hk : reach n ≤ k)
    (hd : n + 1 < d) (htarget : target.Shallow k d) :
    Yields s (r.onePostfix target) fun _ e => e.Shallow (k + (n + 1)) d := by
  have hrest : ∀ {e : Expr} {s : ParserState}, e.Shallow (k + 1) d →
      Yields s (r.postfixes e) fun _ e => e.Shallow (k + (n + 1)) d := by
    intro e s he
    refine (yields_postfixes hr (Nat.le_succ_of_le hk) (Nat.lt_of_succ_lt hd) he).imp ?_
    exact fun _ _ h => h.mono (by omega) (Nat.le_refl d)
  refine yields_current ?_
  split
  · exact Yields.bind (yields_member (Nat.zero_lt_of_lt hd) htarget) fun e s₁ he => hrest he
  · refine yields_advance (Yields.bind (hr.body s.advance) fun i s₁ hi => ?_)
    refine Yields.bind (yields_closing _ _) fun stop s₂ _ => hrest ?_
    refine htarget.lead rfl (fun x hx => ?_) hd
    rw [List.mem_singleton.mp hx]
    exact hi.mono hk (Nat.le_refl _)
  · refine yields_advance (Yields.bind (yields_commaSeparated hr.body) fun args s₁ hargs => ?_)
    refine Yields.bind (yields_closing _ _) fun stop s₂ _ => hrest ?_
    exact htarget.lead rfl (fun x hx => (hargs x hx).mono hk (Nat.le_refl _)) hd
  · exact yields_pure (htarget.mono (Nat.le_add_right k (n + 1)) (Nat.le_refl d))

/-! ### What stands alone -/

theorem shallow_error (n : Nat) (span : Span) : (Expr.error span).Shallow (reach n) (n + 1) :=
  (Expr.shallow_leaf rfl rfl).mono (reach_pos n) (Nat.le_add_left 1 n)

theorem yields_entry (hr : Rules.Grows n r) (s : ParserState) :
    Yields s r.entry fun _ entry =>
      ∀ x ∈ [entry.1, entry.2], x.Shallow (reach n) (n + 1) := by
  refine Yields.bind (hr.body s) fun key s₁ hkey => yields_eat (fun _ => ?_) ?_
  · refine Yields.bind (hr.body s₁.advance) fun value s₂ hvalue => yields_pure ?_
    simpa using ⟨hkey, hvalue⟩
  · refine yields_unexpected (yields_current (yields_pure ?_))
    simpa using ⟨hkey, shallow_error n _⟩

theorem yields_braces (hr : Rules.Grows n r) (start : Nat) :
    Yields s (r.braces start) fun _ e => e.Shallow (reach n + 1) (n + 2) := by
  refine yields_current (yields_eat (fun _ => yields_pure ?_) ?_)
  · exact .nest rfl fun x hx => absurd hx List.not_mem_nil
  · refine Yields.bind (hr.body s) fun first s₁ hfirst => yields_eat (fun _ => ?_) ?_
    · refine Yields.bind (hr.body s₁.advance) fun value s₂ hvalue => ?_
      refine Yields.bind (yields_afterCommas (yields_entry hr)) fun others s₃ hothers => ?_
      refine Yields.bind (yields_closing _ _) fun stop s₄ _ => yields_pure ?_
      refine .nest rfl fun x hx => ?_
      obtain ⟨entry, hentry, hx⟩ := List.mem_flatMap.mp hx
      rcases List.mem_cons.mp hentry with rfl | hentry
      · have hpair : ∀ x ∈ [first, value], x.Shallow (reach n) (n + 1) := by
          simpa using ⟨hfirst, hvalue⟩
        exact hpair x hx
      · exact hothers entry hentry x hx
    · refine Yields.bind (yields_afterCommas hr.body) fun others s₂ hothers => ?_
      refine Yields.bind (yields_closing _ _) fun stop s₃ _ => yields_pure (.nest rfl ?_)
      exact List.forall_mem_cons.mpr ⟨hfirst, hothers⟩

theorem yields_primary (hr : Rules.Grows n r) :
    Yields s r.primary fun _ e => e.Shallow (reach n + 1) (n + 2) := by
  have hleaf : ∀ {e : Expr} {s : ParserState}, e.children = [] → e.leading? = none →
      Yields s (advance >>= fun _ => pure e) fun _ e => e.Shallow (reach n + 1) (n + 2) := by
    intro e s hc hl
    refine yields_advance (yields_pure ?_)
    exact (Expr.shallow_leaf hc hl).mono (Nat.le_add_left 1 _) (Nat.le_add_left 1 _)
  refine yields_current ?_
  split
  next => exact hleaf rfl rfl
  next => exact hleaf rfl rfl
  next => exact hleaf rfl rfl
  next => exact hleaf rfl rfl
  next => exact hleaf rfl rfl
  next => exact hleaf rfl rfl
  next => exact hleaf rfl rfl
  next =>
    refine yields_advance (Yields.bind (hr.body s.advance) fun e s₁ he => ?_)
    refine Yields.bind (yields_closing _ _) fun _ _ _ => yields_pure ?_
    exact he.mono (Nat.le_succ _) (Nat.le_succ _)
  next =>
    refine yields_advance (Yields.bind (yields_commaSeparated hr.body) fun items s₁ hitems => ?_)
    exact Yields.bind (yields_closing _ _) fun _ _ _ => yields_pure (.nest rfl hitems)
  next => exact yields_advance (yields_braces hr _)
  -- nothing begins here: an error, and the token is left to its owner or taken
  all_goals refine yields_unexpected ?_
  all_goals first
    | exact hleaf rfl rfl
    | exact yields_pure ((shallow_error n _).mono (Nat.le_succ _) (Nat.le_succ _))

/-! ### Operators -/

theorem yields_prefixed (hr : Rules.Grows n r) (s : ParserState) :
    Yields s r.prefixed fun _ e => e.Shallow (operandReach n 0) (n + 2) := by
  have haccess : Yields s (r.primary >>= r.postfixes) fun _ e =>
      e.Shallow (operandReach n 0) (n + 2) :=
    Yields.bind (yields_primary hr) fun _ _ he =>
      yields_postfixes hr (Nat.le_succ _) (Nat.lt_add_of_pos_right Nat.two_pos) he
  refine yields_current ?_
  split
  · split
    · refine yields_advance (Yields.bind (hr.unary s.advance) fun operand s₁ hoperand => ?_)
      refine yields_pure ?_
      have hnode : ∀ op span, (Expr.unary op operand span).Shallow (reach n + 1) (n + 2) := by
        refine fun op span => .nest rfl fun x hx => ?_
        rw [List.mem_singleton.mp hx]
        exact hoperand
      exact (hnode _ _).mono (Nat.le_add_right _ n) (Nat.le_refl _)
    · exact haccess
  · exact haccess

/-- A chain goes on only where an operator is next, so what it goes on from keeps to its
    bounds. -/
theorem yields_chainRest (hr : Rules.Grows n r) {l k d : Nat} {left : Expr}
    (hk : operandReach n l ≤ k) (hd : n + 1 < d) (hleft : left.Tops k d s) :
    Yields s (r.chainRest l left) fun s' e => e.Tops (k + n) d s' := by
  refine yields_current ?_
  split
  · rename_i op ho
    obtain ⟨sign, hsign, hmem⟩ := Grammar.exists_sign_of_operator? ho
    have hoperator := (Grammar.mem_binaryAt.mp hmem).1
    have hopen : sign.isClosing = false := by
      cases sign <;> first | rfl | cases hoperator
    have hlow := hleft.shallow_of_sign hsign hopen
    exact yields_advance (hr.chain s.advance l op left k d hk hd hlow)
  · exact yields_pure (hleft.mono (Nat.le_add_right k n))

theorem yields_climb (hr : Rules.Grows n r) : ∀ (l : Nat) (s : ParserState),
    Yields s (r.climb l) fun s' e => e.Tops (operandReach n l) (n + 2) s'
  | 0, s => (yields_prefixed hr s).imp fun _ _ h => .inl h
  | l + 1, s =>
      Yields.bind (yields_climb hr l s) fun _ _ he =>
        yields_chainRest hr (Nat.le_refl _) (Nat.lt_succ_self _) he

/-- The right operand was read with a level less than the left one, so it is the lower one. -/
theorem yields_rightOperand (hr : Rules.Grows n r) {l k d : Nat} (op : BinaryOp) {left : Expr}
    (hk : operandReach (n + 1) l ≤ k) (hd : n + 2 < d) (hleft : left.Shallow k d) :
    Yields s (r.rightOperand l op left) fun s' e => e.Tops (k + (n + 1)) d s' := by
  refine Yields.bind (yields_climb hr l s) fun right s₁ hright => ?_
  have hlower := operandReach_lt_succ n l
  have hlow : right.Shallow k (n + 2) := hright.shallow.mono (by omega) (Nat.le_refl _)
  have hnode := hleft.joined hlow hd op
  refine (yields_chainRest hr (by omega) (by omega) (.inl hnode)).imp fun _ _ h => h.mono ?_
  omega

/-! ### Whole expressions -/

theorem yields_conditional (hr : Rules.Grows n r) :
    Yields s r.conditional fun _ e => e.Shallow (reach (n + 1)) (n + 2) := by
  have hreach : reach (n + 1) = operandReach n BinaryOp.loosest + 1 := by
    show reach n + 8 * n + 2 = reach n + 1 + n + n + n + n + n + n + n + n + 1
    omega
  rw [hreach]
  refine Yields.bind (yields_climb hr BinaryOp.loosest s) fun condition s₁ hcondition => ?_
  refine yields_eat (fun hk => ?_) (yields_pure hcondition.shallow)
  -- a question mark closes nothing, so no chain of the condition went too far
  have hlow := hcondition.shallow_of_sign hk rfl
  have hbranch := Nat.le_of_lt (reach_lt_operandReach n BinaryOp.loosest)
  refine Yields.bind (hr.body s₁.advance) fun yes s₂ hyes => ?_
  have hnode : ∀ no span, no.Shallow (reach n) (n + 1) →
      (Expr.ternary condition yes no span).Shallow (operandReach n BinaryOp.loosest + 1)
        (n + 2) := by
    intro no span hno
    refine hlow.lead rfl (fun x hx => ?_) (Nat.lt_succ_self (n + 1))
    rcases List.mem_cons.mp hx with rfl | hx
    · exact hyes.mono hbranch (Nat.le_refl _)
    · rw [List.mem_singleton.mp hx]
      exact hno.mono hbranch (Nat.le_refl _)
  refine yields_eat (fun _ => ?_) ?_
  · exact Yields.bind (hr.body s₂.advance) fun no s₃ hno => yields_pure (hnode no _ hno)
  · refine yields_unexpected (yields_current (yields_pure ?_))
    exact hnode _ _ (shallow_error n _)

theorem yields_lambda (hr : Rules.Grows n r) (h : lambdaAhead s.ahead = true) :
    Yields s r.lambda fun _ e => e.Shallow (reach (n + 1)) (n + 2) := by
  refine yields_current (Yields.bind (yields_lambdaHead h) fun params s₁ _ => ?_)
  refine Yields.bind (hr.body s₁) fun body s₂ hbody => yields_pure ?_
  have hnode : ∀ span, (Expr.lambda params body span).Shallow (reach n + 1) (n + 2) := by
    refine fun span => .nest rfl fun x hx => ?_
    rw [List.mem_singleton.mp hx]
    exact hbody
  refine (hnode _).mono ?_ (Nat.le_refl _)
  rw [reach]
  omega

theorem yields_expression (hr : Rules.Grows n r) (s : ParserState) :
    Yields s r.expression fun _ e => e.Shallow (reach (n + 1)) (n + 2) := by
  refine yields_get ?_
  split
  · rename_i h
    exact yields_lambda hr h
  · exact yields_conditional hr

/-- One more level: what the rules put on top grows by one, what they read by eight chains. -/
theorem Rules.Grows.within (hr : Rules.Grows n r) : Rules.Grows (n + 1) r.within where
  body := yields_expression hr
  unary s := by
    refine (yields_prefixed hr s).imp fun _ _ h => h.mono ?_ (Nat.le_refl _)
    rw [operandReach, reach]
    omega
  access s target k d hk hd htarget := by
    refine yields_onePostfix hr (Nat.le_trans ?_ hk) hd htarget
    rw [reach]
    omega
  chain s l op left k d hk hd hleft := yields_rightOperand hr op hk hd hleft

end Level

/-- **The rules of every budget keep to what it reaches.** -/
theorem Rules.grows_withBudget : ∀ n, Rules.Grows n (withBudget n)
  | 0 => grows_exhausted
  | n + 1 => (grows_withBudget n).within

/-! ## 5. Whole inputs -/

theorem yields_whole {s : ParserState} :
    Yields s whole fun _ e => e.Shallow (reach maxDepth) (maxDepth + 1) := by
  refine yields_current ?_
  split
  · exact yields_report (yields_pure (shallow_error _ _))
  · refine Yields.bind ((Rules.grows_withBudget maxDepth).body s) fun e s₁ he => ?_
    exact Yields.bind (yields_of_sound sound_trailing) fun _ _ _ => yields_pure he

/-- The state before anything was read is sane. -/
theorem ParserState.sane_ofTokens (tokens : List Token) : (ofTokens tokens).Sane := by
  refine ⟨?_, fun h => absurd h (by simp [ofTokens])⟩
  show ((tokens.find? Token.isEof).getD _).kind = .eof
  cases hfind : tokens.find? Token.isEof with
  | none => rfl
  | some t =>
    have ht := List.find?_some hfind
    simpa [Token.isEof] using ht

theorem shallow_parseTokens (tokens : List Token) :
    (parseTokens tokens).root.Shallow (reach maxDepth) (maxDepth + 1) :=
  (yields_whole (ParserState.sane_ofTokens tokens)).2

/-! ## 6. Trees that get high -/

namespace Expr

/-- Some path down the tree has a number of nodes. -/
def Deep (k : Nat) (e : Expr) : Prop := ∃ path j, e.IsPath path j ∧ path.length = k

variable {e x : Expr} {k : Nat}

theorem deep_leaf (h : e.children = []) : e.Deep 1 := ⟨[e], 0, .leaf h, rfl⟩

theorem Deep.node (h : x.Deep k) (hx : x ∈ e.children) : e.Deep (k + 1) := by
  obtain ⟨path, j, hpath, rfl⟩ := h
  rcases mem_children_iff.mp hx with hx | hx
  · exact ⟨e :: path, j + 1, .leading hx hpath, rfl⟩
  · exact ⟨e :: path, j, .nested hx hpath, rfl⟩

theorem children_unplaced (e : Expr) : e.unplaced.children = e.children.map unplaced := by
  cases e with
  | literal | identifier | error => rfl
  | _ => simp [children, unplaced_property, unplaced_index, unplaced_call, unplaced_binary,
      unplaced_unary, unplaced_ternary, unplaced_list, unplaced_set, unplaced_map,
      unplaced_lambda, List.map_flatMap, List.flatMap_map]

theorem Like.children {e' : Expr} (h : e.Like e') :
    e'.children.map unplaced = e.children.map unplaced := by
  rw [← children_unplaced, ← children_unplaced, h]

/-- A part of one tree is like the part at its place in the other. -/
theorem Like.exists_mem_children {e' : Expr} (h : e.Like e') (hx : x ∈ e.children) :
    ∃ y ∈ e'.children, x.Like y := by
  have hmem : x.unplaced ∈ e'.children.map unplaced := h.children ▸ List.mem_map_of_mem hx
  exact List.mem_map.mp hmem

/-- Trees that are the same up to places are of the same height. -/
theorem Deep.like {e' : Expr} (h : e.Deep k) (hlike : e.Like e') : e'.Deep k := by
  obtain ⟨path, j, hpath, rfl⟩ := h
  induction hpath generalizing e' with
  | leaf hleaf =>
    have hchildren := hlike.children
    rw [hleaf] at hchildren
    exact deep_leaf (List.map_eq_nil_iff.mp hchildren)
  | leading hx _ ih =>
    obtain ⟨y, hy, hyx⟩ := hlike.exists_mem_children (mem_children_iff.mpr (.inl hx))
    exact (ih hyx).node hy
  | nested hx _ ih =>
    obtain ⟨y, hy, hyx⟩ := hlike.exists_mem_children (mem_children_iff.mpr (.inr hx))
    exact (ih hyx).node hy

end Expr

/-- A derivation within the bound is read as a tree of the same height, without a diagnostic. -/
theorem deep_parseTokens {ts : List Token} {e : Expr} {c k : Nat}
    (h : Derives (.expression e) ts c) (hc : c ≤ maxDepth) (he : e.Deep k) :
    (parseTokens ts).diagnostics = [] ∧ (parseTokens ts).root.Deep k := by
  have hs := ParserState.at_ofTokens h.readable
  rw [← List.append_nil ts] at hs
  obtain ⟨e', s', hlike, _, hd, hrun⟩ := reads_whole h hc _ hs
  rw [List.append_nil] at hrun hd
  unfold parseTokens
  rw [hrun]
  exact ⟨hd, he.like hlike⟩

namespace Grammar

/-- A token that is a sign, at no place in particular. -/
def signToken (sign : Sign) : Token := ⟨.sign sign, "", ⟨0, 0⟩⟩

/-- A token that is a name. -/
def nameToken : Token := ⟨.identifier "a", "", ⟨0, 0⟩⟩

/-- A sign and a name, a number of times. -/
def repeated (sign : Sign) (n : Nat) : List Token :=
  (List.replicate n [signToken sign, nameToken]).flatten

theorem append_repeated_zero (ts : List Token) (sign : Sign) : ts ++ repeated sign 0 = ts := by
  rw [repeated, List.replicate_zero, List.flatten_nil, List.append_nil]

theorem repeated_succ (sign : Sign) (n : Nat) :
    repeated sign (n + 1) = repeated sign n ++ [signToken sign, nameToken] := by
  rw [repeated, List.replicate_succ', List.flatten_append, List.flatten_singleton]
  rfl

/-- A name at every looseness. -/
theorem derives_name (l : Nat) :
    Derives (.chain l 0 (.identifier "a" ⟨0, 0⟩)) [nameToken] 0 := by
  induction l with
  | zero => exact .operand (.unchained (.identifier rfl))
  | succ l ih => exact .single ih

variable {ts : List Token} {e : Expr} {c k j l : Nat}

/-- **Operators of one looseness pile up on their first operand**, and each takes a level only for
    what stands after it. -/
theorem derives_operators {sign : Sign} {op : BinaryOp} (ho : (sign, op) ∈ binaryAt l)
    (h : Derives (.chain l j e) ts c) (he : e.Deep k) (n : Nat) :
    ∃ e', Derives (.chain (l + 1) n e') (ts ++ repeated sign n) (max c n) ∧ e'.Deep (k + n) := by
  induction n with
  | zero =>
    rw [append_repeated_zero, Nat.max_zero]
    exact ⟨e, .single h, he⟩
  | succ n ih =>
    obtain ⟨left, hleft, hdeep⟩ := ih
    have hnode : Derives (.chain (l + 1) (n + 1) (.binary op left (.identifier "a" ⟨0, 0⟩) ⟨0, 0⟩))
        ((ts ++ repeated sign n) ++ [signToken sign, nameToken]) _ :=
      .operator hleft rfl ho (derives_name l)
    have hcost : max (max c n) (n + 1 + 0) = max c (n + 1) := by omega
    rw [hcost, List.append_assoc, ← repeated_succ] at hnode
    exact ⟨_, hnode, hdeep.node List.mem_cons_self⟩

/-- Postfixes pile up on what they begin with. -/
theorem derives_properties (h : Derives (.primary e) ts c) (he : e.Deep k) (n : Nat) :
    ∃ e', Derives (.postfixed n e') (ts ++ repeated .dot n) (max c n) ∧ e'.Deep (k + n) := by
  induction n with
  | zero =>
    rw [append_repeated_zero, Nat.max_zero]
    exact ⟨e, .unchained h, he⟩
  | succ n ih =>
    obtain ⟨target, htarget, hdeep⟩ := ih
    have hnode : Derives (.postfixed (n + 1) (.property target (some "a") ⟨0, 0⟩ ⟨0, 0⟩))
        ((ts ++ repeated .dot n) ++ [signToken .dot, nameToken]) _ :=
      .property htarget rfl rfl
    have hcost : max (max c n) (n + 1) = max c (n + 1) := by omega
    rw [hcost, List.append_assoc, ← repeated_succ] at hnode
    exact ⟨_, hnode, hdeep.node List.mem_cons_self⟩

theorem exists_mem_binaryAt : ∀ l < binary.length, ∃ entry, entry ∈ binaryAt l := by
  have hne : ∀ l < binary.length, binaryAt l ≠ [] := by decide
  exact fun l hl => List.exists_mem_of_ne_nil _ (hne l hl)

/-- Chains of every looseness pile up on one another, at no further cost. -/
theorem exists_chains {n : Nat} (h : Derives (.chain 0 0 e) ts n) (he : e.Deep k) :
    ∀ l ≤ binary.length, ∃ ts' j e', Derives (.chain l j e') ts' n ∧ e'.Deep (k + l * n)
  | 0, _ => ⟨ts, 0, e, h, by rwa [Nat.zero_mul]⟩
  | l + 1, hl => by
      obtain ⟨ts', j, e', h', he'⟩ := exists_chains h he l (Nat.le_of_succ_le hl)
      obtain ⟨⟨sign, op⟩, ho⟩ := exists_mem_binaryAt l hl
      obtain ⟨e'', h'', he''⟩ := derives_operators ho h' he' n
      rw [Nat.max_self] at h''
      rw [Nat.add_assoc, ← Nat.succ_mul] at he''
      exact ⟨_, n, e'', h'', he''⟩

/-- One more level: a tree in brackets, postfixes after it, a chain of each looseness, and a
    conditional around them. -/
theorem exists_higher {n : Nat} (hn : 1 ≤ n) (h : Derives (.expression e) ts n) (he : e.Deep k) :
    ∃ ts' e', Derives (.expression e') ts' (n + 1) ∧ e'.Deep (k + 8 * n + 2) := by
  have hname : Derives (.expression (.identifier "a" ⟨0, 0⟩)) [nameToken] 1 :=
    .operation (derives_name binary.length)
  have hlist : Derives (.primary (.list [e] ⟨0, 0⟩))
      (signToken .lBracket :: (ts ++ [] ++ [signToken .rBracket])) (max n 0) :=
    .list rfl (.someArguments h .noItems) rfl
  rw [Nat.max_zero] at hlist
  have hdeep : (Expr.list [e] ⟨0, 0⟩).Deep (k + 1) := he.node List.mem_cons_self
  obtain ⟨target, htarget, hdeep⟩ := derives_properties hlist hdeep n
  rw [Nat.max_self] at htarget
  obtain ⟨ts', j, condition, hcondition, hdeep⟩ :=
    exists_chains (.operand htarget) hdeep binary.length (Nat.le_refl _)
  have hnode : Derives (.expression (.ternary condition _ _ ⟨0, 0⟩))
      (ts' ++ signToken .question :: ([nameToken] ++ signToken .colon :: [nameToken])) _ :=
    .conditional hcondition rfl hname rfl hname
  have hcost : max n (max 1 1) + 1 = n + 1 := by omega
  have hheight : k + 1 + n + binary.length * n + 1 = k + 8 * n + 2 := by
    show k + 1 + n + 7 * n + 1 = k + 8 * n + 2
    omega
  rw [hcost] at hnode
  exact ⟨_, _, hnode, hheight ▸ hdeep.node List.mem_cons_self⟩

/-- **Some trees get as high as the budget reaches**, up to two nodes: without an error, nothing is
    left to nest when the last level is taken, and no chain goes too far. -/
theorem exists_tower : ∀ n, ∃ ts e k, Derives (.expression e) ts (n + 1) ∧ e.Deep k ∧
    k + 2 = reach (n + 1)
  | 0 => ⟨_, _, 1, .operation (derives_name binary.length), Expr.deep_leaf rfl, rfl⟩
  | n + 1 => by
      obtain ⟨ts, e, k, h, he, hk⟩ := exists_tower n
      obtain ⟨ts', e', h', he'⟩ := exists_higher (Nat.le_add_left 1 n) h he
      refine ⟨ts', e', _, h', he', ?_⟩
      rw [reach, ← hk]
      omega

end Grammar

theorem reach_maxDepth : reach maxDepth = 65281 := by
  have hsquare := reach_eq maxDepth
  generalize reach maxDepth = r at hsquare ⊢
  rw [maxDepth] at hsquare
  omega

/-- **How high trees get.** A path down the tree of any tokens has at most `maxDepth + 1` nodes
    besides leading operands, so only where it goes into two of them or more can it have more than
    `maxDepth + 2` nodes; and it never has more than 65281, which is `4n² - 2n + 1` for
    `n = maxDepth`. -/
theorem parseTokens_height (tokens : List Token) {path : List Expr} {j : Nat}
    (h : (parseTokens tokens).root.IsPath path j) :
    path.length ≤ maxDepth + 1 + j ∧ path.length ≤ 65281 := by
  obtain ⟨hnodes, hheld⟩ := shallow_parseTokens tokens path j h
  rw [reach_maxDepth] at hnodes
  exact ⟨hheld, hnodes⟩

/-- In `a.a[a]` the leading operands are the property and its target. -/
theorem parseTokens_height_index :
    let tokens := [Grammar.nameToken, Grammar.signToken .dot, Grammar.nameToken,
      Grammar.signToken .lBracket, Grammar.nameToken, Grammar.signToken .rBracket]
    let name := Expr.identifier "a" ⟨0, 0⟩
    let property := Expr.property name (some "a") ⟨0, 0⟩ ⟨0, 0⟩
    let index := Expr.index property name ⟨0, 0⟩
    (parseTokens tokens).root.IsPath [index, property, name] 2 ∧
      [index, property, name].length ≤ maxDepth + 1 + 2 := by
  intro tokens name property index
  have hroot : (parseTokens tokens).root = index := rfl
  have hpath : (parseTokens tokens).root.IsPath [index, property, name] 2 := by
    rw [hroot]
    exact .leading rfl (.leading rfl (.leaf rfl))
  exact ⟨hpath, (parseTokens_height tokens hpath).1⟩

/-- Two chains in a row are enough to get higher than the budget: 127 times a factor, and then
    three times a summand, `a * … * a + a + a + a`. -/
theorem parseTokens_height_two_chains :
    let tokens := [Grammar.nameToken] ++ Grammar.repeated .star 127 ++ Grammar.repeated .plus 3
    (parseTokens tokens).diagnostics = [] ∧
      ∃ path j, (parseTokens tokens).root.IsPath path j ∧ path.length = maxDepth + 3 := by
  intro tokens
  have hstar : (Sign.star, BinaryOp.multiply) ∈ Grammar.binaryAt 0 := by decide
  have hplus : (Sign.plus, BinaryOp.add) ∈ Grammar.binaryAt 1 := by decide
  obtain ⟨product, hproduct, hdeep⟩ :=
    Grammar.derives_operators hstar (Grammar.derives_name 0) (Expr.deep_leaf rfl) 127
  obtain ⟨sum, hsum, hdeep⟩ := Grammar.derives_operators hplus hproduct hdeep 3
  have hwhole : Derives (.expression sum) tokens 128 :=
    .operation (.single (.single (.single (.single (.single hsum)))))
  exact deep_parseTokens hwhole (Nat.le_refl _) hdeep

/-- The bound on the height is met but for two nodes, without a diagnostic. -/
theorem exists_high_tree : ∃ tokens, (parseTokens tokens).diagnostics = [] ∧
    (parseTokens tokens).root.Deep 65279 := by
  obtain ⟨ts, e, k, h, he, hk⟩ := Grammar.exists_tower (maxDepth - 1)
  have hlast : maxDepth - 1 + 1 = maxDepth := rfl
  rw [hlast] at h hk
  rw [reach_maxDepth] at hk
  obtain rfl : k = 65279 := by omega
  exact ⟨ts, deep_parseTokens h (Nat.le_refl _) he⟩

end FlowExpr
