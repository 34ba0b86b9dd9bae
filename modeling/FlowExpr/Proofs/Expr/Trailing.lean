import FlowExpr.Proofs.Expr.Members
import FlowExpr.Proofs.Expr.Soundness

/-!
# Input behind an expression

A token that cannot continue an expression changes nothing about what was read in front of it. The
parser looks at it all the same, at every level of operators and wherever a lambda may begin, and
a comma, a colon or a closing delimiter would be taken by whoever waits for one. Two runs are
compared, one over the tokens alone and one with others behind them:

* `Tail`: what stands behind, and `ParserState.followed`: the state with it;
* `Steady`: a run without a report is the same in front of a tail. The flag says that it has to
  leave a token, as it must where a tail might be taken for more of a row;
* `Firm`: moreover, such a run begins in front of a token, so the tail is not what is looked at;
* `Rules.Steady`: what the rules do with any budget;
* `parseTokens_trailing`: a whole input with something behind it.
-/

namespace FlowExpr

open FlowExpr.Parser FlowExpr.Rules

/-! ## 1. What stands behind -/

/-- A token of this kind cannot continue an expression: a literal, a name, an opening brace, a
    closing delimiter, a comma, a colon, `=`, `!` or `empty`. -/
def TokenKind.isStray : TokenKind → Bool
  | integer _ | decimal _ | string _ | boolean _ | null | identifier _ => true
  | sign s =>
    match s with
    | .lBrace | .rBrace | .rBracket | .rParen | .comma | .colon | .assign | .not | .empty => true
    | _ => false
  | invalid | eof => false

theorem TokenKind.ne_of_isStray {kind kind' : TokenKind} (h : kind.isStray = true)
    (h' : kind'.isStray = false) : kind ≠ kind' := by
  rintro rfl
  rw [h] at h'
  cases h'

theorem TokenKind.operator?_of_isStray {kind : TokenKind} (h : kind.isStray = true) (l : Nat) :
    operator? l kind = none := by
  cases kind with
  | sign s => cases s <;> first | rfl | cases h
  | _ => rfl

/-- A token that cannot continue an expression, those behind it, and the end token. -/
structure Tail where
  token : Token
  others : List Token
  eof : Token
  stray : token.kind.isStray = true

namespace ParserState

/-- The state with a tail behind its tokens. -/
def followed (s : ParserState) (x : Tail) : ParserState :=
  { s with ahead := s.ahead ++ x.token :: x.others, eof := x.eof }

variable {s : ParserState} {x : Tail}

theorem current_followed (h : s.ahead ≠ []) : (s.followed x).current = s.current := by
  unfold current followed
  cases hs : s.ahead with
  | nil => exact absurd hs h
  | cons t rest => rfl

theorem current_followed_nil (h : s.ahead = []) : (s.followed x).current = x.token := by
  simp [current, followed, h]

theorem advance_followed (h : s.ahead ≠ []) :
    (s.followed x).advance = s.advance.followed x := by
  unfold advance followed
  cases hs : s.ahead with
  | nil => exact absurd hs h
  | cons t rest => rfl

theorem ahead_ne_nil (hs : s.Sane) (hk : s.current.kind ≠ .eof) : s.ahead ≠ [] := by
  rw [ahead_of_current hs hk]
  exact List.cons_ne_nil _ _

end ParserState

/-! ## 2. Runs in front of a tail -/

namespace Parser

variable {α β : Type}

/-- A run that reports nothing is the same with the tail behind its tokens. Inside of something
    else, only a run that leaves a token is. -/
structure Steady (x : Tail) (inside : Prop) (s : ParserState) (p : Parser α) : Prop where
  sound : Sound s p fun _ _ => True
  run : s.Sane → (p.run s).2.diagnostics = [] → (∀ t ∈ s.ahead, t.Readable) →
    (inside → (p.run s).2.ahead ≠ []) →
      p.run (s.followed x) = ((p.run s).1, (p.run s).2.followed x)

/-- A run that reports nothing begins in front of a token. -/
def Needs (inside : Prop) (s : ParserState) (p : Parser α) : Prop :=
  s.Sane → (p.run s).2.diagnostics = [] → (inside → (p.run s).2.ahead ≠ []) → s.ahead ≠ []

/-- A run that is steady and begins in front of a token. -/
structure Firm (x : Tail) (inside : Prop) (s : ParserState) (p : Parser α) : Prop where
  steady : Steady x inside s p
  needs : Needs inside s p

variable {x : Tail} {inside outer : Prop} {s : ParserState} {p : Parser α}

theorem steady_pure {a : α} : Steady x inside s (pure a) :=
  ⟨sound_pure trivial, fun _ _ _ _ => rfl⟩

/-- A run that leaves a token began in front of one. -/
theorem Steady.firm (h : Steady x True s p) : Firm x True s p := by
  refine ⟨h, fun hs hd hin hnil => ?_⟩
  obtain ⟨-, ts, hts, -⟩ := (h.sound hs).2 hd
  rw [hnil] at hts
  exact hin trivial (List.append_eq_nil_iff.mp hts.symm).2

/-- A run that always reports something. -/
theorem firm_of_sound (h : Sound s p fun _ _ => False) : Firm x inside s p := by
  refine ⟨⟨h.mono fun _ _ => False.elim, fun hs hd hread _ => ?_⟩, fun hs hd _ hnil => ?_⟩
  · obtain ⟨-, ts, hts, hfalse⟩ := (h hs).2 hd
    exact (hfalse fun t ht => hread t (hts ▸ List.mem_append_left _ ht)).elim
  · obtain ⟨-, ts, hts, hfalse⟩ := (h hs).2 hd
    rw [hnil] at hts
    rw [(List.append_eq_nil_iff.mp hts.symm).1] at hfalse
    exact hfalse nofun

/-- One run after another, if the second one begins in front of a token where the first one has to
    leave one. -/
theorem Steady.bind_of {f : α → Parser β} (h : Steady x outer s p)
    (hf : ∀ a s', Steady x inside s' (f a)) (hout : outer → ∀ a s', Needs inside s' (f a)) :
    Steady x inside s (p >>= f) := by
  refine ⟨Sound.bind h.sound fun a s' => (hf a s').sound.mono fun _ _ _ _ _ => trivial, ?_⟩
  intro hs hd hread hin
  obtain ⟨hs', hclean⟩ := h.sound hs
  have hnext := hf (p.run s).1 (p.run s).2
  have hd' := ((hnext.sound hs').2 hd).1
  obtain ⟨-, ts, hts, -⟩ := hclean hd'
  have hfirst := h.run hs hd' hread fun ho => hout ho _ _ hs' hd hin
  show (f (p.run (s.followed x)).1).run (p.run (s.followed x)).2 = _
  rw [hfirst]
  exact hnext.run hs' hd (fun t ht => hread t (hts ▸ List.mem_append_right _ ht)) hin

theorem Steady.bind {f : α → Parser β} (h : Steady x False s p)
    (hf : ∀ a s', Steady x inside s' (f a)) : Steady x inside s (p >>= f) :=
  h.bind_of hf False.elim

/-- What begins in front of a token gives the run before it a token to leave. -/
theorem Steady.then {f : α → Parser β} (h : Steady x outer s p)
    (hf : ∀ a s', Firm x inside s' (f a)) : Firm x inside s (p >>= f) := by
  refine ⟨h.bind_of (fun a s' => (hf a s').steady) fun _ a s' => (hf a s').needs, ?_⟩
  intro hs hd hin hnil
  obtain ⟨hs', hclean⟩ := h.sound hs
  have hnext := hf (p.run s).1 (p.run s).2
  obtain ⟨-, ts, hts, -⟩ := hclean ((hnext.steady.sound hs').2 hd).1
  rw [hnil] at hts
  exact hnext.needs hs' hd hin (List.append_eq_nil_iff.mp hts.symm).2

theorem Firm.bind {f : α → Parser β} (h : Firm x False s p)
    (hf : ∀ a s', Steady x inside s' (f a)) : Firm x inside s (p >>= f) := by
  refine ⟨h.steady.bind hf, fun hs hd _ => ?_⟩
  have hs' := (h.steady.sound hs).1
  exact h.needs hs (((hf _ _).sound hs').2 hd).1 False.elim

/-- Another run that does the same, in front of the tail too where this one reports nothing. -/
theorem Steady.of_run {q : Parser α} (h : Steady x inside s q) (he : p.run s = q.run s)
    (hx : s.Sane → (q.run s).2.diagnostics = [] → (∀ t ∈ s.ahead, t.Readable) →
      (inside → (q.run s).2.ahead ≠ []) → p.run (s.followed x) = q.run (s.followed x)) :
    Steady x inside s p := by
  constructor
  · unfold Sound
    rw [he]
    exact h.sound
  · rw [he]
    intro hs hd hread hin
    rw [hx hs hd hread hin]
    exact h.run hs hd hread hin

theorem Firm.of_run {q : Parser α} (h : Firm x inside s q) (he : p.run s = q.run s)
    (hx : s.Sane → (q.run s).2.diagnostics = [] → (∀ t ∈ s.ahead, t.Readable) →
      (inside → (q.run s).2.ahead ≠ []) → p.run (s.followed x) = q.run (s.followed x)) :
    Firm x inside s p := by
  refine ⟨h.steady.of_run he hx, ?_⟩
  unfold Needs
  rw [he]
  exact h.needs

/-! ### Single tokens -/

/-- Looking at a token that is there. -/
theorem firm_current {f : Token → Parser α} (h : Firm x inside s (f s.current)) :
    Firm x inside s (current >>= f) := by
  refine h.of_run rfl fun hs hd _ hin => ?_
  show (f (s.followed x).current).run (s.followed x) = _
  rw [ParserState.current_followed (h.needs hs hd hin)]

/-- Looking at the next token, if the end and the tail are all the same. -/
theorem steady_current {f : Token → Parser α} (h : Steady x inside s (f s.current))
    (hend : s.current.kind = .eof → f x.token = f s.current) :
    Steady x inside s (current >>= f) := by
  refine h.of_run rfl fun hs _ _ _ => ?_
  show (f (s.followed x).current).run (s.followed x) = _
  by_cases hnil : s.ahead = []
  · have heof : s.current = s.eof := by rw [ParserState.current, hnil]; rfl
    rw [ParserState.current_followed_nil hnil, hend (heof ▸ hs.eof)]
  · rw [ParserState.current_followed hnil]

theorem firm_advance {f : Unit → Parser α} (hk : s.current.kind ≠ .eof)
    (h : ∀ s', Steady x inside s' (f ())) : Firm x inside s (advance >>= f) := by
  refine ⟨⟨sound_advance hk fun s' => (h s').sound, fun hs hd hread hin => ?_⟩,
    fun hs _ _ => ParserState.ahead_ne_nil hs hk⟩
  have hahead := ParserState.ahead_of_current hs hk
  show (f ()).run (s.followed x).advance = _
  rw [ParserState.advance_followed (ParserState.ahead_ne_nil hs hk)]
  exact (h s.advance).run hs.advance hd
    (fun t ht => hread t (hahead ▸ List.mem_cons_of_mem _ ht)) hin

theorem run_eat_bind {sign : Sign} {f : Bool → Parser α} (s : ParserState) :
    (eat sign >>= f).run s = if s.current.kind = .sign sign
      then (advance >>= fun _ => f true).run s else (f false).run s := by
  show (f ((eat sign).run s).1).run ((eat sign).run s).2 = _
  rw [run_eat]
  split <;> rfl

/-- Taking a sign if it is next. Where the tail begins with this sign, what is done without it has
    to begin in front of a token. -/
theorem steady_eat_of {sign : Sign} {f : Bool → Parser α}
    (hyes : ∀ s', Steady x inside s' (f true)) (hno : ∀ s', Steady x inside s' (f false))
    (hx : x.token.kind = .sign sign → Needs inside s (f false)) :
    Steady x inside s (eat sign >>= f) := by
  by_cases hk : s.current.kind = .sign sign
  · have hne : s.current.kind ≠ .eof := hk ▸ TokenKind.noConfusion
    have htake : Firm x inside s (advance >>= fun _ => f true) := firm_advance hne hyes
    refine htake.steady.of_run (by rw [run_eat_bind, if_pos hk]) fun hs _ _ _ => ?_
    rw [run_eat_bind, ParserState.current_followed (ParserState.ahead_ne_nil hs hne), if_pos hk]
  · refine (hno s).of_run (by rw [run_eat_bind, if_neg hk]) fun hs hd _ hin => ?_
    rw [run_eat_bind, if_neg]
    by_cases hnil : s.ahead = []
    · rw [ParserState.current_followed_nil hnil]
      exact fun htail => hx htail hs hd hin hnil
    · rwa [ParserState.current_followed hnil]

theorem steady_eat {sign : Sign} {f : Bool → Parser α}
    (hyes : ∀ s', Steady x inside s' (f true)) (hno : ∀ s', Steady x inside s' (f false))
    (hx : (TokenKind.sign sign).isStray = false) : Steady x inside s (eat sign >>= f) :=
  steady_eat_of hyes hno fun h => absurd h (TokenKind.ne_of_isStray x.stray hx)

theorem firm_eat {sign : Sign} {f : Bool → Parser α}
    (hyes : ∀ s', Steady x inside s' (f true)) (hno : ∀ s', Firm x inside s' (f false)) :
    Firm x inside s (eat sign >>= f) := by
  refine ⟨steady_eat_of hyes (fun s' => (hno s').steady) fun _ => (hno s).needs, ?_⟩
  intro hs hd hin
  rw [run_eat_bind] at hd hin
  by_cases hk : s.current.kind = .sign sign
  · exact ParserState.ahead_ne_nil hs (hk ▸ TokenKind.noConfusion)
  · rw [if_neg hk] at hd hin
    exact (hno s).needs hs hd hin

theorem firm_closing {sign : Sign} {delimiter : Char} :
    Firm x inside s (closing sign delimiter) := by
  refine firm_current (firm_eat (fun _ => steady_pure) fun _ => firm_of_sound ?_)
  exact sound_report (P := fun _ _ => True) fun _ => sound_get (sound_pure trivial)

theorem firm_lambdaHead (h : lambdaAhead s.ahead = true) : Firm x inside s lambdaHead := by
  obtain ⟨head, names, rest, hahead, hh⟩ := exists_lambdaHead h
  obtain ⟨front, arrow, rfl, ha, hf, -⟩ := hh.exists_arrow
  rw [List.append_assoc] at hahead
  refine ⟨⟨(sound_lambdaHead h).mono fun _ _ _ => trivial, fun _ _ _ _ => ?_⟩, fun _ _ _ => ?_⟩
  · have hahead' : (s.followed x).ahead = front ++ arrow :: (rest ++ x.token :: x.others) := by
      show s.ahead ++ x.token :: x.others = _
      rw [hahead, List.append_assoc]
      rfl
    rw [run_lambdaHead hahead ha hf, run_lambdaHead hahead' ha hf]
    rfl
  · rw [hahead]
    simp

/-! ### Rows -/

/-- One more item of a row is read after a comma. -/
theorem run_afterCommasUpTo_succ (item : Parser α) (n : Nat) (s : ParserState) :
    (afterCommasUpTo item (n + 1)).run s = if s.current.kind = .sign .comma then
      ((item.run s.advance).1 :: ((afterCommasUpTo item n).run (item.run s.advance).2).1,
        ((afterCommasUpTo item n).run (item.run s.advance).2).2)
      else ([], s) := by
  show (eat .comma >>= _).run s = _
  rw [run_eat_bind]
  split <;> rfl

/-- A row ends with the tokens: no number that is great enough makes a difference. -/
theorem run_afterCommasUpTo_congr {item : Parser α}
    (hitem : ∀ s : ParserState, s.Moves (item.run s).2)
    {m n : Nat} (hs : s.eof.kind = .eof) (hm : s.ahead.length ≤ m) (hn : s.ahead.length ≤ n) :
    (afterCommasUpTo item m).run s = (afterCommasUpTo item n).run s := by
  induction m generalizing n s with
  | zero =>
    have hnil : s.ahead = [] := List.length_eq_zero_iff.mp (Nat.le_zero.mp hm)
    have hk : s.current.kind ≠ .sign .comma := by
      rw [ParserState.current, hnil]
      show s.eof.kind ≠ _
      rw [hs]
      exact TokenKind.noConfusion
    cases n with
    | zero => rfl
    | succ n =>
      rw [run_afterCommasUpTo_succ, if_neg hk]
      rfl
  | succ m ih =>
    by_cases hk : s.current.kind = .sign .comma
    · -- the comma is one of the tokens, so there is an item to be read with fewer of them
      have hmoves := hitem s.advance
      have hle := hmoves.isSuffix.length_le
      have heof := hmoves.tokens.2.trans s.advance_frame.1
      have hlt : s.advance.ahead.length < s.ahead.length := by
        unfold ParserState.current at hk
        unfold ParserState.advance
        cases hahead : s.ahead with
        | nil =>
          rw [hahead] at hk
          exact absurd (hs.symm.trans hk) TokenKind.noConfusion
        | cons t rest => exact Nat.lt_succ_self _
      obtain ⟨n, rfl⟩ : ∃ k, n = k + 1 := ⟨n - 1, by omega⟩
      have hrest := ih (heof ▸ hs) (by omega : (item.run s.advance).2.ahead.length ≤ m)
        (by omega : _ ≤ n)
      rw [run_afterCommasUpTo_succ, run_afterCommasUpTo_succ, if_pos hk, if_pos hk, hrest]
    · cases n with
      | zero =>
        rw [run_afterCommasUpTo_succ, if_neg hk]
        rfl
      | succ n => rw [run_afterCommasUpTo_succ, run_afterCommasUpTo_succ, if_neg hk, if_neg hk]

theorem steady_afterCommasUpTo {item : Parser α} (hitem : ∀ s, Steady x False s item) :
    ∀ (n : Nat) (s : ParserState), Steady x True s (afterCommasUpTo item n)
  | 0, _ => steady_pure
  | n + 1, s => by
      refine Firm.steady (firm_eat (fun s₁ => ?_) fun _ => Steady.firm steady_pure)
      refine Steady.bind (hitem s₁) fun a s₂ => Firm.steady ?_
      exact Steady.then (steady_afterCommasUpTo hitem n s₂) fun _ _ => Steady.firm steady_pure

/-- A row is steady inside of what ends it: with tokens behind it, it might go on. -/
theorem steady_afterCommas {item : Parser α} (hitem : ∀ s, Steady x False s item)
    (hmoves : ∀ s : ParserState, s.Moves (item.run s).2) (s : ParserState) :
    Steady x True s (afterCommas item) := by
  refine ⟨sound_get (steady_afterCommasUpTo hitem s.ahead.length s).sound, ?_⟩
  intro hs hd hread hin
  have hlength : s.ahead.length ≤ (s.followed x).ahead.length := by
    show s.ahead.length ≤ (s.ahead ++ x.token :: x.others).length
    rw [List.length_append]
    exact Nat.le_add_right _ _
  have hsame : (afterCommas item).run s =
      (afterCommasUpTo item (s.followed x).ahead.length).run s :=
    run_afterCommasUpTo_congr hmoves hs.eof (Nat.le_refl _) hlength
  have hrun := steady_afterCommasUpTo hitem (s.followed x).ahead.length s
  rw [hsame] at hd hin ⊢
  exact hrun.run hs hd hread hin

end Parser

/-! ## 3. Rules -/

/-- What the rules do in front of a tail. They are sound, and they do what rules do; so a row of
    what they read takes tokens only. -/
structure Rules.Steady (x : Tail) (n : Nat) (r : Rules) : Prop where
  sound : Rules.Sound n r
  follows : Rules.Follows r
  body : ∀ s, Firm x False s r.body
  unary : ∀ s, Firm x False s r.unary
  access : ∀ s target, Parser.Steady x False s (r.access target)
  chain : ∀ s l op left, Parser.Steady x False s (r.chain l op left)

section Level

variable {x : Tail} {n : Nat} {r : Rules} {s : ParserState}

theorem firm_tooDeep : Firm x False s tooDeep := firm_of_sound sound_tooDeep

theorem Rules.steady_exhausted : Rules.Steady x 0 exhausted where
  sound := sound_exhausted
  follows := follows_exhausted
  body _ := firm_tooDeep
  unary _ := firm_tooDeep
  access _ _ := Firm.steady (Firm.bind firm_tooDeep fun _ _ => steady_pure)
  chain _ _ _ _ := Firm.steady (Firm.bind firm_tooDeep fun _ _ => steady_pure)

/-! ### Rows and arguments -/

theorem steady_moreItems (hr : Rules.Steady x n r) (s : ParserState) :
    Parser.Steady x True s (afterCommas r.body) :=
  steady_afterCommas (fun s => (hr.body s).steady) (fun s => (hr.follows.body s).moves) s

theorem firm_entry (hr : Rules.Steady x n r) (s : ParserState) : Firm x False s r.entry := by
  refine Firm.bind (hr.body s) fun key s₁ => Firm.steady ?_
  refine firm_eat (fun s₂ => Firm.steady ?_) fun s₂ => firm_of_sound ?_
  · exact Firm.bind (hr.body s₂) fun value s₃ => steady_pure
  · exact sound_unexpected (P := fun _ _ => True) fun _ => sound_current (sound_pure trivial)

theorem steady_moreEntries (hr : Rules.Steady x n r) (s : ParserState) :
    Parser.Steady x True s (afterCommas r.entry) :=
  steady_afterCommas (fun s => (firm_entry hr s).steady)
    (fun s => (ends_entry hr.follows s).moves) s

theorem steady_arguments (hr : Rules.Steady x n r) (s : ParserState) (close : Sign) :
    Parser.Steady x True s (commaSeparated r.body close) := by
  refine Firm.steady (firm_current (Steady.firm ?_))
  split
  · exact steady_pure
  · refine Steady.bind (hr.body s).steady fun e s₁ => Firm.steady ?_
    exact Steady.then (steady_moreItems hr s₁) fun es s₂ => Steady.firm steady_pure

/-! ### Chains of postfixes -/

/-- No postfix is at the end, and none is at the tail. -/
theorem steady_postfixes (hr : Rules.Steady x n r) (s : ParserState) (target : Expr) :
    Parser.Steady x False s (r.postfixes target) := by
  refine steady_current ?_ fun hk => ?_
  · split
    · exact hr.access s target
    · exact hr.access s target
    · exact hr.access s target
    · exact steady_pure
  · rw [hk]
    split
    all_goals first | rfl | exact absurd (by assumption) (TokenKind.ne_of_isStray x.stray rfl)

theorem firm_member (hk : s.current.kind = .sign .dot) (target : Expr) :
    Firm x False s (member target) := by
  refine firm_current (firm_advance (hk ▸ TokenKind.noConfusion) fun s₁ => ?_)
  refine Firm.steady (firm_current ?_)
  split
  · rename_i name hn
    exact firm_advance (Token.readable_of_memberName hn).1 fun _ => steady_pure
  · exact firm_of_sound (sound_report (P := fun _ _ => True) fun _ => sound_pure trivial)

theorem steady_onePostfix (hr : Rules.Steady x n r) (s : ParserState) (target : Expr) :
    Parser.Steady x False s (r.onePostfix target) := by
  refine steady_current ?_ fun hk => ?_
  · split
    · rename_i hk
      refine Firm.steady (Firm.bind (firm_member hk target) fun e s₁ => ?_)
      exact steady_postfixes hr s₁ e
    · rename_i hk
      refine Firm.steady (firm_advance (hk ▸ TokenKind.noConfusion) fun s₁ => Firm.steady ?_)
      refine Firm.bind (hr.body s₁) fun i s₂ => Firm.steady ?_
      exact Firm.bind firm_closing fun stop s₃ => steady_postfixes hr s₃ _
    · rename_i hk
      refine Firm.steady (firm_advance (hk ▸ TokenKind.noConfusion) fun s₁ => Firm.steady ?_)
      refine Steady.then (steady_arguments hr s₁ .rParen) fun args s₂ => ?_
      exact Firm.bind firm_closing fun stop s₃ => steady_postfixes hr s₃ _
    · exact steady_pure
  · rw [hk]
    split
    all_goals first | rfl | exact absurd (by assumption) (TokenKind.ne_of_isStray x.stray rfl)

/-! ### What stands alone -/

theorem firm_braces (hr : Rules.Steady x n r) (s : ParserState) (start : Nat) :
    Firm x False s (r.braces start) := by
  refine firm_current (firm_eat (fun _ => steady_pure) fun s₁ => ?_)
  refine Firm.bind (hr.body s₁) fun first s₂ => Firm.steady ?_
  refine firm_eat (fun s₃ => Firm.steady ?_) fun s₃ => ?_
  · refine Firm.bind (hr.body s₃) fun value s₄ => Firm.steady ?_
    refine Steady.then (steady_moreEntries hr s₄) fun others s₅ => ?_
    exact Firm.bind firm_closing fun stop s₆ => steady_pure
  · refine Steady.then (steady_moreItems hr s₃) fun others s₄ => ?_
    exact Firm.bind firm_closing fun stop s₅ => steady_pure

theorem firm_primary (hr : Rules.Steady x n r) (s : ParserState) :
    Firm x False s r.primary := by
  have hleaf : ∀ {e : Expr}, s.current.kind ≠ .eof → Firm x False s (advance >>= fun _ => pure e) :=
    fun hk => firm_advance hk fun _ => steady_pure
  refine firm_current ?_
  split
  next hk => exact hleaf (hk ▸ TokenKind.noConfusion)
  next hk => exact hleaf (hk ▸ TokenKind.noConfusion)
  next hk => exact hleaf (hk ▸ TokenKind.noConfusion)
  next hk => exact hleaf (hk ▸ TokenKind.noConfusion)
  next hk => exact hleaf (hk ▸ TokenKind.noConfusion)
  next hk => exact hleaf (hk ▸ TokenKind.noConfusion)
  next hk => exact hleaf (hk ▸ TokenKind.noConfusion)
  next hk =>
    refine firm_advance (hk ▸ TokenKind.noConfusion) fun s₁ => Firm.steady ?_
    refine Firm.bind (hr.body s₁) fun e s₂ => Firm.steady ?_
    exact Firm.bind firm_closing fun _ _ => steady_pure
  next hk =>
    refine firm_advance (hk ▸ TokenKind.noConfusion) fun s₁ => Firm.steady ?_
    refine Steady.then (steady_arguments hr s₁ .rBracket) fun items s₂ => ?_
    exact Firm.bind firm_closing fun _ _ => steady_pure
  next hk =>
    refine firm_advance (hk ▸ TokenKind.noConfusion) fun s₁ => Firm.steady ?_
    exact firm_braces hr s₁ _
  -- nothing begins here, and that is reported
  all_goals refine firm_of_sound (sound_unexpected (P := fun _ _ => True) fun _ => ?_)
  all_goals first
    | exact sound_pure trivial
    | exact Sound.bind sound_advance_any fun _ _ => sound_pure fun _ _ => trivial

/-! ### Unary operators and chains of operators -/

theorem firm_prefixed (hr : Rules.Steady x n r) (s : ParserState) :
    Firm x False s r.prefixed := by
  have haccess : Firm x False s (r.primary >>= r.postfixes) :=
    Firm.bind (firm_primary hr s) fun e s₁ => steady_postfixes hr s₁ e
  refine firm_current ?_
  split
  · rename_i sign hk
    split
    · refine firm_advance (hk ▸ TokenKind.noConfusion) fun s₁ => Firm.steady ?_
      exact Firm.bind (hr.unary s₁) fun operand s₂ => steady_pure
    · exact haccess
  · exact haccess

/-- No operator is at the end, and none is at the tail. -/
theorem steady_chainRest (hr : Rules.Steady x n r) (s : ParserState) (l : Nat) (left : Expr) :
    Parser.Steady x False s (r.chainRest l left) := by
  refine steady_current ?_ fun hk => ?_
  · split
    · rename_i op ho
      obtain ⟨sign, hk, -⟩ := Grammar.exists_sign_of_operator? ho
      refine Firm.steady (firm_advance (hk ▸ TokenKind.noConfusion) fun s₁ => ?_)
      exact hr.chain s₁ l op left
    · exact steady_pure
  · rw [hk, TokenKind.operator?_of_isStray x.stray]
    rfl

theorem firm_climb (hr : Rules.Steady x n r) :
    ∀ (l : Nat) (s : ParserState), Firm x False s (r.climb l)
  | 0, s => firm_prefixed hr s
  | l + 1, s => Firm.bind (firm_climb hr l s) fun e s₁ => steady_chainRest hr s₁ l e

theorem steady_rightOperand (hr : Rules.Steady x n r) (s : ParserState) (l : Nat)
    (op : BinaryOp) (left : Expr) : Parser.Steady x False s (r.rightOperand l op left) :=
  Firm.steady (Firm.bind (firm_climb hr l s) fun _ s₁ => steady_chainRest hr s₁ l _)

/-! ### Whole expressions -/

theorem firm_conditional (hr : Rules.Steady x n r) (s : ParserState) :
    Firm x False s r.conditional := by
  refine Firm.bind (firm_climb hr BinaryOp.loosest s) fun condition s₁ => ?_
  refine steady_eat (fun s₂ => Firm.steady ?_) (fun s₂ => steady_pure) rfl
  refine Firm.bind (hr.body s₂) fun yes s₃ => Firm.steady ?_
  refine firm_eat (fun s₄ => Firm.steady ?_) fun s₄ => firm_of_sound ?_
  · exact Firm.bind (hr.body s₄) fun no s₅ => steady_pure
  · exact sound_unexpected (P := fun _ _ => True) fun _ => sound_current (sound_pure trivial)

theorem firm_lambda (hr : Rules.Steady x n r) (h : lambdaAhead s.ahead = true) :
    Firm x False s r.lambda := by
  refine firm_current (Firm.bind (firm_lambdaHead h) fun params s₁ => Firm.steady ?_)
  exact Firm.bind (hr.body s₁) fun body s₂ => steady_pure

/-- If only the tokens behind make the head of a lambda, there is no arrow in front of them. -/
theorem not_arrow_of_lambdaAhead_append {ts us : List Token}
    (h : lambdaAhead (ts ++ us) = true) (hts : lambdaAhead ts = false) :
    ∀ t ∈ ts, t.kind ≠ .sign .arrow := by
  obtain ⟨head, names, rest, hsplit, hh⟩ := exists_lambdaHead h
  obtain ⟨front, arrow, rfl, -, hf, -⟩ := hh.exists_arrow
  rcases List.append_eq_append_iff.mp hsplit with ⟨others, hhead, -⟩ | ⟨others, rfl, -⟩
  · -- the head ends behind these tokens, or with them
    rcases List.eq_nil_or_concat others with rfl | ⟨middle, last, rfl⟩
    · rw [List.append_nil] at hhead
      have htrue := hh.lambdaAhead []
      rw [hhead, List.append_nil, hts] at htrue
      cases htrue
    · rw [List.concat_eq_append, ← List.append_assoc] at hhead
      rw [(List.append_inj' hhead rfl).1] at hf
      exact fun t ht => hf t (List.mem_append_left _ ht)
  · rw [hh.lambdaAhead others] at hts
    cases hts

/-- **A tail makes no lambda of an expression**: what was read without a report as an expression of
    operators, or as a conditional, does not begin like a lambda with the tail behind it. -/
theorem not_lambdaAhead_followed (hr : Rules.Sound n r) (hs : s.Sane)
    (hd : (r.conditional.run s).2.diagnostics = []) (hread : ∀ t ∈ s.ahead, t.Readable)
    (h : lambdaAhead s.ahead = false) : lambdaAhead (s.followed x).ahead = false := by
  rw [Bool.eq_false_iff]
  intro htrue
  have hno := not_arrow_of_lambdaAhead_append htrue h
  obtain ⟨-, ts, hts, hderives⟩ := (sound_conditional hr s hs).2 hd
  obtain ⟨c, -, hderives⟩ := hderives fun t ht => hread t (hts ▸ List.mem_append_left _ ht)
  generalize (r.conditional.run s).2.ahead = left at hts
  generalize (r.conditional.run s).1 = e at hderives
  have hahead : (s.followed x).ahead = ts ++ (left ++ x.token :: x.others) := by
    show s.ahead ++ _ = _
    rw [hts, List.append_assoc]
  rw [hahead] at htrue
  cases hderives with
  | lambda hh hb =>
    rw [hts, List.append_assoc, hh.lambdaAhead] at h
    cases h
  | operation hchain =>
    have hnext : nextKind (left ++ x.token :: x.others) ≠ .sign .arrow := by
      cases left with
      | nil => exact TokenKind.ne_of_isStray x.stray rfl
      | cons t left => exact hno t (hts ▸ List.mem_append_right _ List.mem_cons_self)
    rw [hchain.not_lambdaAhead rfl _ hnext] at htrue
    cases htrue
  | conditional hchain hq =>
    rw [List.append_assoc, List.cons_append, hchain.not_lambdaAhead rfl _ (by simp [hq])] at htrue
    cases htrue

theorem firm_expression (hr : Rules.Steady x n r) (s : ParserState) :
    Firm x False s r.expression := by
  have hrun : ∀ s, r.expression.run s =
      if lambdaAhead s.ahead then r.lambda.run s else r.conditional.run s := by
    intro s
    show (if lambdaAhead s.ahead then r.lambda else r.conditional).run s = _
    split <;> rfl
  cases h : lambdaAhead s.ahead with
  | true =>
    have hfollowed : lambdaAhead (s.followed x).ahead = true := by
      obtain ⟨head, names, rest, hahead, hh⟩ := exists_lambdaHead h
      show lambdaAhead (s.ahead ++ _) = true
      rw [hahead, List.append_assoc, hh.lambdaAhead]
    refine (firm_lambda hr h).of_run (by rw [hrun, if_pos h]) fun _ _ _ _ => ?_
    rw [hrun, if_pos hfollowed]
  | false =>
    refine (firm_conditional hr s).of_run (by rw [hrun, h]; rfl) fun hs hd hread _ => ?_
    rw [hrun, not_lambdaAhead_followed hr.sound hs hd hread h]
    rfl

/-- One more level: rules built from steady rules are steady. -/
theorem Rules.Steady.within (hr : Rules.Steady x n r) : Rules.Steady x (n + 1) r.within where
  sound := hr.sound.within
  follows := hr.follows.within
  body := firm_expression hr
  unary := firm_prefixed hr
  access := steady_onePostfix hr
  chain := steady_rightOperand hr

end Level

/-- **The rules of every budget are steady.** -/
theorem Rules.steady_withBudget (x : Tail) : ∀ n, Rules.Steady x n (withBudget n)
  | 0 => steady_exhausted
  | n + 1 => (steady_withBudget x n).within

/-! ## 4. Whole inputs -/

/-- What is reported of a token behind a complete expression. -/
def Problem.trailing : TokenKind → Problem
  | .sign .assign => .assignment
  | kind => .unexpectedToken .endOfExpression kind

/-- Where a token behind an expression is next, it alone is reported. -/
theorem diagnostics_trailing {s : ParserState} (hk : s.current.kind.isStray = true)
    (hheard : s.truncated = false) : (trailing.run s).2.diagnostics =
      s.diagnostics ++ [⟨s.current.span, .trailing s.current.kind⟩] := by
  have hends : Ends s trailing fun s' _ => s'.diagnostics =
      s.diagnostics ++ [⟨s.current.span, .trailing s.current.kind⟩] := by
    refine ends_current ?_
    split
    · rename_i h
      rw [h] at hk
      cases hk
    · rename_i h
      rw [h] at hk
      cases hk
    · rename_i h
      show (s.report _ _).diagnostics = _
      rw [ParserState.report, hheard, h]
      rfl
    · show (s.report _ _).diagnostics = _
      rw [ParserState.report, hheard, Problem.trailing]
      · rfl
      · assumption
  exact hends

/-- A whole input that is not empty is an expression, and what follows it. -/
theorem run_whole {s : ParserState} (h : s.current.isEof = false) :
    whole.run s = (((withBudget maxDepth).body.run s).1,
      (trailing.run ((withBudget maxDepth).body.run s).2).2) := by
  have hends : Ends s whole fun s' e => (e, s') = (((withBudget maxDepth).body.run s).1,
      (trailing.run ((withBudget maxDepth).body.run s).2).2) := by
    refine ends_current ?_
    rw [h]
    exact rfl
  exact hends

/-- An input about which nothing is reported is not empty, and its expression leaves nothing. -/
theorem exists_run_of_whole {s : ParserState} (hs : s.Sane) (hread : ∀ t ∈ s.ahead, t.Readable)
    (h : (whole.run s).2.diagnostics = []) :
    ∃ e s₁, whole.run s = (e, (trailing.run s₁).2) ∧ s.ahead ≠ [] ∧ s₁.ahead = [] ∧
      s₁.truncated = false ∧ s₁.diagnostics = [] ∧ ∀ x : Tail,
        (withBudget maxDepth).body.run (s.followed x) = (e, s₁.followed x) := by
  have hcurrent : s.current.isEof = false := by
    by_contra heof
    rw [Bool.not_eq_false] at heof
    have hends : Ends s whole fun s' _ => s'.diagnostics ≠ [] := by
      refine ends_current ?_
      rw [heof]
      exact (hs.report _ _).2
    exact hends h
  have hk : s.current.kind ≠ .eof := by simpa [Token.isEof] using hcurrent
  rw [run_whole hcurrent] at h ⊢
  have hsound := (Rules.sound_withBudget maxDepth).body s hs
  generalize hrun : (withBudget maxDepth).body.run s = result at h hsound
  obtain ⟨e, s₁⟩ := result
  obtain ⟨hs₁, hderives⟩ := hsound
  obtain ⟨-, hleft⟩ := sound_trailing hs₁
  obtain ⟨hd₁, us, hus, hnil⟩ := hleft h
  obtain ⟨-, vs, hvs, -⟩ := hderives hd₁
  rw [ahead_trailing, List.append_nil] at hus
  have hread₁ : ∀ t ∈ us, t.Readable := by
    intro t ht
    refine hread t ?_
    rw [hvs, hus]
    exact List.mem_append_right _ ht
  have hheard : s₁.truncated = false := by
    by_contra htruncated
    rw [Bool.not_eq_false] at htruncated
    exact hs₁.reported htruncated hd₁
  refine ⟨e, s₁, rfl, ParserState.ahead_ne_nil hs hk, hus.trans (hnil hread₁), hheard, hd₁, ?_⟩
  intro x
  have hbody := ((Rules.steady_withBudget x maxDepth).body s).steady.run hs
  rw [hrun] at hbody
  exact hbody hd₁ hread False.elim

/-- The state before anything was read from tokens with something behind them. -/
theorem ParserState.ofTokens_append {ts : List Token} (hne : ts ≠ [])
    (hread : ∀ t ∈ ts, t.Readable) {t : Token} (ht : t.kind.isStray = true)
    (rest : List Token) : ofTokens (ts ++ t :: rest) = (ofTokens ts).followed
      ⟨t, rest.takeWhile fun u => !u.isEof, (ofTokens (ts ++ t :: rest)).eof, ht⟩ := by
  have hall : ∀ u ∈ ts, (!u.isEof) = true := fun u hu => by simp [Token.isEof, (hread u hu).1]
  have hone : (!t.isEof) = true := by
    simpa [Token.isEof] using TokenKind.ne_of_isStray ht (rfl : TokenKind.eof.isStray = false)
  have hahead : (ofTokens (ts ++ t :: rest)).ahead =
      ts ++ t :: rest.takeWhile fun u => !u.isEof := by
    show (ts ++ t :: rest).takeWhile (fun u => !u.isEof) = _
    rw [List.takeWhile_append_of_pos hall]
    exact congrArg (ts ++ ·) (List.takeWhile_cons_of_pos hone)
  have hstart := (at_ofTokens hread).ahead
  have hlast : (ofTokens (ts ++ t :: rest)).lastEnd = (ofTokens ts).lastEnd := by
    show ((ofTokens (ts ++ t :: rest)).ahead.headD _).span.start =
      ((ofTokens ts).ahead.headD _).span.start
    rw [hahead, hstart]
    cases ts with
    | nil => exact absurd rfl hne
    | cons u ts => rfl
  unfold followed
  rw [hstart, ← hahead, ← hlast]
  rfl

/-- **Input behind an expression.** Let nothing be reported of readable tokens. With a token behind
    them that cannot continue an expression, and with any others behind it, the tree is the same,
    and the one report is of that token. -/
theorem parseTokens_trailing {ts : List Token} {t : Token} (rest : List Token)
    (hread : ∀ t ∈ ts, t.Readable) (hclean : (parseTokens ts).diagnostics = [])
    (ht : t.kind.isStray = true) : parseTokens (ts ++ t :: rest) =
      ⟨(parseTokens ts).root, [⟨t.span, .trailing t.kind⟩]⟩ := by
  have hat := ParserState.at_ofTokens hread
  have hs : (ParserState.ofTokens ts).Sane := ⟨hat.eof, nofun⟩
  obtain ⟨e, s₁, hwhole, hne, hnil, hheard, hd₁, hbody⟩ :=
    exists_run_of_whole hs (fun u hu => hread u (hat.ahead ▸ hu)) hclean
  have hroot : (parseTokens ts).root = e := congrArg Prod.fst hwhole
  have hfollowed := ParserState.ofTokens_append (hat.ahead ▸ hne) hread ht rest
  generalize hx : Tail.mk t _ _ ht = x at hfollowed
  have htoken : x.token = t := hx ▸ rfl
  have hcurrent : ((ParserState.ofTokens ts).followed x).current.isEof = false := by
    rw [ParserState.current_followed hne]
    cases ts with
    | nil => exact absurd hat.ahead hne
    | cons u ts => simpa [hat.current_eq, Token.isEof] using (hread u List.mem_cons_self).1
  have hnext : (s₁.followed x).current = t := (ParserState.current_followed_nil hnil).trans htoken
  have hstray : (s₁.followed x).current.kind.isStray = true := by
    rw [hnext]
    exact ht
  have hreport := diagnostics_trailing hstray hheard
  rw [hnext] at hreport
  change _ = s₁.diagnostics ++ _ at hreport
  rw [hd₁, List.nil_append] at hreport
  show (⟨(whole.run _).1, (whole.run _).2.diagnostics⟩ : Parsed) = _
  rw [hfollowed, run_whole hcurrent, hbody, hroot, hreport]

/-- Behind `x ? y : (z)` stands a colon, and an arrow that would make a lambda of its last part if
    it stood there itself. -/
theorem parseTokens_trailing_colon :
    let token (kind : TokenKind) (i : Nat) : Token := ⟨kind, "", ⟨i, i + 1⟩⟩
    let ts := [token (.identifier "x") 0, token (.sign .question) 1, token (.identifier "y") 2,
      token (.sign .colon) 3, token (.sign .lParen) 4, token (.identifier "z") 5,
      token (.sign .rParen) 6]
    let rest := [token (.sign .arrow) 8, token (.identifier "x") 9, Token.eofAt 10]
    (parseTokens ts).diagnostics = [] ∧
      parseTokens (ts ++ token (.sign .colon) 7 :: rest) =
        ⟨.ternary (.identifier "x" ⟨0, 1⟩) (.identifier "y" ⟨2, 3⟩) (.identifier "z" ⟨5, 6⟩) ⟨0, 6⟩,
          [⟨⟨7, 8⟩, .unexpectedToken .endOfExpression (.sign .colon)⟩]⟩ := by
  intro token ts rest
  have hread : ∀ t ∈ ts, t.Readable := by simp [ts, token, Token.Readable]
  have hclean : (parseTokens ts).diagnostics = [] := rfl
  exact ⟨hclean, parseTokens_trailing rest hread hclean rfl⟩

end FlowExpr
