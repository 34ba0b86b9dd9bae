import FlowExpr.Proofs.Expr.Completeness
import FlowExpr.Proofs.Token.Lexer
import Mathlib

/-!
# Nothing wrong goes unreported

If the parser reports nothing, the tokens derive its tree. Every way of going on after
something wrong leaves a diagnostic:

* `ParserState.Sane`: the end token is one, and what was skipped for want of levels was
  reported before. The second half matters because nothing is reported after such a skip.
* `Parser.Sound s p good`: run in the state `s`, the parser `p` stays sane, takes back no
  diagnostic, and if it ends without any, the tokens it took and its value are `good` (provided
  that the tokens can be read: unreadable ones are reported by whoever reads the text).
* `Rules.Sound n`: what the rules do with a budget of `n` levels, said with derivations. The
  rest of a chain is sound for every chain that may stand before it.
-/

namespace FlowExpr

/-! ## 1. Sound runs -/

/-- The end token is one, and a skip for want of levels has been reported. -/
structure ParserState.Sane (s : ParserState) : Prop where
  eof : s.eof.kind = .eof
  reported : s.truncated = true → s.diagnostics ≠ []

namespace ParserState

/-- The next token is the one looked at, unless the end was looked at. -/
theorem ahead_of_current {s : ParserState} (hs : s.Sane)
    (h : s.current.kind ≠ .eof) : s.ahead = s.current :: s.advance.ahead := by
  cases ha : s.ahead with
  | nil =>
    have e : s.current = s.eof := by simp [current, ha]
    rw [e] at h
    exact absurd hs.eof h
  | cons t rest => simp [current, ParserState.advance, ha]

theorem Sane.advance {s : ParserState} (hs : s.Sane) : s.advance.Sane := by
  obtain ⟨he, ht, hd⟩ := s.advance_frame
  exact ⟨by rw [he]; exact hs.eof, by rw [ht, hd]; exact hs.reported⟩

theorem Sane.report {s : ParserState} (hs : s.Sane) (span : Span)
    (problem : Problem) : (s.report span problem).Sane ∧
      (s.report span problem).diagnostics ≠ [] := by
  unfold ParserState.report
  split
  · rename_i ht
    exact ⟨hs, hs.reported ht⟩
  · exact ⟨⟨hs.eof, fun _ => by simp⟩, by simp⟩

end ParserState

namespace Parser

variable {α β : Type}

/-- What a run has to do with the tokens it takes. -/
def Sound (s : ParserState) (p : Parser α) (good : List Token → α → Prop) : Prop :=
  s.Sane → (p.run s).2.Sane ∧ ((p.run s).2.diagnostics = [] → s.diagnostics = [] ∧
    ∃ ts, s.ahead = ts ++ (p.run s).2.ahead ∧
      ((∀ t ∈ ts, t.Readable) → good ts (p.run s).1))

theorem Sound.mono {s : ParserState} {p : Parser α} {P Q : List Token → α → Prop}
    (h : Sound s p P) (hpq : ∀ ts a, P ts a → Q ts a) : Sound s p Q := by
  intro hs
  refine ⟨(h hs).1, fun hd => ?_⟩
  obtain ⟨hd', ts, hts, hgood⟩ := (h hs).2 hd
  exact ⟨hd', ts, hts, fun hr => hpq _ _ (hgood hr)⟩

theorem sound_pure {s : ParserState} {a : α} {good : List Token → α → Prop} (h : good [] a) :
    Sound s (pure a) good :=
  fun hs => ⟨hs, fun hd => ⟨hd, [], rfl, fun _ => h⟩⟩

/-- What comes first is sound, and what comes then is sound whatever came first. -/
theorem Sound.bind {s : ParserState} {p : Parser α} {f : α → Parser β}
    {P : List Token → α → Prop} {good : List Token → β → Prop} (h : Sound s p P)
    (hf : ∀ a s', Sound s' (f a) fun ts b => ∀ us, P us a → good (us ++ ts) b) :
    Sound s (p >>= f) good := by
  intro hs
  obtain ⟨hs₁, hq₁⟩ := h hs
  obtain ⟨hs₂, hq₂⟩ := hf (p.run s).1 (p.run s).2 hs₁
  refine ⟨hs₂, fun hd₂ => ?_⟩
  obtain ⟨hd₁, ts, hts, hgood⟩ := hq₂ hd₂
  obtain ⟨hd, us, hus, hP⟩ := hq₁ hd₁
  refine ⟨hd, us ++ ts, ?_, fun hr => ?_⟩
  · rw [hus, hts, List.append_assoc]
    rfl
  · exact hgood (fun t ht => hr t (List.mem_append_right _ ht)) us
      (hP fun t ht => hr t (List.mem_append_left _ ht))

/-! ## 2. Single tokens -/

theorem sound_current {s : ParserState} {f : Token → Parser α} {good : List Token → α → Prop}
    (h : Sound s (f s.current) good) : Sound s (current >>= f) good := h

theorem sound_get {s : ParserState} {f : ParserState → Parser α} {good : List Token → α → Prop}
    (h : Sound s (f s) good) : Sound s (get >>= f) good := h

/-- A token that is not the end is taken; that it can be read may be used for what follows. -/
theorem sound_advance_readable {s : ParserState} {f : Unit → Parser α}
    {good : List Token → α → Prop} (hk : s.current.kind ≠ .eof)
    (h : ∀ s', Sound s' (f ()) fun ts a => s.current.Readable → good (s.current :: ts) a) :
    Sound s (advance >>= f) good := by
  intro hs
  obtain ⟨hs', hq⟩ := h s.advance hs.advance
  refine ⟨hs', fun hd => ?_⟩
  obtain ⟨hd', ts, hts, hgood⟩ := hq hd
  refine ⟨s.advance_frame.2.2 ▸ hd', s.current :: ts, ?_, fun hr => ?_⟩
  · rw [ParserState.ahead_of_current hs hk, hts]
    rfl
  · exact hgood (fun t ht => hr t (List.mem_cons_of_mem _ ht)) (hr _ List.mem_cons_self)

theorem sound_advance {s : ParserState} {f : Unit → Parser α} {good : List Token → α → Prop}
    (hk : s.current.kind ≠ .eof)
    (h : ∀ s', Sound s' (f ()) fun ts a => good (s.current :: ts) a) :
    Sound s (advance >>= f) good :=
  sound_advance_readable hk fun s' => (h s').mono fun _ _ hgood _ => hgood

/-- Whatever the next token is, or if there is none. -/
theorem sound_advance_any {s : ParserState} : Sound s advance fun _ _ => True := by
  intro hs
  refine ⟨hs.advance, fun hd => ⟨s.advance_frame.2.2 ▸ hd, ?_⟩⟩
  show ∃ ts, s.ahead = ts ++ s.advance.ahead ∧ _
  unfold ParserState.advance
  split
  · rename_i h
    exact ⟨[], by rw [h]; rfl, fun _ => trivial⟩
  · rename_i t rest h
    exact ⟨[t], by rw [h]; rfl, fun _ => trivial⟩

theorem sound_eat {s : ParserState} {sign : Sign} {f : Bool → Parser α}
    {good : List Token → α → Prop}
    (hyes : ∀ t : Token, t.kind = .sign sign →
      ∀ s', Sound s' (f true) fun ts a => good (t :: ts) a)
    (hno : ∀ s', Sound s' (f false) good) : Sound s (eat sign >>= f) good := by
  by_cases hk : s.current.kind = .sign sign
  · have hne : s.current.kind ≠ .eof := by rw [hk]; exact TokenKind.noConfusion
    have htake := sound_advance (f := fun _ => f true) hne (hyes s.current hk)
    have e : (eat sign >>= f).run s = (advance >>= fun _ => f true).run s := by
      show (f ((eat sign).run s).1).run ((eat sign).run s).2 = _
      rw [run_eat, if_pos hk]
      rfl
    unfold Sound
    rw [e]
    exact htake
  · have e : (eat sign >>= f).run s = (f false).run s := by
      show (f ((eat sign).run s).1).run ((eat sign).run s).2 = _
      rw [run_eat, if_neg hk]
    unfold Sound
    rw [e]
    exact hno s

/-! ## 3. Reports -/

/-- After a report it is enough to go on in any sound way. -/
theorem sound_report {s : ParserState} {span : Span} {problem : Problem} {f : Unit → Parser α}
    {P good : List Token → α → Prop} (h : ∀ s', Sound s' (f ()) P) :
    Sound s (report span problem >>= f) good := by
  intro hs
  obtain ⟨hs', hn⟩ := hs.report span problem
  exact ⟨(h _ hs').1, fun hd => absurd ((h _ hs').2 hd).1 hn⟩

theorem sound_unexpected {s : ParserState} {expected : Expected} {f : Unit → Parser α}
    {P good : List Token → α → Prop} (h : ∀ s', Sound s' (f ()) P) :
    Sound s (unexpected expected >>= f) good :=
  show Sound s (report s.current.span (.unexpectedToken expected s.current.kind) >>= f) good from
    sound_report h

/-- A closing delimiter is taken, or its absence is reported. -/
theorem sound_closing {s : ParserState} {sign : Sign} {delimiter : Char} :
    Sound s (closing sign delimiter) fun ts _ => ∃ t, ts = [t] ∧ t.kind = .sign sign := by
  refine sound_current (sound_eat (fun t ht s₁ => ?_) fun s₁ => ?_)
  · exact sound_pure ⟨t, rfl, ht⟩
  · exact sound_report (P := fun _ _ => True) fun s₂ => sound_get (sound_pure trivial)

/-- Without a level left there is always a report, and the skip comes after it. -/
theorem sound_tooDeep {s : ParserState} {good : List Token → Expr → Prop} :
    Sound s tooDeep good := by
  intro hs
  obtain ⟨hs', hn⟩ := hs.report s.current.span .tooDeeplyNested
  exact ⟨⟨hs'.eof, fun _ => hn⟩, fun hd => absurd hd hn⟩

theorem sound_lambdaHead {s : ParserState} (h : lambdaAhead s.ahead = true) :
    Sound s lambdaHead fun ts params => LambdaHead ts (params.map Param.name) := by
  intro hs
  obtain ⟨head, names, rest, hahead, hh⟩ := exists_lambdaHead h
  obtain ⟨front, arrow, rfl, ha, hf, rfl⟩ := hh.exists_arrow
  rw [List.append_assoc] at hahead
  rw [run_lambdaHead hahead ha hf]
  exact ⟨⟨hs.eof, hs.reported⟩, fun hd => ⟨hd, front ++ [arrow],
    by rw [hahead, List.append_assoc]; rfl, fun _ => hh⟩⟩

/-! ## 4. Rows -/

/-- Items that each follow a comma, given what the items are and how a row is put together. -/
theorem sound_afterCommasUpTo {item : Parser α} {P : List Token → α → Prop}
    {row : List Token → List α → Prop} (hitem : ∀ s, Sound s item P) (hnil : row [] [])
    (hcons : ∀ comma ts us a as, comma.kind = .sign .comma → P ts a → row us as →
      row (comma :: (ts ++ us)) (a :: as)) :
    ∀ (m : Nat) (s : ParserState), Sound s (afterCommasUpTo item m) row
  | 0, _ => sound_pure hnil
  | m + 1, s => by
      refine sound_eat (fun comma hc s₁ => ?_) fun s₁ => sound_pure hnil
      refine Sound.bind (hitem s₁) fun a s₂ => ?_
      refine Sound.bind (sound_afterCommasUpTo hitem hnil hcons m s₂) fun as s₃ => ?_
      refine sound_pure fun us has ts ha => ?_
      rw [List.append_nil]
      exact hcons comma ts us a as hc ha has

theorem sound_afterCommas {item : Parser α} {P : List Token → α → Prop}
    {row : List Token → List α → Prop} (hitem : ∀ s, Sound s item P) (hnil : row [] [])
    (hcons : ∀ comma ts us a as, comma.kind = .sign .comma → P ts a → row us as →
      row (comma :: (ts ++ us)) (a :: as)) (s : ParserState) :
    Sound s (afterCommas item) row :=
  sound_get (sound_afterCommasUpTo hitem hnil hcons s.ahead.length s)

end Parser

/-! ## 5. Sound rules -/

open FlowExpr.Parser FlowExpr.Rules

/-- What the rules do with a budget of `n` levels. -/
structure Rules.Sound (n : Nat) (r : Rules) : Prop where
  body : ∀ s, Parser.Sound s r.body fun ts e => ∃ c ≤ n, Derives (.expression e) ts c
  unary : ∀ s, Parser.Sound s r.unary fun ts e => ∃ c < n, Derives (.chain 0 0 e) ts c
  access : ∀ s target, Parser.Sound s (r.access target) fun ts e => ∀ us k c,
    Derives (.postfixed k target) us c → c ≤ n + k →
      ∃ k' c', Derives (.postfixed k' e) (us ++ ts) c' ∧ c' ≤ n + k
  chain : ∀ s l op left, Parser.Sound s (r.chain l op left) fun ts e => ∀ us k c sign t,
    Derives (.chain (l + 1) k left) us c → c ≤ n + k → t.kind = .sign sign →
      (sign, op) ∈ Grammar.binaryAt l →
      ∃ k' c', Derives (.chain (l + 1) k' e) (us ++ t :: ts) c' ∧ c' ≤ n + k

theorem Rules.sound_exhausted : Rules.Sound 0 exhausted where
  body _ := sound_tooDeep
  unary _ := sound_tooDeep
  access _ _ := Sound.bind (P := fun _ _ => False) sound_tooDeep fun _ _ =>
    sound_pure fun _ h => h.elim
  chain _ _ _ _ := Sound.bind (P := fun _ _ => False) sound_tooDeep fun _ _ =>
    sound_pure fun _ h => h.elim

section Level

variable {n : Nat} {r : Rules}

/-! ### Rows and arguments -/

theorem sound_moreItems (hr : Rules.Sound n r) (s : ParserState) :
    Parser.Sound s (afterCommas r.body) fun ts es => ∃ c ≤ n, Derives (.moreItems es) ts c := by
  refine sound_afterCommas hr.body ⟨0, Nat.zero_le n, .noItems⟩ ?_ s
  rintro comma ts us e es hc ⟨c₁, hc₁, h₁⟩ ⟨c₂, hc₂, h₂⟩
  exact ⟨max c₁ c₂, by omega, .item hc h₁ h₂⟩

theorem sound_entry (hr : Rules.Sound n r) (s : ParserState) :
    Parser.Sound s r.entry fun ts entry => ∃ ts₁ ts₂ colon, ∃ c₁ ≤ n, ∃ c₂ ≤ n,
      ts = ts₁ ++ colon :: ts₂ ∧ colon.kind = .sign .colon ∧
      Derives (.expression entry.1) ts₁ c₁ ∧ Derives (.expression entry.2) ts₂ c₂ := by
  refine Sound.bind (hr.body s) fun key s₁ => ?_
  refine sound_eat (fun colon hc s₂ => ?_) fun s₂ => ?_
  · refine Sound.bind (hr.body s₂) fun value s₃ => sound_pure ?_
    rintro ts₂ ⟨c₂, hc₂, h₂⟩ ts₁ ⟨c₁, hc₁, h₁⟩
    rw [List.append_nil]
    exact ⟨ts₁, ts₂, colon, c₁, hc₁, c₂, hc₂, rfl, hc, h₁, h₂⟩
  · exact sound_unexpected (P := fun _ _ => True) fun s₃ => sound_current (sound_pure trivial)

theorem sound_moreEntries (hr : Rules.Sound n r) (s : ParserState) :
    Parser.Sound s (afterCommas r.entry) fun ts es =>
      ∃ c ≤ n, Derives (.moreEntries es) ts c := by
  refine sound_afterCommas (sound_entry hr) ⟨0, Nat.zero_le n, .noEntries⟩ ?_ s
  rintro comma _ us ⟨key, value⟩ es hm ⟨ts₁, ts₂, colon, c₁, hc₁, c₂, hc₂, rfl, hc, h₁, h₂⟩
    ⟨c₃, hc₃, h₃⟩
  rw [List.append_assoc, List.cons_append]
  exact ⟨max c₁ (max c₂ c₃), by omega, .entry hm h₁ hc h₂ h₃⟩

theorem sound_arguments (hr : Rules.Sound n r) (s : ParserState) (close : Sign) :
    Parser.Sound s (commaSeparated r.body close) fun ts es =>
      ∃ c ≤ n, Derives (.arguments es) ts c := by
  refine sound_current ?_
  split
  · exact sound_pure ⟨0, Nat.zero_le n, .noArguments⟩
  · refine Sound.bind (hr.body s) fun e s₁ => ?_
    refine Sound.bind (sound_moreItems hr s₁) fun es s₂ => sound_pure ?_
    rintro ts₂ ⟨c₂, hc₂, h₂⟩ ts₁ ⟨c₁, hc₁, h₁⟩
    rw [List.append_nil]
    exact ⟨max c₁ c₂, by omega, .someArguments h₁ h₂⟩

/-! ### Chains of postfixes -/

theorem sound_postfixes (hr : Rules.Sound n r) (s : ParserState) (target : Expr) :
    Parser.Sound s (r.postfixes target) fun ts e => ∀ us k c,
      Derives (.postfixed k target) us c → c ≤ n + k →
        ∃ k' c', Derives (.postfixed k' e) (us ++ ts) c' ∧ c' ≤ n + k := by
  refine sound_current ?_
  split
  · exact hr.access s target
  · exact hr.access s target
  · exact hr.access s target
  · refine sound_pure fun us k c h hc => ?_
    rw [List.append_nil]
    exact ⟨k, c, h, hc⟩

theorem sound_member {s : ParserState} {target : Expr} (hk : s.current.kind = .sign .dot) :
    Parser.Sound s (member target) fun ts e => ∃ dot t name nameSpan span, ts = [dot, t] ∧
      dot.kind = .sign .dot ∧ t.memberName? = some name ∧
      e = .property target (some name) nameSpan span := by
  refine sound_current (sound_advance (by simp [hk]) fun s₁ => ?_)
  refine sound_current ?_
  split
  · rename_i name hn
    refine sound_advance (Token.readable_of_memberName hn).1 fun s₂ => ?_
    exact sound_pure ⟨_, _, name, _, _, rfl, hk, hn, rfl⟩
  · exact sound_report (P := fun _ _ => True) fun s₂ => sound_pure trivial

/-- A postfix takes a level for itself; what it holds and the rest of the chain keep theirs. -/
theorem sound_onePostfix (hr : Rules.Sound n r) (s : ParserState) (target : Expr) :
    Parser.Sound s (r.onePostfix target) fun ts e => ∀ us k c,
      Derives (.postfixed k target) us c → c ≤ n + 1 + k →
        ∃ k' c', Derives (.postfixed k' e) (us ++ ts) c' ∧ c' ≤ n + 1 + k := by
  refine sound_current ?_
  split
  · rename_i hk
    refine Sound.bind (sound_member hk) fun e s₁ => ?_
    refine (sound_postfixes hr s₁ e).mono fun ts e' hrest vs hvs us k c h hc => ?_
    obtain ⟨dot, t, name, nameSpan, span, rfl, hd, hn, rfl⟩ := hvs
    obtain ⟨k', c', h', hc'⟩ := hrest _ _ _ (h.property hd hn) (by omega)
    exact ⟨k', c', by simpa using h', by omega⟩
  · rename_i hk
    refine sound_advance (by simp [hk]) fun s₁ => ?_
    refine Sound.bind (hr.body s₁) fun i s₂ => ?_
    refine Sound.bind sound_closing fun stop s₃ => ?_
    refine (sound_postfixes hr s₃ _).mono fun ts e' hrest => ?_
    rintro _ ⟨t, rfl, ht⟩ is ⟨c₂, hc₂, hi⟩ us k c h hc
    obtain ⟨k', c', h', hc'⟩ := hrest _ _ _ (h.index hk hi ht) (by omega)
    exact ⟨k', c', by simpa using h', by omega⟩
  · rename_i hk
    refine sound_advance (by simp [hk]) fun s₁ => ?_
    refine Sound.bind (sound_arguments hr s₁ .rParen) fun args s₂ => ?_
    refine Sound.bind sound_closing fun stop s₃ => ?_
    refine (sound_postfixes hr s₃ _).mono fun ts e' hrest => ?_
    rintro _ ⟨t, rfl, ht⟩ is ⟨c₂, hc₂, hi⟩ us k c h hc
    obtain ⟨k', c', h', hc'⟩ := hrest _ _ _ (h.call hk hi ht) (by omega)
    exact ⟨k', c', by simpa using h', by omega⟩
  · refine sound_pure fun us k c h hc => ?_
    rw [List.append_nil]
    exact ⟨k, c, h, hc⟩

/-! ### What stands alone -/

theorem sound_braces (hr : Rules.Sound n r) (s : ParserState) (start : Nat) :
    Parser.Sound s (r.braces start) fun ts e => ∀ left : Token, left.kind = .sign .lBrace →
      ∃ c ≤ n, Derives (.primary e) (left :: ts) c := by
  refine sound_current (sound_eat (fun right hright s₁ => ?_) fun s₁ => ?_)
  · exact sound_pure fun left hleft => ⟨0, Nat.zero_le n, .emptyMap hleft hright⟩
  · refine Sound.bind (hr.body s₁) fun first s₂ => ?_
    refine sound_eat (fun colon hcolon s₃ => ?_) fun s₃ => ?_
    · refine Sound.bind (hr.body s₃) fun value s₄ => ?_
      refine Sound.bind (sound_moreEntries hr s₄) fun others s₅ => ?_
      refine Sound.bind sound_closing fun stop s₆ => sound_pure ?_
      rintro _ ⟨right, rfl, hright⟩ ts₃ ⟨c₃, hc₃, h₃⟩ ts₂ ⟨c₂, hc₂, h₂⟩ ts₁ ⟨c₁, hc₁, h₁⟩ left hleft
      exact ⟨max c₁ (max c₂ c₃), by omega, .map hleft h₁ hcolon h₂ h₃ hright⟩
    · refine Sound.bind (sound_moreItems hr s₃) fun others s₄ => ?_
      refine Sound.bind sound_closing fun stop s₅ => sound_pure ?_
      rintro _ ⟨right, rfl, hright⟩ ts₂ ⟨c₂, hc₂, h₂⟩ ts₁ ⟨c₁, hc₁, h₁⟩ left hleft
      exact ⟨max c₁ c₂, by omega, .set hleft h₁ h₂ hright⟩

/-- A token that is taken as it is. -/
theorem sound_leaf {s : ParserState} {e : Expr} (hk : s.current.kind ≠ .eof)
    (h : s.current.Readable → Derives (.primary e) [s.current] 0) :
    Parser.Sound s (advance >>= fun _ => pure e) fun ts e =>
      ∃ c ≤ n, Derives (.primary e) ts c :=
  sound_advance_readable hk fun _ => sound_pure fun hread => ⟨0, Nat.zero_le n, h hread⟩

theorem sound_literal {s : ParserState} {value : Literal} {span : Span}
    (h : Grammar.literal? s.current.kind = some value) :
    Parser.Sound s (advance >>= fun _ => pure (.literal value span)) fun ts e =>
      ∃ c ≤ n, Derives (.primary e) ts c :=
  sound_leaf (Token.readable_of_literal h).1 fun _ => .literal h

theorem sound_primary (hr : Rules.Sound n r) (s : ParserState) :
    Parser.Sound s r.primary fun ts e => ∃ c ≤ n, Derives (.primary e) ts c := by
  refine sound_current ?_
  split
  next hk => exact sound_literal (by rw [hk]; rfl)
  next hk => exact sound_literal (by rw [hk]; rfl)
  next hk => exact sound_literal (by rw [hk]; rfl)
  next hk => exact sound_literal (by rw [hk]; rfl)
  next hk => exact sound_literal (by rw [hk]; rfl)
  next hk => exact sound_leaf (by simp [hk]) fun _ => .identifier hk
  next hk => exact sound_leaf (by simp [hk]) fun hread => absurd hk hread.2
  next hk =>
    refine sound_advance (by simp [hk]) fun s₁ => ?_
    refine Sound.bind (hr.body s₁) fun e s₂ => ?_
    refine Sound.bind sound_closing fun _ s₃ => sound_pure ?_
    rintro _ ⟨right, rfl, hright⟩ ts ⟨c, hc, h⟩
    exact ⟨c, hc, .parentheses hk h hright⟩
  next hk =>
    refine sound_advance (by simp [hk]) fun s₁ => ?_
    refine Sound.bind (sound_arguments hr s₁ .rBracket) fun items s₂ => ?_
    refine Sound.bind sound_closing fun _ s₃ => sound_pure ?_
    rintro _ ⟨right, rfl, hright⟩ ts ⟨c, hc, h⟩
    exact ⟨c, hc, .list hk h hright⟩
  next hk =>
    refine sound_advance (by simp [hk]) fun s₁ => ?_
    exact (sound_braces hr s₁ _).mono fun ts e h => h s.current hk
  -- nothing begins here: a report, and the token is left to its owner or taken
  all_goals refine sound_unexpected (P := fun _ _ => True) fun s₁ => ?_
  all_goals first
    | exact sound_pure trivial
    | exact Sound.bind sound_advance_any fun _ _ => sound_pure fun _ _ => trivial

/-! ### Unary operators and chains of operators -/

theorem sound_prefixed (hr : Rules.Sound n r) (s : ParserState) :
    Parser.Sound s r.prefixed fun ts e => ∃ c ≤ n, Derives (.chain 0 0 e) ts c := by
  have haccess : Parser.Sound s (r.primary >>= r.postfixes) fun ts e =>
      ∃ c ≤ n, Derives (.chain 0 0 e) ts c := by
    refine Sound.bind (sound_primary hr s) fun e s₁ => ?_
    refine (sound_postfixes hr s₁ e).mono fun ts e' hrest => ?_
    rintro us ⟨c, hc, h⟩
    obtain ⟨k', c', h', hc'⟩ := hrest us 0 c (.unchained h) hc
    exact ⟨c', hc', .operand h'⟩
  refine sound_current ?_
  split
  · rename_i sign hk
    split
    · rename_i op ho
      refine sound_advance (by simp [hk]) fun s₁ => ?_
      refine Sound.bind (hr.unary s₁) fun operand s₂ => sound_pure ?_
      rintro ts ⟨c, hc, h⟩
      rw [List.append_nil]
      exact ⟨c + 1, hc, .unary hk (Grammar.mem_unary.mpr ho) h⟩
    · exact haccess
  · exact haccess

theorem sound_chainRest (hr : Rules.Sound n r) (s : ParserState) (l : Nat) (left : Expr) :
    Parser.Sound s (r.chainRest l left) fun ts e => ∀ us k c,
      Derives (.chain (l + 1) k left) us c → c ≤ n + k →
        ∃ k' c', Derives (.chain (l + 1) k' e) (us ++ ts) c' ∧ c' ≤ n + k := by
  refine sound_current ?_
  split
  · rename_i op ho
    obtain ⟨sign, hk, hmem⟩ := Grammar.exists_sign_of_operator? ho
    refine sound_advance (by simp [hk]) fun s₁ => ?_
    exact (hr.chain s₁ l op left).mono fun ts e h us k c hleft hc =>
      h us k c sign s.current hleft hc hk hmem
  · refine sound_pure fun us k c h hc => ?_
    rw [List.append_nil]
    exact ⟨k, c, h, hc⟩

theorem sound_climb (hr : Rules.Sound n r) :
    ∀ (l : Nat) (s : ParserState), Parser.Sound s (r.climb l) fun ts e =>
      ∃ k, ∃ c ≤ n, Derives (.chain l k e) ts c
  | 0, s => (sound_prefixed hr s).mono fun _ _ h => ⟨0, h⟩
  | l + 1, s => by
      refine Sound.bind (sound_climb hr l s) fun e s₁ => ?_
      refine (sound_chainRest hr s₁ l e).mono fun ts e' hrest => ?_
      rintro us ⟨k, c, hc, h⟩
      obtain ⟨k', c', h', hc'⟩ := hrest us 0 c (.single h) hc
      exact ⟨k', c', hc', h'⟩

theorem sound_rightOperand (hr : Rules.Sound n r) (s : ParserState) (l : Nat) (op : BinaryOp)
    (left : Expr) :
    Parser.Sound s (r.rightOperand l op left) fun ts e => ∀ us k c sign t,
      Derives (.chain (l + 1) k left) us c → c ≤ n + 1 + k → t.kind = .sign sign →
        (sign, op) ∈ Grammar.binaryAt l →
        ∃ k' c', Derives (.chain (l + 1) k' e) (us ++ t :: ts) c' ∧ c' ≤ n + 1 + k := by
  refine Sound.bind (sound_climb hr l s) fun right s₁ => ?_
  refine (sound_chainRest hr s₁ l _).mono fun ts e hrest => ?_
  rintro vs ⟨j, c₂, hc₂, h₂⟩ us k c sign t h hc ht ho
  obtain ⟨k', c', h', hc'⟩ := hrest _ _ _ (h.operator ht ho h₂) (by omega)
  exact ⟨k', c', by simpa using h', by omega⟩

/-! ### Whole expressions -/

theorem sound_conditional (hr : Rules.Sound n r) (s : ParserState) :
    Parser.Sound s r.conditional fun ts e => ∃ c ≤ n + 1, Derives (.expression e) ts c := by
  refine Sound.bind (sound_climb hr BinaryOp.loosest s) fun condition s₁ => ?_
  refine sound_eat (fun question hq s₂ => ?_) fun s₂ => ?_
  · refine Sound.bind (hr.body s₂) fun yes s₃ => ?_
    refine sound_eat (fun colon hcolon s₄ => ?_) fun s₄ => ?_
    · refine Sound.bind (hr.body s₄) fun no s₅ => sound_pure ?_
      rintro ts₃ ⟨c₃, hc₃, h₃⟩ ts₂ ⟨c₂, hc₂, h₂⟩ ts₁ ⟨k, c₁, hc₁, h₁⟩
      rw [List.append_nil]
      exact ⟨max c₁ (max c₂ c₃) + 1, by omega, .conditional h₁ hq h₂ hcolon h₃⟩
    · refine sound_unexpected (P := fun _ _ => True) fun s₅ => ?_
      exact sound_current (sound_pure trivial)
  · refine sound_pure ?_
    rintro ts ⟨k, c, hc, h⟩
    rw [List.append_nil]
    exact ⟨c + 1, by omega, .operation h⟩

theorem sound_lambda (hr : Rules.Sound n r) {s : ParserState}
    (h : lambdaAhead s.ahead = true) :
    Parser.Sound s r.lambda fun ts e => ∃ c ≤ n + 1, Derives (.expression e) ts c := by
  refine sound_current (Sound.bind (sound_lambdaHead h) fun params s₁ => ?_)
  refine Sound.bind (hr.body s₁) fun body s₂ => sound_pure ?_
  rintro ts ⟨c, hc, hb⟩ head hh
  rw [List.append_nil]
  exact ⟨c + 1, by omega, .lambda hh hb⟩

theorem sound_expression (hr : Rules.Sound n r) (s : ParserState) :
    Parser.Sound s r.expression fun ts e => ∃ c ≤ n + 1, Derives (.expression e) ts c := by
  refine sound_get ?_
  split
  · rename_i h
    exact sound_lambda hr h
  · exact sound_conditional hr s

/-- One more level: the rules built from sound rules are sound. -/
theorem Rules.Sound.within (hr : Rules.Sound n r) : Rules.Sound (n + 1) r.within where
  body := sound_expression hr
  unary s := (sound_prefixed hr s).mono fun _ _ ⟨c, hc, h⟩ => ⟨c, Nat.lt_succ_of_le hc, h⟩
  access := sound_onePostfix hr
  chain := sound_rightOperand hr

end Level

/-- **The rules of every budget are sound.** -/
theorem Rules.sound_withBudget : ∀ n, Rules.Sound n (withBudget n)
  | 0 => sound_exhausted
  | n + 1 => (sound_withBudget n).within

/-! ## 6. Whole inputs -/

theorem Parser.sound_finish {s : ParserState} : Parser.Sound s (modify ParserState.finish)
    fun ts _ => ts = s.ahead :=
  fun hs => ⟨⟨hs.eof, hs.reported⟩, fun hd => ⟨hd, s.ahead, (List.append_nil _).symm, fun _ => rfl⟩⟩

/-- What is skipped in silence after an expression is nothing or cannot be read. -/
theorem sound_trailing {s : ParserState} : Parser.Sound s trailing fun ts _ => ts = [] := by
  have hsilent : ∀ kind : TokenKind, s.current.kind = kind → kind = .eof ∨ kind = .invalid →
      Parser.Sound s (modify ParserState.finish) fun ts _ => ts = [] := by
    rintro kind hk hkind hs
    obtain ⟨hs', hq⟩ := sound_finish hs
    refine ⟨hs', fun hd => ?_⟩
    obtain ⟨hd', ts, hts, hgood⟩ := hq hd
    refine ⟨hd', ts, hts, fun hread => ?_⟩
    obtain rfl := hgood hread
    cases ha : s.ahead with
    | nil => rfl
    | cons t rest =>
      have ht : t.kind = kind := by simpa [ParserState.current, ha] using hk
      have htread := hread t (by rw [ha]; exact List.mem_cons_self)
      rcases hkind with rfl | rfl
      · exact absurd ht htread.1
      · exact absurd ht htread.2
  refine sound_current ?_
  split
  · rename_i hk
    exact hsilent _ hk (.inl rfl)
  · rename_i hk
    exact hsilent _ hk (.inr rfl)
  · exact sound_report fun _ => sound_finish.mono fun _ _ _ => trivial
  · exact sound_unexpected fun _ => sound_finish.mono fun _ _ _ => trivial

theorem sound_whole {s : ParserState} :
    Parser.Sound s whole fun ts e => ∃ c ≤ maxDepth, Derives (.expression e) ts c := by
  refine sound_current ?_
  split
  · exact sound_report (P := fun _ _ => True) fun _ => sound_pure trivial
  · refine Sound.bind ((Rules.sound_withBudget maxDepth).body s) fun e s₁ => ?_
    refine Sound.bind sound_trailing fun _ s₂ => sound_pure ?_
    rintro _ rfl ts h
    rw [List.append_nil, List.append_nil]
    exact h

/-- After an expression nothing is left over. -/
theorem ahead_trailing (s : ParserState) : (trailing.run s).2.ahead = [] := by
  have hlook : ∀ f : Token → Parser Unit, ((f s.current).run s).2.ahead = [] →
      ((current >>= f).run s).2.ahead = [] := fun _ h => h
  refine hlook _ ?_
  split <;> rfl

theorem ahead_whole {s : ParserState} (hs : s.Sane) (h : (whole.run s).2.diagnostics = []) :
    (whole.run s).2.ahead = [] := by
  have hlook : ∀ f : Token → Parser Expr,
      (((f s.current).run s).2.diagnostics = [] → ((f s.current).run s).2.ahead = []) →
      ((current >>= f).run s).2.diagnostics = [] → ((current >>= f).run s).2.ahead = [] :=
    fun _ h => h
  refine hlook _ ?_ h
  split
  · exact fun hd => absurd hd (hs.report _ _).2
  · exact fun _ => ahead_trailing _

/-- The state before anything was read from readable tokens and their end. -/
theorem ParserState.ofTokens_eofAt {ts : List Token} (n : Nat) (h : ∀ t ∈ ts, t.Readable) :
    (ofTokens (ts ++ [Token.eofAt n])).Sane ∧ (ofTokens (ts ++ [Token.eofAt n])).ahead = ts := by
  have hat := at_ofTokens_append (fun t ht => (h t ht).1) [Token.eofAt n] rfl
  exact ⟨⟨hat.eof, fun ht => absurd ht (by simp [ofTokens])⟩, hat.ahead⟩

/-- If nothing is reported about readable tokens, they derive the tree. -/
theorem derives_of_parseTokens {ts : List Token} {n : Nat} (hread : ∀ t ∈ ts, t.Readable)
    (h : (parseTokens (ts ++ [Token.eofAt n])).diagnostics = []) :
    ∃ c ≤ maxDepth, Derives (.expression (parseTokens (ts ++ [Token.eofAt n])).root) ts c := by
  obtain ⟨hs, hahead⟩ := ParserState.ofTokens_eofAt n hread
  obtain ⟨-, us, hus, hgood⟩ := (sound_whole hs).2 h
  rw [ahead_whole hs h, List.append_nil, hahead] at hus
  subst hus
  exact hgood hread

/-! ## 7. Whole texts -/

theorem Diagnostic.sort_eq_nil {ds : List Diagnostic} (h : sort ds = []) : ds = [] := by
  have hperm : (sort ds).Perm ds := List.mergeSort_perm _ _
  rw [h] at hperm
  exact hperm.nil_eq.symm

/-- If nothing is reported about a text, it was read without an error, and its tokens derive
    its tree. -/
theorem exists_derivation {source : List Char} {offset : Nat}
    (h : (parseExpression source offset).diagnostics = []) :
    (lex source offset).errors = [] ∧ ∃ ts, ∃ c ≤ maxDepth,
      (lex source offset).tokens = ts ++ [Token.eofAt (offset + Text.byteLength source)] ∧
      Derives (.expression (parseExpression source offset).root) ts c := by
  rw [parseExpression_eq] at h ⊢
  obtain ⟨hreports, hdiagnostics⟩ := List.append_eq_nil_iff.mp (Diagnostic.sort_eq_nil h)
  have herrors : (lex source offset).errors = [] := List.map_eq_nil_iff.mp hreports
  obtain ⟨ts, hts, heof, hinvalid⟩ := lexFrom_tokens 0 offset source
  have hread : ∀ t ∈ ts, t.Readable := fun t ht => ⟨heof t ht, hinvalid herrors t ht⟩
  have htokens : (lex source offset).tokens = _ := hts
  rw [htokens] at hdiagnostics ⊢
  obtain ⟨c, hc, hd⟩ := derives_of_parseTokens hread hdiagnostics
  exact ⟨herrors, ts, c, hc, rfl, hd⟩

/-- **Soundness.** If nothing is reported about a text, its tokens before the end derive the
    tree within the nesting bound, and the tree has neither error nodes nor missing names. -/
theorem derives_of_parseExpression {source : List Char} {offset : Nat}
    (h : (parseExpression source offset).diagnostics = []) :
    ∃ ts c, (lex source offset).tokens =
        ts ++ [Token.eofAt (offset + Text.byteLength source)] ∧
      Derives (.expression (parseExpression source offset).root) ts c ∧ c ≤ maxDepth ∧
      (parseExpression source offset).root.Gapless := by
  obtain ⟨-, ts, c, hc, htokens, hd⟩ := exists_derivation h
  exact ⟨ts, c, htokens, hd, hc, hd.gapless _ (List.mem_singleton_self _)⟩

/-- A keyword after a dot is a name, and the outer colon ends the map's key: `{-a.not: [1]}`. -/
theorem derives_keyword_member :
    let source := ['{', '-', 'a', '.', 'n', 'o', 't', ':', ' ', '[', '1', ']', '}']
    (parseExpression source 0).diagnostics = [] ∧
      ∃ ts c, (lex source 0).tokens = ts ++ [Token.eofAt (0 + Text.byteLength source)] ∧
        Derives (.expression (parseExpression source 0).root) ts c ∧ c ≤ maxDepth ∧
        (parseExpression source 0).root.Gapless := by
  intro source
  have h : (parseExpression source 0).diagnostics = [] := by cbv
  exact ⟨h, derives_of_parseExpression h⟩

end FlowExpr
