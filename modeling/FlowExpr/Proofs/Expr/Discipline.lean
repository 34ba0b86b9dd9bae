import FlowExpr.Proofs.Expr.Trace

/-!
# The counters of the parser are in order

The parser that counts does what the parser does, and every record of its journal is as it should
be.

* `ParserState.Proceeds`: how the state changes, at every step and over every call;
* `Record.Orderly`, `Leads`: what holds of a record, and how the records of a run follow one
  another;
* `Tracer.Tracks`: a run with the result of the parser and an orderly journal. One rule for each
  way of putting runs together;
* `Tracer.Rules.Tracked`: the rules at a depth track those with the levels that are left, which
  `tracked_levels` proves by induction on these;
* `Snapshot.Sound`, `Record.Sound`: the same in terms of the list of tokens and a position in it;
* `parseTokens_disciplined`: a whole input.
-/

namespace FlowExpr

/-! ## 1. How the state changes -/

namespace ParserState

variable {s s₁ s' : ParserState} {t : Token} {rest : List Token}

/-- Tokens were taken and diagnostics added; once the rest was skipped, none are added, and
    nothing is left. -/
structure Proceeds (s s' : ParserState) : Prop where
  eof : s'.eof = s.eof
  taken : ∃ ts, s.ahead = ts ++ s'.ahead ∧
    s'.lastEnd = (ts.getLast?.map fun t => t.span.stop).getD s.lastEnd
  reports : s.diagnostics <+: s'.diagnostics
  silent : s.truncated = true → s'.truncated = true ∧ s'.diagnostics = s.diagnostics
  ended : s'.truncated = true → s.truncated = true ∨ s'.ahead = []

theorem proceeds_refl (s : ParserState) : s.Proceeds s where
  eof := rfl
  taken := ⟨[], rfl, rfl⟩
  reports := List.prefix_rfl
  silent h := ⟨h, rfl⟩
  ended := .inl

theorem Proceeds.trans (h : s.Proceeds s₁) (h' : s₁.Proceeds s') : s.Proceeds s' where
  eof := h'.eof.trans h.eof
  taken := by
    obtain ⟨ts, hts, hlast⟩ := h.taken
    obtain ⟨ts', hts', hlast'⟩ := h'.taken
    refine ⟨ts ++ ts', ?_, ?_⟩
    · rw [hts, hts', List.append_assoc]
    · rw [hlast', hlast, List.getLast?_append]
      cases ts'.getLast? <;> rfl
  reports := h.reports.trans h'.reports
  silent ht :=
    have ⟨ht₁, hd₁⟩ := h.silent ht
    have ⟨ht', hd'⟩ := h'.silent ht₁
    ⟨ht', hd'.trans hd₁⟩
  ended ht' := by
    rcases h'.ended ht' with ht₁ | hnil
    · refine (h.ended ht₁).imp_right fun hnil => ?_
      obtain ⟨ts', hts', -⟩ := h'.taken
      rw [hnil] at hts'
      exact (List.append_eq_nil_iff.mp hts'.symm).2
    · exact .inr hnil

theorem proceeds_advance (s : ParserState) : s.Proceeds s.advance := by
  unfold advance
  split
  · exact s.proceeds_refl
  · rename_i t rest hahead
    exact ⟨rfl, ⟨[t], hahead, rfl⟩, List.prefix_rfl, fun h => ⟨h, rfl⟩, .inl⟩

theorem proceeds_report (s : ParserState) (span : Span) (problem : Problem) :
    s.Proceeds (s.report span problem) := by
  unfold report
  split
  · exact s.proceeds_refl
  · rename_i h
    exact ⟨rfl, ⟨[], rfl, rfl⟩, List.prefix_append _ _, fun ht => absurd ht h, .inl⟩

theorem proceeds_truncate (h : s.ahead = []) : s.Proceeds { s with truncated := true } where
  eof := rfl
  taken := ⟨[], rfl, rfl⟩
  reports := List.prefix_rfl
  silent _ := ⟨rfl, rfl⟩
  ended _ := .inr h

/-! ### Taking and skipping many tokens -/

/-- Tokens were taken, and others are left. -/
def past (s : ParserState) (taken rest : List Token) : ParserState :=
  { s with
    ahead := rest
    lastEnd := (taken.getLast?.map fun t => t.span.stop).getD s.lastEnd }

theorem past_nil (h : s.ahead = rest) : s.past [] rest = s := by
  subst h
  rfl

theorem past_past (s : ParserState) (ts mid ts' rest : List Token) :
    (s.past ts mid).past ts' rest = s.past (ts ++ ts') rest := by
  unfold past
  rw [List.getLast?_append]
  cases ts'.getLast? <;> rfl

theorem past_concat (s : ParserState) (ts : List Token) (t : Token) (rest : List Token) :
    s.past (ts ++ [t]) rest = { s with ahead := rest, lastEnd := t.span.stop } := by
  unfold past
  rw [List.getLast?_append]
  rfl

theorem advance_eq_past (h : s.ahead = t :: rest) : s.advance = s.past [t] rest := by
  unfold advance
  rw [h]
  rfl

theorem current_eq_head (h : s.ahead = t :: rest) : s.current = t := by
  unfold current
  rw [h]
  rfl

/-- Skip with a number of delimiters open. -/
def skipFrom (s : ParserState) (balance : Nat) : ParserState :=
  let tokens := skipped balance s.ahead
  let rest := s.ahead.drop tokens.length
  { s.past tokens rest with truncated := s.truncated || rest.isEmpty }

theorem skipFrom_nil (h : s.ahead = []) (balance : Nat) :
    s.skipFrom balance = { s with truncated := true } := by
  unfold skipFrom past
  rw [h, skipped]
  simp

theorem skipFrom_stop {balance : Nat} (hs : s.ahead = t :: rest)
    (h : skipped balance (t :: rest) = []) : s.skipFrom balance = s := by
  have hne : s.ahead.isEmpty = false := by rw [hs]; rfl
  unfold skipFrom
  rw [hs, h, ← hs]
  simp [hne, past]

theorem skipFrom_cons {balance balance' : Nat} (hs : s.ahead = t :: rest)
    (h : skipped balance (t :: rest) = t :: skipped balance' rest) :
    s.skipFrom balance = (s.past [t] rest).skipFrom balance' := by
  have hpast := s.past_past [t] rest (skipped balance' rest)
    (rest.drop (skipped balance' rest).length)
  have hahead : (s.past [t] rest).ahead = rest := rfl
  simp only [skipFrom, hs, h, hahead, hpast, List.length_cons, List.drop_succ_cons]
  rfl

end ParserState

/-! ## 2. Records -/

/-- A snapshot on the way, with a depth between zero and `maxDepth`. -/
structure Snapshot.Reached (start : ParserState) (x : Snapshot) : Prop where
  state : start.Proceeds x.state
  depth_nonneg : 0 ≤ x.depth
  depth_le : x.depth ≤ maxDepth

/-- A record of something that kept order. -/
structure Record.Orderly (start : ParserState) (r : Record) : Prop where
  before : r.before.Reached start
  after : r.after.Reached start
  onward : r.before.state.Proceeds r.after.state
  returns : ∀ routine, r.act = .call routine → r.after.depth = r.before.depth
  balanced : ∀ balance, r.act = .skip balance → 0 ≤ balance

/-- The record is written at a snapshot: a change begins there, and a call returns there. -/
def Record.At (x : Snapshot) (r : Record) : Prop :=
  match r.act with
  | .call _ => r.after = x
  | _ => r.before = x

/-- The records lead from one snapshot to the other, and no change is missing. -/
def Leads : Snapshot → List Record → Snapshot → Prop
  | x, [], y => x = y
  | x, r :: rest, y => r.At x ∧ Leads r.after rest y

theorem Leads.append {x y z : Snapshot} {log log' : List Record} (h : Leads x log y)
    (h' : Leads y log' z) : Leads x (log ++ log') z := by
  induction log generalizing x with
  | nil =>
    cases h
    exact h'
  | cons r log ih => exact ⟨h.1, ih h.2⟩

/-- Records that lead from one snapshot to the other, in order. -/
structure Tells (start : ParserState) (x : Snapshot) (log : List Record) (y : Snapshot) : Prop where
  leads : Leads x log y
  orderly : ∀ r ∈ log, r.Orderly start

section Tells

variable {start : ParserState} {x y z : Snapshot} {log log' : List Record}

theorem tells_nil (x : Snapshot) : Tells start x [] x :=
  ⟨rfl, fun _ hr => absurd hr List.not_mem_nil⟩

theorem tells_change {act : Act} (hact : ∀ routine, act ≠ .call routine)
    (h : Record.Orderly start ⟨act, x, y⟩) : Tells start x [⟨act, x, y⟩] y := by
  refine ⟨⟨?_, rfl⟩, fun r hr => List.mem_singleton.mp hr ▸ h⟩
  cases act with
  | call routine => exact absurd rfl (hact routine)
  | _ => exact rfl

theorem Tells.append (h : Tells start x log y) (h' : Tells start y log' z) :
    Tells start x (log ++ log') z :=
  ⟨h.leads.append h'.leads, fun r hr =>
    (List.mem_append.mp hr).elim (h.orderly r) (h'.orderly r)⟩

/-- What the records lead to is reached. -/
theorem Tells.reached (h : Tells start x log y) (hx : x.Reached start) :
    y.Reached start ∧ x.state.Proceeds y.state := by
  obtain ⟨hleads, horderly⟩ := h
  induction log generalizing x with
  | nil =>
    cases hleads
    exact ⟨hx, ParserState.proceeds_refl _⟩
  | cons r log ih =>
    have hr := horderly r List.mem_cons_self
    -- a call returns at `x`, and every other record begins there
    have hnext : x.state.Proceeds r.after.state := by
      have hat := hleads.1
      unfold Record.At at hat
      split at hat
      · exact hat ▸ r.after.state.proceeds_refl
      · exact hat ▸ hr.onward
    have hy := ih hr.after hleads.2 fun r' hr' => horderly r' (List.mem_cons_of_mem r hr')
    exact ⟨hy.1, hnext.trans hy.2⟩

/-- A call that returns with the depth that it began with is put behind its own records. -/
theorem Tells.call (h : Tells start x log y) (hx : x.Reached start) (hd : y.depth = x.depth)
    (routine : Routine) : Tells start x (log ++ [⟨.call routine, x, y⟩]) y := by
  obtain ⟨hy, honward⟩ := h.reached hx
  refine h.append ⟨⟨rfl, rfl⟩, fun r hr => List.mem_singleton.mp hr ▸ ?_⟩
  exact ⟨hx, hy, honward, fun _ _ => hd, nofun⟩

end Tells

/-! ## 3. Runs -/

namespace Tracer

variable {α β : Type} {start s : ParserState} {d : Int} {exit : Int → Prop}

/-- From a state and a depth, the run ends with the result and a depth as described, and what it
    writes into the journal is in order. -/
def Tracks (start s : ParserState) (d : Int) (t : Tracer α) (result : α × ParserState)
    (exit : Int → Prop) : Prop :=
  Snapshot.Reached start ⟨s, d⟩ → ∃ d' log, exit d' ∧ Tells start ⟨s, d⟩ log ⟨result.2, d'⟩ ∧
    ∀ earlier, t.run ⟨⟨s, d⟩, earlier⟩ = (result.1, ⟨⟨result.2, d'⟩, earlier ++ log⟩)

/-- The run ends with the depth that it began with. -/
abbrev Keeps (start s : ParserState) (d : Int) (t : Tracer α) (result : α × ParserState) : Prop :=
  Tracks start s d t result (· = d)

/-- The run may have taken levels. -/
abbrev Drifts (start s : ParserState) (d : Int) (t : Tracer α) (result : α × ParserState) : Prop :=
  Tracks start s d t result fun _ => True

/-! ### Putting runs together -/

section Combinators

variable {t : Tracer α} {p : Parser α} {q : α × ParserState} {a : α}

theorem keeps_pure : Keeps start s d (pure a) (a, s) :=
  fun _ => ⟨d, [], rfl, tells_nil _, fun earlier => by rw [List.append_nil]; rfl⟩

theorem Tracks.drifts (h : Tracks start s d t q exit) : Drifts start s d t q := fun hx =>
  have ⟨d', log, _, htells, hrun⟩ := h hx
  ⟨d', log, trivial, htells, hrun⟩

/-- One run after another, in general. -/
theorem Tracks.seq {f : α → Tracer β} {q' : β × ParserState} {mid : Int → Prop}
    (h : Tracks start s d t q mid)
    (hf : ∀ d', mid d' → Tracks start q.2 d' (f q.1) q' exit) :
    Tracks start s d (t >>= f) q' exit := by
  intro hx
  obtain ⟨d₁, log₁, hd₁, htells₁, hrun₁⟩ := h hx
  obtain ⟨d₂, log₂, hd₂, htells₂, hrun₂⟩ := hf d₁ hd₁ (htells₁.reached hx).1
  refine ⟨d₂, log₁ ++ log₂, hd₂, htells₁.append htells₂, fun earlier => ?_⟩
  have hbind : (t >>= f).run ⟨⟨s, d⟩, earlier⟩ =
      (f (t.run ⟨⟨s, d⟩, earlier⟩).1).run (t.run ⟨⟨s, d⟩, earlier⟩).2 := rfl
  rw [hbind, hrun₁, hrun₂, List.append_assoc]

/-- One run after another that gives all its levels back. -/
theorem Tracks.next {f : α → Tracer β} {q' : β × ParserState} (h : Keeps start s d t q)
    (hf : Tracks start q.2 d (f q.1) q' exit) : Tracks start s d (t >>= f) q' exit :=
  h.seq fun _ hd => hd ▸ hf

/-- The same where the parser runs one thing after another, too. -/
theorem Tracks.bind {f : α → Tracer β} {g : α → Parser β} (h : Keeps start s d t (p.run s))
    (hf : ∀ a s', Tracks start s' d (f a) ((g a).run s') exit) :
    Tracks start s d (t >>= f) ((p >>= g).run s) exit :=
  h.next (hf _ _)

theorem tracks_ite {c : Prop} [Decidable c] {t' : Tracer α} {p' : Parser α}
    (h : c → Tracks start s d t (p.run s) exit) (h' : ¬c → Tracks start s d t' (p'.run s) exit) :
    Tracks start s d (if c then t else t') ((if c then p else p').run s) exit := by
  by_cases hc : c
  · rw [if_pos hc, if_pos hc]
    exact h hc
  · rw [if_neg hc, if_neg hc]
    exact h' hc

/-- A call that gives all its levels back. -/
theorem Tracks.call (h : Keeps start s d t q) (routine : Routine) :
    Keeps start s d (call routine t) q := by
  intro hx
  obtain ⟨d', log, hd, htells, hrun⟩ := h hx
  refine ⟨d', _, hd, htells.call hx hd routine, fun earlier => ?_⟩
  have hcall : (Tracer.call routine t).run ⟨⟨s, d⟩, earlier⟩ =
      ((t.run ⟨⟨s, d⟩, earlier⟩).1,
        ⟨(t.run ⟨⟨s, d⟩, earlier⟩).2.now, (t.run ⟨⟨s, d⟩, earlier⟩).2.records ++
          [⟨.call routine, ⟨s, d⟩, (t.run ⟨⟨s, d⟩, earlier⟩).2.now⟩]⟩) := rfl
  rw [hcall, hrun, List.append_assoc]

/-! ### Looking -/

theorem tracks_current {f : Token → Tracer α} {g : Token → Parser α}
    (h : ∀ token, Tracks start s d (f token) ((g token).run s) exit) :
    Tracks start s d (current >>= f) ((Parser.current >>= g).run s) exit := h s.current

/-- Looking changes nothing. -/
theorem tracks_look {f : Token → Tracer α} (h : Tracks start s d (f s.current) q exit) :
    Tracks start s d (current >>= f) q exit := h

theorem tracks_ahead {f : List Token → Tracer α} (h : Tracks start s d (f s.ahead) q exit) :
    Tracks start s d (ahead >>= f) q exit := h

theorem tracks_lastEnd {f : Nat → Tracer α} (h : Tracks start s d (f s.lastEnd) q exit) :
    Tracks start s d (lastEnd >>= f) q exit := h

theorem tracks_depth {f : Int → Tracer α} (h : Tracks start s d (f d) q exit) :
    Tracks start s d (depth >>= f) q exit := h

end Combinators

/-! ### Changes -/

theorem keeps_change {act : Act} {f : ParserState → ParserState}
    (hcall : ∀ routine, act ≠ .call routine) (hskip : ∀ balance, act = .skip balance → 0 ≤ balance)
    (hf : s.Proceeds (f s)) : Keeps start s d (change act f) ((), f s) := by
  intro hx
  have hy : Snapshot.Reached start ⟨f s, d⟩ := ⟨hx.state.trans hf, hx.depth_nonneg, hx.depth_le⟩
  exact ⟨d, _, rfl, tells_change hcall ⟨hx, hy, hf, fun _ _ => rfl, hskip⟩, fun _ => rfl⟩

theorem tracks_setDepth {d' : Int} (h : 0 ≤ d') (h' : d' ≤ maxDepth) :
    Tracks start s d (setDepth d') ((), s) (· = d') := by
  intro hx
  have hy : Snapshot.Reached start ⟨s, d'⟩ := ⟨hx.state, h, h'⟩
  have htells : Tells start ⟨s, d⟩ [⟨.level, ⟨s, d⟩, ⟨s, d'⟩⟩] ⟨s, d'⟩ :=
    tells_change nofun ⟨hx, hy, s.proceeds_refl, nofun, nofun⟩
  exact ⟨d', _, rfl, htells, fun _ => rfl⟩

theorem keeps_advance : Keeps start s d advance ((), s.advance) :=
  keeps_change nofun nofun s.proceeds_advance

/-- The next token is taken. -/
theorem tracks_take {token : Token} {rest : List Token} {f : Unit → Tracer α}
    {q : α × ParserState} (hs : s.ahead = token :: rest)
    (h : Tracks start (s.past [token] rest) d (f ()) q exit) :
    Tracks start s d (advance >>= f) q exit :=
  keeps_advance.next (ParserState.advance_eq_past hs ▸ h)

theorem keeps_skip (balance : Nat) : Keeps start s d (skip balance) ((), s.advance) := by
  refine keeps_change nofun (fun b hb => ?_) s.proceeds_advance
  cases hb
  exact Int.natCast_nonneg balance

theorem keeps_report (span : Span) (problem : Problem) :
    Keeps start s d (report span problem) ((), s.report span problem) :=
  keeps_change nofun nofun (s.proceeds_report span problem)

theorem keeps_truncate (h : s.ahead = []) :
    Keeps start s d truncate ((), { s with truncated := true }) :=
  keeps_change nofun nofun (ParserState.proceeds_truncate h)

theorem keeps_unexpected (expected : Expected) :
    Keeps start s d (unexpected expected) ((Parser.unexpected expected).run s) :=
  Tracks.call (tracks_look (keeps_report _ _)) .unexpected

theorem keeps_eat (sign : Sign) : Keeps start s d (eat sign) ((Parser.eat sign).run s) :=
  tracks_current fun _ =>
    tracks_ite (fun _ => keeps_advance.bind fun _ _ => keeps_pure) fun _ => keeps_pure

theorem keeps_closing (sign : Sign) (delimiter : Char) :
    Keeps start s d (closing sign delimiter) ((Parser.closing sign delimiter).run s) := by
  refine Tracks.call (tracks_current fun _ => (keeps_eat sign).bind fun _ _ => ?_) .closing
  refine tracks_ite (fun _ => keeps_pure) fun _ => ?_
  exact (keeps_report _ _).bind fun _ _ => keeps_pure

/-! ### Giving up -/

/-- Skipping token by token is skipping all of them, and the balance is never below zero. -/
theorem keeps_skipOver (balance : Nat) (ts : List Token) (hs : s.ahead = ts) :
    Keeps start s d (skipOver balance ts) ((), s.skipFrom balance) := by
  induction ts generalizing balance s with
  | nil =>
    rw [ParserState.skipFrom_nil hs]
    exact keeps_truncate hs
  | cons t rest ih =>
    -- a token is skipped, and the rest with another balance
    have hskip : ∀ balance' : Nat,
        ParserState.skipped balance (t :: rest) = t :: ParserState.skipped balance' rest →
        Keeps start s d (skip balance' >>= fun _ => skipOver balance' rest)
          ((), s.skipFrom balance) := by
      intro balance' h
      rw [ParserState.skipFrom_cons hs h, ← ParserState.advance_eq_past hs]
      refine (keeps_skip balance').next (ih balance' ?_)
      rw [ParserState.advance_eq_past hs]
      rfl
    have hcons := ParserState.skipped_cons balance t rest
    unfold skipOver
    by_cases ho : t.isOpening = true
    · rw [if_pos ho] at hcons ⊢
      exact hskip (balance + 1) hcons
    · rw [if_neg ho] at hcons ⊢
      by_cases hc : t.isClosing = true
      · rw [if_pos hc] at hcons ⊢
        cases balance with
        | zero =>
          rw [ParserState.skipFrom_stop hs hcons]
          exact keeps_pure
        | succ balance =>
          have hless : ((balance + 1 : Nat) : Int) - 1 = balance := by omega
          rw [if_neg (by omega), hless]
          exact hskip balance hcons
      · rw [if_neg hc] at hcons ⊢
        exact hskip balance hcons

/-- In `(]x}`, delimiters count whatever they are, and the last one belongs to what is around. -/
example :
    let token (kind : TokenKind) (i : Nat) : Token := ⟨kind, "", ⟨i, i + 1⟩⟩
    let tokens := [token (.sign .lParen) 0, token (.sign .rBracket) 1, token (.identifier "x") 2,
      token (.sign .rBrace) 3]
    ((skipOver 0 tokens).run (.start tokens)).2.records.map Record.act =
      [.skip 1, .skip 0, .skip 0] := by
  decide

theorem keeps_tooDeep : Keeps start s d tooDeep (Parser.tooDeep.run s) := by
  refine Tracks.call (tracks_current fun token => (keeps_report _ _).bind fun _ s' => ?_) .tooDeep
  refine tracks_ahead ((keeps_skipOver 0 _ rfl).next ?_)
  exact tracks_lastEnd keeps_pure

/-! ### Levels -/

section Levels

variable {t : Tracer Expr} {q : Expr × ParserState}

theorem tracks_descend {f : Bool → Tracer Expr} (hd : d < maxDepth)
    (h : Tracks start s (d + 1) (f true) q exit) : Tracks start s d (descend >>= f) q exit := by
  intro hx
  have hnonneg : 0 ≤ d := hx.depth_nonneg
  have hdescend : Tracks start s d descend (true, s) (· = d + 1) := by
    refine tracks_depth ?_
    rw [if_pos hd]
    exact (tracks_setDepth (by omega) (by omega)).seq fun _ hd' => hd' ▸ keeps_pure
  exact hdescend.seq (fun _ hd' => hd' ▸ h) hx

theorem tracks_descend_not {f : Bool → Tracer Expr} (hd : ¬d < maxDepth)
    (h : Tracks start s d (f false) q exit) : Tracks start s d (descend >>= f) q exit := by
  have hdescend : Keeps start s d descend (false, s) := by
    refine tracks_depth ?_
    rw [if_neg hd]
    exact keeps_pure
  exact hdescend.next h

/-- Reading with a level of its own gives the level back. -/
theorem keeps_nested (hd : d < maxDepth) (h : Keeps start s (d + 1) t q) :
    Keeps start s d (nested t) q := by
  refine Tracks.call (fun hx => ?_) .nested
  refine tracks_descend hd (h.seq fun d' hd' => ?_) hx
  -- what is read keeps its depth, so one step leads back to where the call began
  subst hd'
  refine tracks_depth ?_
  rw [Int.add_sub_cancel]
  exact (tracks_setDepth hx.depth_nonneg hx.depth_le).seq fun _ hd' => hd' ▸ keeps_pure

theorem keeps_nested_tooDeep (hd : ¬d < maxDepth) :
    Keeps start s d (nested t) (Parser.tooDeep.run s) :=
  Tracks.call (tracks_descend_not hd keeps_tooDeep) .nested

/-- Levels taken on the way are free again. -/
theorem keeps_restoring (h : Tracks start s d t q exit) : Keeps start s d (restoring t) q := by
  intro hx
  refine tracks_depth (h.seq fun d' _ => ?_) hx
  exact (tracks_setDepth hx.depth_nonneg hx.depth_le).seq fun _ hd => hd ▸ keeps_pure

end Levels

/-! ### Rows -/

theorem keeps_afterCommasUpTo {item : Tracer α} {item' : Parser α}
    (h : ∀ s, Keeps start s d item (item'.run s)) :
    ∀ (n : Nat) (s : ParserState), Keeps start s d (afterCommasUpTo item n)
      ((Parser.afterCommasUpTo item' n).run s)
  | 0, _ => keeps_pure
  | n + 1, _ => by
    refine (keeps_eat .comma).bind fun _ _ => tracks_ite (fun _ => ?_) fun _ => keeps_pure
    refine (h _).bind fun _ s' => ?_
    exact (keeps_afterCommasUpTo h n s').bind fun _ _ => keeps_pure

theorem keeps_afterCommas {item : Tracer α} {item' : Parser α}
    (h : ∀ s, Keeps start s d item (item'.run s)) :
    Keeps start s d (afterCommas item) ((Parser.afterCommas item').run s) :=
  tracks_ahead (keeps_afterCommasUpTo h s.ahead.length s)

theorem keeps_commaSeparated {item : Tracer Expr} {item' : Parser Expr}
    (h : ∀ s, Keeps start s d item (item'.run s)) (close : Sign) :
    Keeps start s d (commaSeparated item close) ((Parser.commaSeparated item' close).run s) := by
  refine Tracks.call (tracks_current fun _ => tracks_ite (fun _ => keeps_pure) fun _ => ?_) .row
  refine (h _).bind fun _ _ => (keeps_afterCommas h).bind fun _ _ => keeps_pure

/-! ### Lambda heads -/

section Heads

variable {t c : Token} {rest : List Token} {f : Bool → Tracer α} {q : α × ParserState} {sign : Sign}

theorem tracks_eat_next (hs : s.ahead = t :: rest) (hk : t.kind = .sign sign)
    (h : Tracks start (s.past [t] rest) d (f true) q exit) :
    Tracks start s d (eat sign >>= f) q exit := by
  have heat : (Parser.eat sign).run s = (true, s.past [t] rest) := by
    rw [Parser.run_eat, if_pos (by rw [ParserState.current_eq_head hs, hk]),
      ParserState.advance_eq_past hs]
  exact (heat ▸ keeps_eat sign).next h

theorem tracks_eat_other (hs : s.ahead = t :: rest) (hk : t.kind ≠ .sign sign)
    (h : Tracks start s d (f false) q exit) : Tracks start s d (eat sign >>= f) q exit := by
  have heat : (Parser.eat sign).run s = (false, s) := by
    rw [Parser.run_eat, if_neg (by rwa [ParserState.current_eq_head hs])]
  exact (heat ▸ keeps_eat sign).next h

theorem keeps_closing_next {delimiter : Char} (hs : s.ahead = t :: rest)
    (hk : t.kind = .sign sign) :
    Keeps start s d (closing sign delimiter) (t.span.stop, s.past [t] rest) := by
  refine Tracks.call (tracks_look (tracks_eat_next hs hk ?_)) .closing
  rw [ParserState.current_eq_head hs]
  exact keeps_pure

theorem keeps_namesUpTo {ts : List Token} {names : List String} (h : NameRow ts names)
    (hc : c.kind = .sign .rParen) {n : Nat} (hn : ts.length ≤ n) (hs : s.ahead = ts ++ c :: rest) :
    Keeps start s d (namesUpTo n) (Parser.headParams (ts ++ [c]), s.past ts (c :: rest)) := by
  induction h generalizing s n with
  | @last t name h =>
    obtain ⟨n, rfl⟩ : ∃ m, n = m + 1 := ⟨n - 1, by simp at hn; omega⟩
    have hparams : Parser.headParams ([t] ++ [c]) = [⟨name, t.span⟩] := by
      simp [Parser.headParams, h, hc]
    refine tracks_look ?_
    rw [ParserState.current_eq_head hs, h, hparams]
    exact tracks_take hs (tracks_eat_other rfl (by simp [hc]) keeps_pure)
  | @cons t comma ts name names h hcomma _ ih =>
    -- a name and its comma take one round
    obtain ⟨n, rfl⟩ : ∃ m, n = m + 1 := ⟨n - 1, by simp at hn; omega⟩
    have hparams : Parser.headParams (t :: comma :: ts ++ [c]) =
        ⟨name, t.span⟩ :: Parser.headParams (ts ++ [c]) := by
      simp [Parser.headParams, h, hcomma]
    refine tracks_look ?_
    rw [ParserState.current_eq_head hs, h, hparams]
    refine tracks_take hs (tracks_eat_next rfl hcomma ?_)
    rw [ParserState.past_past]
    have hless : ts.length ≤ n := by simp only [List.length_cons] at hn; omega
    have hrow : Keeps start (s.past [t, comma] (ts ++ c :: rest)) d (namesUpTo n) _ := ih hless rfl
    rw [ParserState.past_past] at hrow
    exact hrow.next keeps_pure

variable (start d) in
/-- The parameters are what stands in front of the arrow. -/
theorem keeps_parameters {head : List Token} {names : List String} (h : LambdaHead head names)
    (hs : s.ahead = head ++ rest) :
    ∃ front arrow, head = front ++ [arrow] ∧ arrow.kind = .sign .arrow ∧
      (∀ t ∈ front, t.kind ≠ .sign .arrow) ∧
      Keeps start s d parameters (Parser.headParams front, s.past front (arrow :: rest)) := by
  cases h with
  | @bare t arrow name h ha =>
    refine ⟨[t], arrow, rfl, ha, by simp [h], tracks_eat_other hs (by simp [h]) (tracks_look ?_)⟩
    have hparams : Parser.headParams [t] = [⟨name, t.span⟩] := by simp [Parser.headParams, h]
    rw [ParserState.current_eq_head hs, h, hparams]
    exact tracks_take hs keeps_pure
  | @empty left right arrow hl hr ha =>
    have hparams : Parser.headParams [left, right] = [] := by simp [Parser.headParams, hl, hr]
    refine ⟨[left, right], arrow, rfl, ha, by simp [hl, hr], tracks_eat_next hs hl ?_⟩
    rw [hparams]
    refine tracks_ahead ?_
    have hnone : Keeps start (s.past [left] (right :: arrow :: rest)) d
        (namesUpTo (right :: arrow :: rest).length)
        ([], s.past [left] (right :: arrow :: rest)) := by
      refine tracks_look ?_
      rw [ParserState.current_eq_head rfl, hr]
      exact keeps_pure
    refine hnone.next ((keeps_closing_next rfl hr).next ?_)
    rw [ParserState.past_past]
    exact keeps_pure
  | @row left right arrow ts names hl h hr ha =>
    have hparams : Parser.headParams (left :: ts ++ [right]) =
        Parser.headParams (ts ++ [right]) := by
      simp [Parser.headParams, hl]
    refine ⟨left :: ts ++ [right], arrow, by simp, ha, ?_, ?_⟩
    · simpa [hl, hr, or_imp, forall_and] using h.not_arrow
    have hahead : s.ahead = left :: (ts ++ right :: arrow :: rest) := by simpa using hs
    refine tracks_eat_next hahead hl (tracks_ahead ?_)
    have hnames : Keeps start (s.past [left] (ts ++ right :: arrow :: rest)) d
        (namesUpTo (ts ++ right :: arrow :: rest).length) _ :=
      keeps_namesUpTo h hr (by simp) rfl
    refine hnames.next ((keeps_closing_next rfl hr).next ?_)
    rw [ParserState.past_past, ParserState.past_past, hparams]
    exact keeps_pure

theorem keeps_lambdaHead (h : Parser.lambdaAhead s.ahead = true) :
    Keeps start s d lambdaHead (Parser.lambdaHead.run s) := by
  obtain ⟨head, names, rest, hs, hh⟩ := exists_lambdaHead h
  obtain ⟨front, arrow, rfl, ha, hf, hparameters⟩ := keeps_parameters start d hh hs
  rw [List.append_assoc] at hs
  rw [run_lambdaHead hs ha hf, ← ParserState.past_concat s front]
  refine hparameters.next (tracks_take rfl ?_)
  rw [ParserState.past_past]
  exact keeps_pure

end Heads

/-! ## 4. Rules -/

/-- At the depth, the rules do what the others do, and give back their levels as they should. -/
structure Rules.Tracked (start : ParserState) (d : Int) (R : Rules) (r : FlowExpr.Rules) :
    Prop where
  body : ∀ s, Keeps start s d R.body (r.body.run s)
  unary : ∀ s, Keeps start s d R.unary (r.unary.run s)
  access : ∀ s e, Drifts start s d (R.access e) ((r.access e).run s)
  chain : ∀ s n op left, Drifts start s d (R.chain n op left) ((r.chain n op left).run s)

section Level

variable {R : Rules} {r : FlowExpr.Rules}

/-! ### Postfixes -/

theorem drifts_postfixes (h : Rules.Tracked start d R r) (e : Expr) :
    Drifts start s d (R.postfixes e) ((r.postfixes e).run s) := by
  refine tracks_current fun ⟨kind, _, _⟩ => ?_
  cases kind with
  | sign sign =>
    cases sign with
    | dot | lBracket | lParen => exact h.access s e
    | _ => exact keeps_pure.drifts
  | _ => exact keeps_pure.drifts

theorem keeps_member (target : Expr) :
    Keeps start s d (Rules.member target) ((FlowExpr.Rules.member target).run s) := by
  refine tracks_current fun dot => keeps_advance.bind fun _ s₁ => tracks_current fun token => ?_
  cases token.memberName? with
  | some name => exact keeps_advance.bind fun _ _ => keeps_pure
  | none => exact (keeps_report _ _).bind fun _ _ => keeps_pure

theorem drifts_onePostfix (h : Rules.Tracked start d R r) (e : Expr) :
    Drifts start s d (R.onePostfix e) ((r.onePostfix e).run s) := by
  refine tracks_current fun ⟨kind, _, _⟩ => ?_
  cases kind with
  | sign sign =>
    cases sign with
    | dot => exact (keeps_member e).bind fun target _ => drifts_postfixes h target
    | lBracket =>
      refine keeps_advance.bind fun _ _ => (h.body _).bind fun i _ => ?_
      exact (keeps_closing _ _).bind fun stop _ => drifts_postfixes h _
    | lParen =>
      refine keeps_advance.bind fun _ _ => (keeps_commaSeparated h.body _).bind fun args _ => ?_
      exact (keeps_closing _ _).bind fun stop _ => drifts_postfixes h _
    | _ => exact keeps_pure.drifts
  | _ => exact keeps_pure.drifts

/-! ### What stands alone -/

theorem keeps_entry (h : Rules.Tracked start d R r) (s : ParserState) :
    Keeps start s d R.entry (r.entry.run s) := by
  refine (h.body s).bind fun key _ => (keeps_eat .colon).bind fun _ _ => ?_
  refine tracks_ite (fun _ => (h.body _).bind fun _ _ => keeps_pure) fun _ => ?_
  exact (keeps_unexpected _).bind fun _ _ => tracks_current fun _ => keeps_pure

theorem keeps_braces (h : Rules.Tracked start d R r) (n : Nat) :
    Keeps start s d (R.braces n) ((r.braces n).run s) := by
  refine Tracks.call (tracks_current fun token => (keeps_eat _).bind fun _ _ => ?_) .braces
  refine tracks_ite (fun _ => keeps_pure) fun _ => (h.body _).bind fun first _ => ?_
  refine (keeps_eat _).bind fun _ _ => tracks_ite (fun _ => ?_) fun _ => ?_
  · refine (h.body _).bind fun value _ => ?_
    refine (keeps_afterCommas (keeps_entry h)).bind fun others _ => ?_
    exact (keeps_closing _ _).bind fun _ _ => keeps_pure
  · refine (keeps_afterCommas h.body).bind fun others _ => ?_
    exact (keeps_closing _ _).bind fun _ _ => keeps_pure

theorem keeps_primary (h : Rules.Tracked start d R r) :
    Keeps start s d R.primary (r.primary.run s) := by
  refine Tracks.call (tracks_current fun ⟨kind, text, span⟩ => ?_) .primary
  have hleaf : ∀ (e : Expr) s, Keeps start s d (advance >>= fun _ => pure e)
      ((Parser.advance >>= fun _ => pure e).run s) :=
    fun _ _ => keeps_advance.bind fun _ _ => keeps_pure
  have hleft : ∀ e : Expr, Keeps start s d (unexpected .expression >>= fun _ => pure e)
      ((Parser.unexpected .expression >>= fun _ => pure e).run s) :=
    fun _ => (keeps_unexpected _).bind fun _ _ => keeps_pure
  cases kind with
  | integer | decimal | string | boolean | null | identifier | invalid => exact hleaf _ _
  | eof => exact hleft _
  | sign sign =>
    cases sign with
    | lParen =>
      refine keeps_advance.bind fun _ _ => (h.body _).bind fun e _ => ?_
      exact (keeps_closing _ _).bind fun _ _ => keeps_pure
    | lBracket =>
      refine keeps_advance.bind fun _ _ => (keeps_commaSeparated h.body _).bind fun items _ => ?_
      exact (keeps_closing _ _).bind fun _ _ => keeps_pure
    | lBrace => exact keeps_advance.bind fun _ _ => keeps_braces h _
    | rParen | rBracket | rBrace | comma | colon => exact hleft _
    | _ => exact (keeps_unexpected _).bind fun _ _ => hleaf _ _

/-! ### Operators -/

theorem keeps_accessed (h : Rules.Tracked start d R r) :
    Keeps start s d R.accessed ((r.primary >>= r.postfixes).run s) :=
  Tracks.call (keeps_restoring ((keeps_primary h).bind fun e _ => drifts_postfixes h e)) .access

theorem keeps_prefixed (h : Rules.Tracked start d R r) :
    Keeps start s d R.prefixed (r.prefixed.run s) := by
  refine Tracks.call (tracks_current fun ⟨kind, text, span⟩ => ?_) .unary
  cases kind with
  | sign sign =>
    dsimp only
    cases UnaryOp.ofSign? sign with
    | some op => exact keeps_advance.bind fun _ _ => (h.unary _).bind fun _ _ => keeps_pure
    | none => exact keeps_accessed h
  | _ => exact keeps_accessed h

theorem drifts_chainRest (h : Rules.Tracked start d R r) (n : Nat) (left : Expr) :
    Drifts start s d (R.chainRest n left) ((r.chainRest n left).run s) := by
  refine tracks_current fun token => ?_
  cases FlowExpr.Rules.operator? (n + 1) token.kind with
  | some op => exact keeps_advance.bind fun _ s₁ => h.chain s₁ n op left
  | none => exact keeps_pure.drifts

theorem keeps_climb (h : Rules.Tracked start d R r) :
    ∀ (n : Nat) (s : ParserState), Keeps start s d (R.climb n) ((r.climb n).run s)
  | 0, _ => keeps_prefixed h
  | n + 1, s =>
    Tracks.call (keeps_restoring ((keeps_climb h n s).bind fun e _ => drifts_chainRest h n e))
      (.operators (n + 1))

theorem drifts_rightOperand (h : Rules.Tracked start d R r) (n : Nat) (op : BinaryOp)
    (left : Expr) :
    Drifts start s d (R.rightOperand n op left) ((r.rightOperand n op left).run s) :=
  (keeps_climb h n s).bind fun _ _ => drifts_chainRest h n _

/-! ### Whole expressions -/

theorem keeps_conditional (h : Rules.Tracked start d R r) :
    Keeps start s d R.conditional (r.conditional.run s) := by
  refine Tracks.call ((keeps_climb h _ s).bind fun condition _ => ?_) .conditional
  refine (keeps_eat _).bind fun _ _ => tracks_ite (fun _ => ?_) fun _ => keeps_pure
  refine (h.body _).bind fun yes _ => ?_
  refine (keeps_eat _).bind fun _ _ => tracks_ite (fun _ => ?_) fun _ => ?_
  · exact (h.body _).bind fun _ _ => keeps_pure
  · exact (keeps_unexpected _).bind fun _ _ => tracks_current fun _ => keeps_pure

theorem keeps_lambda (h : Rules.Tracked start d R r) (hl : Parser.lambdaAhead s.ahead = true) :
    Keeps start s d R.lambda (r.lambda.run s) :=
  Tracks.call (tracks_current fun _ => (keeps_lambdaHead hl).next
    ((h.body _).bind fun _ _ => keeps_pure)) .lambda

theorem keeps_expression (h : Rules.Tracked start d R r) :
    Keeps start s d R.expression (r.expression.run s) :=
  tracks_ahead (tracks_ite (fun hl => keeps_lambda h hl) fun _ => keeps_conditional h)

/-- One more level. -/
theorem Rules.Tracked.within (h : Rules.Tracked start (d + 1) R r) (hd : d < maxDepth) :
    Rules.Tracked start d R.within r.within where
  body _ := Tracks.call (keeps_nested hd (keeps_expression h)) .expression
  unary _ := keeps_nested hd (keeps_prefixed h)
  access _ e := tracks_descend hd (drifts_onePostfix h e)
  chain _ n op left := tracks_descend hd (drifts_rightOperand h n op left)

/-- No level is left. -/
theorem Rules.tracked_exhausted (bottom : Rules) (hd : ¬d < maxDepth) :
    Rules.Tracked start d bottom.within FlowExpr.Rules.exhausted where
  body _ := Tracks.call (keeps_nested_tooDeep hd) .expression
  unary _ := keeps_nested_tooDeep hd
  access _ _ := tracks_descend_not hd (keeps_tooDeep.bind fun _ _ => keeps_pure).drifts
  chain _ _ _ _ := tracks_descend_not hd (keeps_tooDeep.bind fun _ _ => keeps_pure).drifts

end Level

/-- **The rules with a number of levels left are the rules at the depth where these are left.** -/
theorem tracked_levels (bottom : Rules) : ∀ {n : Nat}, n ≤ maxDepth →
    Rules.Tracked start (maxDepth - n) (levels bottom n) (FlowExpr.Rules.withBudget n)
  | 0, _ => Rules.tracked_exhausted bottom (by simp)
  | n + 1, hn => by
    have hdeeper := tracked_levels bottom (Nat.le_of_succ_le hn)
    have hstep : (maxDepth : Int) - n = maxDepth - (n + 1 : Nat) + 1 := by omega
    rw [hstep] at hdeeper
    exact hdeeper.within (by omega)

/-! ## 5. Whole inputs -/

theorem keeps_takeAll (ts : List Token) (hs : s.ahead = ts) :
    Keeps start s d (takeAll ts) ((), s.finish) := by
  induction ts generalizing s with
  | nil =>
    have hfinish : s.finish = s.past [] [] := by rw [ParserState.finish, hs]; rfl
    rw [hfinish, ParserState.past_nil hs]
    exact keeps_pure
  | cons t rest ih =>
    have hfinish : s.finish = (s.past [t] rest).finish := by
      have hpast := s.past_past [t] rest rest []
      rw [ParserState.finish, hs]
      exact hpast.symm
    rw [hfinish]
    exact tracks_take hs (ih rfl)

theorem keeps_trailing : Keeps start s d trailing (Parser.trailing.run s) := by
  have hrest : ∀ s, Keeps start s d (ahead >>= takeAll)
      ((modify ParserState.finish : Parser Unit).run s) :=
    fun s => tracks_ahead (keeps_takeAll s.ahead rfl)
  refine tracks_current fun ⟨kind, text, span⟩ => ?_
  cases kind with
  | eof | invalid => exact hrest s
  | sign sign =>
    cases sign with
    | assign => exact (keeps_report _ _).bind fun _ s' => hrest s'
    | _ => exact (keeps_unexpected _).bind fun _ s' => hrest s'
  | _ => exact (keeps_unexpected _).bind fun _ s' => hrest s'

theorem keeps_whole (bottom : Rules) : Keeps start s 0 (whole bottom) (Parser.whole.run s) := by
  have hlevels : Rules.Tracked start (maxDepth - maxDepth) (levels bottom maxDepth) _ :=
    tracked_levels bottom (Nat.le_refl maxDepth)
  rw [Int.sub_self] at hlevels
  refine Tracks.call (tracks_current fun token => tracks_ite (fun _ => ?_) fun _ => ?_) .whole
  · exact (keeps_report _ _).bind fun _ _ => keeps_pure
  · exact (hlevels.body s).bind fun _ _ => keeps_trailing.bind fun _ _ => keeps_pure

end Tracer

theorem Parser.ends_trailing_nil {s : ParserState} :
    Ends s trailing fun s' _ => s'.ahead = [] := by
  refine ends_current ?_
  split <;> exact rfl

/-- A whole input is read up to its end. -/
theorem Parser.ends_whole_eof {s : ParserState} :
    Ends s whole fun s' _ => s'.current.isEof = true ∨ s'.ahead = [] := by
  refine ends_current ?_
  split
  · rename_i hend
    refine .inl ?_
    show (s.report _ _).current.isEof = true
    rwa [ParserState.current_report]
  · refine Ends.bind (P := fun _ _ => True) trivial fun e s₁ _ => ?_
    exact Ends.bind ends_trailing_nil fun _ _ hnil => ends_pure (.inr hnil)

/-! ## 6. Tokens and positions -/

/-- The tokens with an end token behind them, unless the last one is an end token. -/
def withEnd (tokens : List Token) : List Token :=
  if tokens.getLast?.any Token.isEof then tokens
  else tokens ++ [Token.eofAt ((tokens.getLast?.map fun t => t.span.stop).getD 0)]

theorem withEnd_eq (tokens : List Token) : ∃ rest, withEnd tokens =
    (ParserState.ofTokens tokens).ahead ++ (ParserState.ofTokens tokens).eof :: rest := by
  have hsplit := List.takeWhile_append_dropWhile (p := fun t : Token => !t.isEof) (l := tokens)
  have hfind := List.find?_eq_head?_dropWhile_not Token.isEof tokens
  have heof : (ParserState.ofTokens tokens).eof = (tokens.find? Token.isEof).getD
    (Token.eofAt ((tokens.getLast?.map fun t => t.span.stop).getD 0)) := rfl
  rw [heof, hfind]
  cases hdrop : tokens.dropWhile fun t => !t.isEof with
  | nil =>
    rw [hdrop, List.append_nil] at hsplit
    have hnone : tokens.getLast?.any Token.isEof = false := by
      cases hlast : tokens.getLast? with
      | none => rfl
      | some t => simpa using List.dropWhile_eq_nil_iff.mp hdrop t (List.mem_of_getLast? hlast)
    refine ⟨[], ?_⟩
    unfold withEnd
    rw [hnone]
    exact congrArg (· ++ _) hsplit.symm
  | cons t rest =>
    rw [hdrop] at hsplit
    unfold withEnd
    split
    · exact ⟨rest, hsplit.symm⟩
    · refine ⟨rest ++ [Token.eofAt ((tokens.getLast?.map fun t => t.span.stop).getD 0)], ?_⟩
      rw [← List.cons_append, ← List.append_assoc]
      exact congrArg (· ++ _) hsplit.symm

/-- The place of the next token among all of them. -/
def Snapshot.position (tokens : List Token) (x : Snapshot) : Nat :=
  (ParserState.ofTokens tokens).ahead.length - x.state.ahead.length

/-- A snapshot in order: the depth is between zero and `maxDepth`; the next token is the one at the
    position; the last token that was taken ends where the state says, or the first one begins there
    if none was taken; and the next token is an end if the rest was skipped. -/
structure Snapshot.Sound (tokens : List Token) (x : Snapshot) : Prop where
  depth_nonneg : 0 ≤ x.depth
  depth_le : x.depth ≤ maxDepth
  current : (withEnd tokens)[x.position tokens]? = some x.state.current
  lastEnd : x.state.lastEnd =
    (((withEnd tokens).take (x.position tokens)).getLast?.map fun t => t.span.stop).getD
      (((withEnd tokens).head?.map fun t => t.span.start).getD 0)
  truncated : x.state.truncated = true → x.state.current.kind = .eof

/-- A record in order: so are the snapshots before and after it; the position does not go back;
    diagnostics are only added, and none once the rest was skipped; a call returns with the depth
    that it began with; and the balance of skipped delimiters is not below zero. -/
structure Record.Sound (tokens : List Token) (r : Record) : Prop where
  before : r.before.Sound tokens
  after : r.after.Sound tokens
  forward : r.before.position tokens ≤ r.after.position tokens
  reports : r.before.state.diagnostics <+: r.after.state.diagnostics
  silent : r.before.state.truncated = true →
    r.after.state.truncated = true ∧ r.after.state.diagnostics = r.before.state.diagnostics
  returns : ∀ routine, r.act = .call routine → r.after.depth = r.before.depth
  balanced : ∀ balance, r.act = .skip balance → 0 ≤ balance

/-- A journal in order: its records tell every change from the start on, each is in order, the last
    one is that of the call for the whole input, and the next token is an end. -/
structure Journal.Disciplined (tokens : List Token) (j : Journal) : Prop where
  leads : Leads (Journal.start tokens).now j.records j.now
  sound : ∀ r ∈ j.records, r.Sound tokens
  returned : j.records.getLast? = some ⟨.call .whole, (Journal.start tokens).now, j.now⟩
  ended : j.now.state.current.kind = .eof

section Positions

variable {tokens : List Token}

theorem Snapshot.Reached.sound {x : Snapshot} (h : x.Reached (.ofTokens tokens)) :
    x.Sound tokens := by
  obtain ⟨rest, hall⟩ := withEnd_eq tokens
  obtain ⟨ts, hts, hlast⟩ := h.state.taken
  have hposition : x.position tokens = ts.length := by
    unfold Snapshot.position
    rw [hts, List.length_append, Nat.add_sub_cancel]
  -- what was taken, what is left, the end, and what nobody reads
  have hplace : withEnd tokens =
      ts ++ (x.state.ahead ++ (ParserState.ofTokens tokens).eof :: rest) := by
    rw [hall, hts, List.append_assoc]
  have hcurrent : (x.state.ahead ++ (ParserState.ofTokens tokens).eof :: rest).head? =
      some x.state.current := by
    unfold ParserState.current
    rw [h.state.eof]
    cases x.state.ahead <;> rfl
  have hfirst : (ParserState.ofTokens tokens).lastEnd =
      ((withEnd tokens).head?.map fun t => t.span.start).getD 0 := by
    have hlastEnd : (ParserState.ofTokens tokens).lastEnd =
        ((ParserState.ofTokens tokens).ahead.headD (ParserState.ofTokens tokens).eof).span.start :=
      rfl
    rw [hlastEnd, hall]
    cases (ParserState.ofTokens tokens).ahead <;> rfl
  refine ⟨h.depth_nonneg, h.depth_le, ?_, ?_, fun htruncated => ?_⟩
  · rw [hposition, hplace, List.getElem?_append_right (Nat.le_refl _), Nat.sub_self,
      ← List.head?_eq_getElem?, hcurrent]
  · rw [← hfirst, hposition, hplace, List.take_left, hlast]
  · rcases h.state.ended htruncated with hstart | hnil
    · cases hstart
    · unfold ParserState.current
      rw [hnil, h.state.eof]
      exact ParserState.eof_ofTokens tokens

theorem Record.Orderly.sound {r : Record} (h : r.Orderly (.ofTokens tokens)) : r.Sound tokens where
  before := h.before.sound
  after := h.after.sound
  forward := by
    obtain ⟨ts, hts, -⟩ := h.onward.taken
    unfold Snapshot.position
    rw [hts, List.length_append]
    omega
  reports := h.onward.reports
  silent := h.onward.silent
  returns := h.returns
  balanced := h.balanced

end Positions

/-- **The parser keeps its state in order.** The parser with counters reads every list of tokens as
    the parser does, whatever the rules at its bottom are, and its journal is in order. -/
theorem parseTokens_disciplined (bottom : Tracer.Rules) (tokens : List Token) :
    let run := (Tracer.whole bottom).run (Journal.start tokens)
    parseTokens tokens = ⟨run.1, run.2.now.state.diagnostics⟩ ∧ run.2.Disciplined tokens := by
  intro run
  have hstart : Snapshot.Reached (.ofTokens tokens) (Journal.start tokens).now :=
    ⟨ParserState.proceeds_refl _, Int.le_refl 0, Int.natCast_nonneg maxDepth⟩
  obtain ⟨d, log, hd, htells, hjournal⟩ := Tracer.keeps_whole bottom hstart
  have hrun : run = ((Parser.whole.run (.ofTokens tokens)).1,
      ⟨⟨(Parser.whole.run (.ofTokens tokens)).2, d⟩, log⟩) := hjournal []
  have hreturned : run.2.records.getLast? =
      some ⟨.call .whole, (Journal.start tokens).now, run.2.now⟩ := List.getLast?_concat
  have hend : (Parser.whole.run (.ofTokens tokens)).2.current.kind = .eof := by
    rcases Parser.ends_whole_eof (s := .ofTokens tokens) with hend | hnil
    · simpa [Token.isEof] using hend
    · unfold ParserState.current
      rw [hnil, (htells.reached hstart).2.eof]
      exact ParserState.eof_ofTokens tokens
  rw [hrun] at hreturned ⊢
  exact ⟨rfl, htells.leads, fun r hr => (htells.orderly r hr).sound, hreturned, hend⟩

end FlowExpr
