import FlowExpr.Proofs.Scope.Locating
import FlowExpr.Proofs.Token.Tiling

/-!
# Nodes around their parts

A search that follows a caret skips a node that the caret does not touch, so it relies on nodes
that cover their parts. They do, but for one case. A construct that is not closed ends where the
last token that was taken ends, while something missing is put in front of the next token. So an
operand that is missing after a blank lies outside of the brackets that wait for it:

* `Expr.isBracketed`, `Problem.leavesOpen`: the constructs and the reports of which this is true;
* `Expr.Covers ts ds x`: the node `x` covers its parts, or it was left open and no token of `ts`
  lies between its end and theirs;
* `ParserState.Kept`: what the state has to say for this, and `ParserState.Moves.kept`;
* `ParserState.Reads.covers`: what is read covers its parts;
* `isSome_locateIn?_of_child`: what a caret finds in a part that is covered, it finds.
-/

namespace FlowExpr

open Text (byteLength)

/-! ## 1. Covering -/

/-- The report leaves a construct open, or says that no more reports will come. -/
def Problem.leavesOpen : Problem → Bool
  | unclosed _ | tooDeeplyNested => true
  | _ => false

namespace Expr

/-- The node ends with a delimiter. -/
def isBracketed : Expr → Bool
  | index .. | call .. | list .. | set .. | map .. => true
  | _ => false

theorem isJoin_of_isBracketed {e : Expr} (h : e.isBracketed = true) : e.isJoin = true := by
  cases e <;> first | rfl | cases h

theorem ranges_of_isJoin {e : Expr} (h : e.isJoin = true) : e.ranges = [e.span] := by
  cases e <;> first | rfl | cases h

/-- A node covers the ranges it carries and its parts. Only a construct that was left open may
    end before one of its parts does, with no token in between. -/
structure Covers (ts : List Token) (ds : List Diagnostic) (x : Expr) : Prop where
  ranges : ∀ r ∈ x.ranges, r.Inside x.span
  starts : ∀ y ∈ x.children, x.span.start ≤ y.span.start
  stops : ∀ y ∈ x.children, y.span.stop ≤ x.span.stop ∨ x.isBracketed = true ∧
    (∃ d ∈ ds, d.problem.leavesOpen = true) ∧
      ∀ t ∈ ts, t.span.stop ≤ x.span.stop ∨ y.span.stop ≤ t.span.start

variable {ts : List Token} {ds ds' : List Diagnostic} {x : Expr}

theorem Covers.mono (h : x.Covers ts ds) (hds : ds ⊆ ds') : x.Covers ts ds' := by
  refine ⟨h.ranges, h.starts, fun y hy => (h.stops y hy).imp_right ?_⟩
  intro ⟨hb, ⟨d, hd, hopen⟩, hgap⟩
  exact ⟨hb, ⟨d, hds hd, hopen⟩, hgap⟩

/-- A leaf has nothing to cover. -/
theorem Covers.leaf (hc : x.children = []) (hr : x.ranges = [x.span])
    (hspan : x.span.start ≤ x.span.stop) : x.Covers ts ds := by
  refine ⟨fun r h => ?_, fun y hy => ?_, fun y hy => ?_⟩
  · rw [hr] at h
    rw [List.mem_singleton.mp h]
    exact ⟨Nat.le_refl _, hspan, Nat.le_refl _⟩
  · rw [hc] at hy
    exact absurd hy List.not_mem_nil
  · rw [hc] at hy
    exact absurd hy List.not_mem_nil

/-- A node that has nothing but its parts, which lie in it. -/
theorem Covers.join (hj : x.isJoin = true) (hspan : x.span.start ≤ x.span.stop)
    (h : ∀ y ∈ x.children, x.span.start ≤ y.span.start ∧ y.span.stop ≤ x.span.stop) :
    x.Covers ts ds := by
  refine ⟨fun r hr => ?_, fun y hy => (h y hy).1, fun y hy => .inl (h y hy).2⟩
  rw [ranges_of_isJoin hj] at hr
  rw [List.mem_singleton.mp hr]
  exact ⟨Nat.le_refl _, hspan, Nat.le_refl _⟩

/-- A property from the start of its target up to its name, or to the place of one. -/
theorem Covers.property {target : Expr} {name : Option String} {nameSpan : Span}
    (hstart : target.span.start ≤ nameSpan.start) (hname : nameSpan.start ≤ nameSpan.stop)
    (hstop : target.span.stop ≤ nameSpan.stop) :
    (Expr.property target name nameSpan ⟨target.span.start, nameSpan.stop⟩).Covers ts ds := by
  refine ⟨fun r hr => ?_, fun y hy => ?_, fun y hy => ?_⟩
  · rcases List.mem_cons.mp hr with rfl | hr
    · exact ⟨Nat.le_refl _, Nat.le_trans hstart hname, Nat.le_refl _⟩
    · rw [List.mem_singleton.mp hr]
      exact ⟨hstart, hname, Nat.le_refl _⟩
  · rw [List.mem_singleton.mp hy]
    exact Nat.le_refl _
  · rw [List.mem_singleton.mp hy]
    exact .inl hstop

/-- A lambda from its parameters up to the end of its body. -/
theorem Covers.lambda {params : List Param} {body : Expr} {lo stop : Nat}
    (hparams : Param.Spaced lo stop params) (hlo : lo ≤ stop) (hgap : stop ≤ body.span.start)
    (hbody : body.span.start ≤ body.span.stop) :
    (Expr.lambda params body ⟨lo, body.span.stop⟩).Covers ts ds := by
  have hend := Nat.le_trans hgap hbody
  refine ⟨fun r hr => ?_, fun y hy => ?_, fun y hy => ?_⟩
  · rcases List.mem_cons.mp hr with rfl | hr
    · exact ⟨Nat.le_refl _, Nat.le_trans hlo hend, Nat.le_refl _⟩
    · obtain ⟨h₁, h₂, h₃⟩ := hparams.inside r hr
      exact ⟨h₁, h₂, Nat.le_trans h₃ hend⟩
  · rw [List.mem_singleton.mp hy]
    exact Nat.le_trans hlo hgap
  · rw [List.mem_singleton.mp hy]
    exact .inl (Nat.le_refl _)

theorem span_mem_ranges (x : Expr) : x.span ∈ x.ranges := by
  cases x <;> exact List.mem_cons_self

/-- What holds of every node holds of every node and its parts. -/
theorem All.and_parts {P : Expr → Prop} {e : Expr} (h : e.All P) :
    e.All fun x => P x ∧ ∀ y ∈ x.children, P y := by
  induction h with
  | node root parts ih => exact .node ⟨root, fun y hy => (parts y hy).root⟩ ih

/-- One tree, and those below it. -/
theorem all_singleton {P : Expr → Prop} {e : Expr} (root : P e)
    (parts : ∀ y ∈ e.children, y.All P) : ∀ y ∈ [e], y.All P := by
  intro y hy
  rw [List.mem_singleton.mp hy]
  exact .node root parts

end Expr

/-! ## 2. States -/

namespace ParserState

/-- The state is placed; every token of `ts` ends where the last one that was taken does, or
    before, or is left; and if nothing is reported any more, this has been reported. -/
structure Kept (w : Span) (ts : List Token) (s : ParserState) : Prop where
  placed : s.Placed w
  apart : ∀ t ∈ ts, t.span.stop ≤ s.lastEnd ∨ t ∈ s.ahead
  explained : s.truncated = true → ∃ d ∈ s.diagnostics, d.problem = .tooDeeplyNested

variable {w : Span} {ts : List Token} {s s₁ s₂ s' : ParserState} {es : List Expr}

/-- Tokens that are taken end where the last one of them does, or before. -/
theorem Kept.apart_take (hs : s.Kept w ts) {taken : List Token}
    (hahead : s.ahead = taken ++ s'.ahead)
    (hlast : s'.lastEnd = (taken.getLast?.map fun t => t.span.stop).getD s.lastEnd) :
    ∀ t ∈ ts, t.span.stop ≤ s'.lastEnd ∨ t ∈ s'.ahead := by
  have hrow := hs.placed.tokens.row
  rw [hahead, List.map_append] at hrow
  have hfront := hrow.from_last.1
  rw [List.getLast?_map, Option.map_map] at hfront
  have hstop : Span.Row s.lastEnd (taken.map Token.span) s'.lastEnd := by
    rw [hlast]
    exact hfront
  intro t ht
  rcases hs.apart t ht with hbefore | hleft
  · exact .inl (Nat.le_trans hbefore hstop.le)
  · rw [hahead] at hleft
    rcases List.mem_append.mp hleft with htaken | hleft
    · exact .inl (hstop.inside (List.mem_map_of_mem htaken)).2.2
    · exact .inr hleft

/-- Reporting changes nothing but what has been reported. -/
theorem Kept.report (hs : s.Kept w ts) {span : Span} {problem : Problem}
    (hplaced : (s.report span problem).Placed w) : (s.report span problem).Kept w ts := by
  refine ⟨hplaced, ?_, fun htruncated => ?_⟩
  · rw [lastEnd_report, ahead_report]
    exact hs.apart
  · rw [truncated_report] at htruncated
    obtain ⟨d, hd, hdeep⟩ := hs.explained htruncated
    refine ⟨d, ?_, hdeep⟩
    rcases s.diagnostics_report span problem with hadd | ⟨-, hsame⟩
    · rw [hadd]
      exact List.mem_append_left _ hd
    · rw [hsame]
      exact hd

/-- A report is there, or it was reported that no more of them will come. -/
theorem Kept.reported (hs : s.Kept w ts) (span : Span) {problem : Problem}
    (hopen : problem.leavesOpen = true) :
    ∃ d ∈ (s.report span problem).diagnostics, d.problem.leavesOpen = true := by
  rcases s.diagnostics_report span problem with hadd | ⟨htruncated, hsame⟩
  · rw [hadd]
    exact ⟨⟨span, problem⟩, List.mem_append_right _ (List.mem_singleton_self _), hopen⟩
  · obtain ⟨d, hd, hdeep⟩ := hs.explained htruncated
    rw [hsame]
    exact ⟨d, hd, by rw [hdeep]; rfl⟩

theorem Kept.giveUp (hs : s.Kept w ts) : s.giveUp.Kept w ts := by
  have hreport := hs.report (hs.placed.report (hs.placed.token_inside s.current_mem)
    .tooDeeplyNested)
  refine ⟨hs.placed.giveUp.1, hreport.apart_take (skipped_append_skip _).symm rfl, fun _ => ?_⟩
  rcases s.diagnostics_report s.current.span .tooDeeplyNested with hadd | ⟨htruncated, -⟩
  · show ∃ d ∈ (s.report s.current.span .tooDeeplyNested).diagnostics, _
    rw [hadd]
    exact ⟨_, List.mem_append_right _ (List.mem_singleton_self _), rfl⟩
  · exact hreport.explained (by rw [truncated_report]; exact htruncated)

/-- **Whatever is read, this is kept.** -/
theorem Moves.kept (h : s.Moves s') (hs : s.Kept w ts) : s'.Kept w ts := by
  induction h with
  | refl => exact hs
  | take h hahead heof hlast htruncated hd ih =>
    refine ⟨(ih.placed.take hahead heof hlast hd).1, ih.apart_take hahead hlast, ?_⟩
    rw [htruncated, hd]
    exact ih.explained
  | report h ht hspan ih => exact ih.report ((Moves.report h ht hspan).placed hs.placed).1
  | giveUp _ ih => exact ih.giveUp

/-! ## 3. Brackets -/

/-- What ends where the last token that was taken does may be overrun, up to the next token: only
    if it was left open, and then by no token. -/
theorem Closes.stops {sign : Sign} {delimiter : Char} {stop : Nat}
    (h : s.Closes sign delimiter stop s') (hs : s.Kept w ts) {n : Nat} (hn : n ≤ s.here) :
    n ≤ stop ∨ (∃ d ∈ s'.diagnostics, d.problem.leavesOpen = true) ∧
      ∀ t ∈ ts, t.span.stop ≤ stop ∨ n ≤ t.span.start := by
  cases h with
  | closed hk =>
    have hlt := hs.placed.here_lt (ne_eof_of_sign hk)
    exact .inl (by omega)
  | unclosed =>
    refine .inr ⟨hs.reported _ rfl, fun t ht => (hs.apart t ht).imp_right fun hleft => ?_⟩
    have hin := hs.placed.tokens_here.row.inside (List.mem_map_of_mem hleft)
    exact Nat.le_trans hn hin.1

/-- The parts of what is read lie between where it begins and where it stops. -/
theorem Reads.inside (h : s.Reads es s') (hs : s.Placed w) :
    ∀ y ∈ es, s.here ≤ y.span.start ∧ y.span.start ≤ y.span.stop ∧ y.span.stop ≤ s'.here :=
  fun y hy => ((h.laid hs).nodes y hy).root

/-- A collection from its opening delimiter on. -/
theorem Reads.covers_collection {e : Expr} {opening sign : Sign} {delimiter : Char} {stop : Nat}
    (hk : s.current.kind = .sign opening) (h : s.advance.Reads e.children s₁)
    (hc : s₁.Closes sign delimiter stop s₂) (hb : e.isBracketed = true)
    (hspan : e.span = ⟨s.here, stop⟩) (hs : s.Kept w ts) : e.Covers ts s₂.diagnostics := by
  obtain ⟨hs₁, hon₁, hlt, -, -⟩ := hs.placed.advance (ne_eof_of_sign hk)
  have hkept₁ := h.moves.kept (s.moves_advance.kept hs)
  have hlast := ((h.moves.trans hc.moves).placed hs₁).2.lastEnd
  have hstop := hc.stop_eq hkept₁.placed
  have hin := h.inside hs₁
  refine ⟨fun r hr => ?_, fun y hy => ?_, fun y hy => ?_⟩
  · rw [Expr.ranges_of_isJoin (Expr.isJoin_of_isBracketed hb)] at hr
    rw [List.mem_singleton.mp hr, hspan]
    exact ⟨Nat.le_refl _, by dsimp only; omega, Nat.le_refl _⟩
  · rw [hspan]
    exact Nat.le_trans hon₁.here (hin y hy).1
  · rw [hspan]
    exact (hc.stops hkept₁ (hin y hy).2.2).imp_right fun hgap => ⟨hb, hgap⟩

/-- An index or a call after its target. -/
theorem Reads.covers_access {e target : Expr} {others : List Expr} {opening sign : Sign}
    {delimiter : Char} {stop : Nat} {s₀ : ParserState} (ht : s₀.Reads [target] s)
    (hk : s.current.kind = .sign opening) (h : s.advance.Reads others s₁)
    (hc : s₁.Closes sign delimiter stop s₂) (hb : e.isBracketed = true)
    (hchildren : e.children = target :: others) (hspan : e.span = ⟨target.span.start, stop⟩)
    (hs : s₀.Kept w ts) : e.Covers ts s₂.diagnostics := by
  have hkept := ht.moves.kept hs
  obtain ⟨hs₁, hon₁, hlt, -, -⟩ := hkept.placed.advance (ne_eof_of_sign hk)
  have hkept₁ := h.moves.kept (s.moves_advance.kept hkept)
  have hlast := ((h.moves.trans hc.moves).placed hs₁).2.lastEnd
  have hstop := hc.stop_eq hkept₁.placed
  have htarget := ht.inside hs.placed target (List.mem_singleton_self _)
  have hin := h.inside hs₁
  refine ⟨fun r hr => ?_, fun y hy => ?_, fun y hy => ?_⟩
  · rw [Expr.ranges_of_isJoin (Expr.isJoin_of_isBracketed hb)] at hr
    rw [List.mem_singleton.mp hr, hspan]
    exact ⟨Nat.le_refl _, by dsimp only; omega, Nat.le_refl _⟩
  · rw [hspan]
    rw [hchildren] at hy
    rcases List.mem_cons.mp hy with rfl | hy
    · exact Nat.le_refl _
    · have hlate := (hin y hy).1
      have hhere := hon₁.here
      dsimp only
      omega
  · rw [hspan]
    rw [hchildren] at hy
    rcases List.mem_cons.mp hy with rfl | hy
    · exact .inl (by dsimp only; omega)
    · exact (hc.stops hkept₁ (hin y hy).2.2).imp_right fun hgap => ⟨hb, hgap⟩

/-! ## 4. What is read -/

/-- **What is read covers its parts.** -/
theorem Reads.covers (h : s.Reads es s') (hs : s.Kept w ts) :
    ∀ e ∈ es, e.All (Expr.Covers ts s'.diagnostics) := by
  -- what was said of parts before still holds after more was reported
  have hlater : ∀ {s₁ s₂ : ParserState} {e : Expr}, s₁.Moves s₂ →
      e.All (Expr.Covers ts s₁.diagnostics) → e.All (Expr.Covers ts s₂.diagnostics) :=
    fun h he => he.imp fun _ hx => hx.mono h.diagnostics.subset
  have hempty : ∀ (n : Nat) (ds : List Diagnostic),
      ∀ e ∈ [Expr.error (Span.empty n)], e.All (Expr.Covers ts ds) := fun n ds =>
    Expr.all_singleton (.leaf rfl rfl (Nat.le_refl n)) fun _ h => absurd h List.not_mem_nil
  induction h with
  | none s => exact fun _ h => absurd h List.not_mem_nil
  | @next s₀ s s' es es' sign h hk h' ih ih' =>
    have hkept := s.moves_advance.kept (h.moves.kept hs)
    intro e he
    rcases List.mem_append.mp he with he | he
    · exact hlater (s.moves_advance.trans h'.moves) (ih hs e he)
    · exact ih' hkept e he
  | @lacking s₀ s es h ih =>
    intro e he
    rcases List.mem_append.mp he with he | he
    · exact hlater (s.moves_report _) (ih hs e he)
    · exact hempty _ _ e he
  | @atom s e he =>
    obtain ⟨hk, hspan, hleaves, hchildren⟩ := Token.atom?_eq_some he
    have hne := hs.placed.here_lt hk
    refine Expr.all_singleton (.leaf hchildren ?_ ?_) fun y hy => ?_
    · unfold Token.atom? at he
      split at he <;> first | cases he; rfl | cases he
    · rw [hspan]
      exact Nat.le_of_lt hne
    · rw [hchildren] at hy
      exact absurd hy List.not_mem_nil
  | missing s => exact hempty _ _
  | @useless s hk =>
    refine Expr.all_singleton (.leaf rfl rfl (Nat.le_of_lt (hs.placed.here_lt hk))) ?_
    exact fun _ h => absurd h List.not_mem_nil
  | deep s =>
    refine Expr.all_singleton (.leaf rfl rfl (Nat.le_max_right _ _)) ?_
    exact fun _ h => absurd h List.not_mem_nil
  | @parens s s₁ s₂ e stop hk h hc ih =>
    exact fun x hx => hlater hc.moves (ih (s.moves_advance.kept hs) x hx)
  | @list s s₁ s₂ items stop hk h hc ih | @set s s₁ s₂ items stop hk h hc ih
  | @map s s₁ s₂ items stop hk h hc ih =>
    refine Expr.all_singleton (covers_collection hk h hc rfl rfl hs) fun x hx => ?_
    exact hlater hc.moves (ih (s.moves_advance.kept hs) x hx)
  | @property s₀ s target name h hk hn ih =>
    have hkept := h.moves.kept hs
    have htarget := h.inside hs.placed target (List.mem_singleton_self _)
    obtain ⟨hs₁, hon, -, -, -⟩ := hkept.placed.advance (ne_eof_of_sign hk)
    have hne := hs₁.here_lt (Token.readable_of_memberName hn).1
    have hhere := hon.here
    refine Expr.all_singleton (.property ?_ (Nat.le_of_lt hne) (by omega)) fun x hx => ?_
    · show target.span.start ≤ s.advance.here
      omega
    · exact hlater (s.moves_advance.trans (moves_advance _)) (ih hs x hx)
  | @nameless s₀ s target h hk ih =>
    have htarget := h.inside hs.placed target (List.mem_singleton_self _)
    have hne := (h.moves.kept hs).placed.here_lt (ne_eof_of_sign hk)
    have hstop : target.span.stop ≤ s.current.span.stop := by omega
    refine Expr.all_singleton (.property ?_ (Nat.le_refl _) hstop) fun x hx => ?_
    · exact Nat.le_trans htarget.2.1 hstop
    · exact hlater (s.moves_advance.report s.current_mem (.inl rfl)) (ih hs x hx)
  | @index s₀ s s₁ s₂ target i stop h hk hi hc ih ih'
  | @call s₀ s s₁ s₂ target i stop h hk hi hc ih ih' =>
    refine Expr.all_singleton (covers_access h hk hi hc rfl rfl rfl hs) fun x hx => ?_
    rcases List.mem_cons.mp hx with rfl | hx
    · exact hlater (s.moves_advance.trans (hi.moves.trans hc.moves))
        (ih hs x (List.mem_singleton_self _))
    · exact hlater hc.moves (ih' (s.moves_advance.kept (h.moves.kept hs)) x hx)
  | @skipped s₀ s e h ih => exact fun x hx => hlater (.giveUp .refl) (ih hs x hx)
  | @unary s s' sign op operand hk h ih =>
    obtain ⟨hs₁, hon, -, -, -⟩ := hs.placed.advance (ne_eof_of_sign hk)
    have hin := h.inside hs₁ operand (List.mem_singleton_self _)
    have hhere := hon.here
    refine Expr.all_singleton (.join rfl ?_ fun y hy => ?_) (ih (s.moves_advance.kept hs))
    · show s.here ≤ operand.span.stop
      omega
    · rw [List.mem_singleton.mp hy]
      exact ⟨Nat.le_trans hhere hin.1, Nat.le_refl _⟩
  | @binary s₀ s s' sign op left right h hk h' ih ih' =>
    have hkept := h.moves.kept hs
    obtain ⟨hs₁, hon, -, -, -⟩ := hkept.placed.advance (ne_eof_of_sign hk)
    have hleft := h.inside hs.placed left (List.mem_singleton_self _)
    have hright := h'.inside hs₁ right (List.mem_singleton_self _)
    refine Expr.all_singleton (.join rfl ?_ fun y hy => ?_) fun x hx => ?_
    · show min left.span.start right.span.start ≤ max left.span.stop right.span.stop
      omega
    · show min left.span.start right.span.start ≤ y.span.start ∧
        y.span.stop ≤ max left.span.stop right.span.stop
      rcases List.mem_cons.mp hy with rfl | hy
      · exact ⟨Nat.min_le_left _ _, Nat.le_max_left _ _⟩
      · rw [List.mem_singleton.mp hy]
        exact ⟨Nat.min_le_right _ _, Nat.le_max_right _ _⟩
    · rcases List.mem_cons.mp hx with rfl | hx
      · exact hlater (s.moves_advance.trans h'.moves) (ih hs x (List.mem_singleton_self _))
      · exact ih' (s.moves_advance.kept hkept) x hx
  | @ternary s₀ s s' condition yes no h hk h' ih ih' =>
    have hkept := h.moves.kept hs
    obtain ⟨hs₁, hon, -, -, -⟩ := hkept.placed.advance (ne_eof_of_sign hk)
    have hcondition := h.inside hs.placed condition (List.mem_singleton_self _)
    have hyes := h'.inside hs₁ yes (by simp)
    have hno := h'.inside hs₁ no (by simp)
    have hhere := hon.here
    refine Expr.all_singleton (.join rfl ?_ fun y hy => ?_) fun x hx => ?_
    · show condition.span.start ≤ max no.span.stop yes.span.stop
      omega
    · show condition.span.start ≤ y.span.start ∧ y.span.stop ≤ max no.span.stop yes.span.stop
      rcases List.mem_cons.mp hy with rfl | hy
      · omega
      · rcases List.mem_cons.mp hy with rfl | hy
        · omega
        · rw [List.mem_singleton.mp hy]
          omega
    · rcases List.mem_cons.mp hx with rfl | hx
      · exact hlater (s.moves_advance.trans h'.moves) (ih hs x (List.mem_singleton_self _))
      · exact ih' (s.moves_advance.kept hkept) x hx
  | @lambda s s' body hl h ih =>
    have hmoves := moves_lambdaHead hl
    obtain ⟨stop, hlo, hgap, hspaced⟩ := hs.placed.lambdaHead hl
    have hin := h.inside (hmoves.placed hs.placed).1 body (List.mem_singleton_self _)
    exact Expr.all_singleton (.lambda hspaced hlo (by omega) hin.2.1) (ih (hmoves.kept hs))

end ParserState

/-! ## 5. Carets -/

section Caret

variable {o : Nat}

theorem isSome_locateInList? {params : List Param} {es : List Expr} {e : Expr} (he : e ∈ es)
    (h : (locateIn? o params e).isSome = true) : (locateInList? o params es).isSome = true := by
  induction es with
  | nil => exact absurd he List.not_mem_nil
  | cons x es ih =>
    rw [locateInList?, Option.isSome_or, Bool.or_eq_true]
    rcases List.mem_cons.mp he with rfl | he
    · exact .inl h
    · exact .inr (ih he)

/-- **What a caret finds in a part, it finds**, if the node covers the part. -/
theorem isSome_locateIn?_of_child {e y : Expr} (hy : y ∈ e.children)
    (hin : y.span.Inside e.span) (h : ∀ params, (locateIn? o params y).isSome = true)
    (params : List Param) : (locateIn? o params e).isSome = true := by
  have htouch : ∀ params, y.span.touches o = true := fun params => by
    obtain ⟨r, hr⟩ := Option.isSome_iff_exists.mp (h params)
    exact touches_of_locateIn? hr
  have ht : e.span.touches o = true := by
    obtain ⟨h₁, h₂⟩ := Span.touches_iff.mp (htouch params)
    exact Span.touches_iff.mpr ⟨Nat.le_trans hin.1 h₁, Nat.le_trans h₂ hin.2.2⟩
  have hjoin : e.isJoin = true → e.callee? = none → (locateIn? o params e).isSome = true := by
    intro hj hc
    rw [locateIn?_of_isJoin hj hc ht]
    exact isSome_locateInList? hy (h params)
  cases e with
  | literal | identifier | error => exact absurd hy List.not_mem_nil
  | property target name nameSpan s =>
    rw [locateIn?_property ht]
    by_cases hname : nameSpan.touches o = true
    · rw [if_pos hname]
      rfl
    · rw [if_neg hname, ← List.mem_singleton.mp hy]
      exact h params
  | lambda inner body s =>
    rw [locateIn?_lambda ht, ← List.mem_singleton.mp hy]
    exact h _
  | call target args s =>
    cases target with
    | identifier name nameSpan =>
      rw [locateIn?_bareCall ht]
      by_cases hname : nameSpan.touches o = true
      · rw [if_pos hname]
        rfl
      · rw [if_neg hname]
        rcases List.mem_cons.mp hy with rfl | hy
        · exact absurd (htouch params) hname
        · exact isSome_locateInList? hy (h params)
    | _ => exact hjoin rfl rfl
  | _ => exact hjoin rfl rfl

end Caret

namespace Expr

/-- The ranges of a node at which a caret is at the node itself: a name, the name of a property
    or the place of one, and something that cannot be read. -/
def caretRanges : Expr → List Span
  | identifier _ s | error s => [s]
  | property _ _ nameSpan _ => [nameSpan]
  | _ => []

/-- A caret at one of these ranges finds something in the node itself. -/
theorem isSome_locateIn?_of_caret {e : Expr} (hranges : ∀ r ∈ e.ranges, r.Inside e.span)
    {r : Span} (hr : r ∈ e.caretRanges) {o : Nat} (ho : r.touches o = true)
    (params : List Param) : (locateIn? o params e).isSome = true := by
  have hin : r.Inside e.span := by
    refine hranges r ?_
    cases e with
    | property => exact List.mem_cons_of_mem _ hr
    | identifier | error => exact hr
    | _ => exact absurd hr List.not_mem_nil
  have ht : e.span.touches o = true := by
    obtain ⟨h₁, h₂⟩ := Span.touches_iff.mp ho
    exact Span.touches_iff.mpr ⟨Nat.le_trans hin.1 h₁, Nat.le_trans h₂ hin.2.2⟩
  cases e with
  | identifier | error =>
    rw [locateIn?, if_neg (by simpa using ht)]
    rfl
  | property target name nameSpan s =>
    rw [locateIn?_property ht, ← List.mem_singleton.mp hr, if_pos ho]
    rfl
  | _ => exact absurd hr List.not_mem_nil

/-- **No node is hidden** in a tree whose nodes cover their parts. -/
theorem all_found {e : Expr} (h : e.All fun x => (∀ r ∈ x.ranges, r.Inside x.span) ∧
      ∀ y ∈ x.children, y.span.Inside x.span) :
    e.All fun x => ∀ r ∈ x.caretRanges, ∀ o, r.touches o = true →
      ∀ params, (locateIn? o params e).isSome = true := by
  induction e using children_induction with
  | h e ih =>
    refine .node (fun r hr o ho => isSome_locateIn?_of_caret h.root.1 hr ho) fun y hy => ?_
    refine (ih y hy (h.parts y hy)).imp fun x hx r hr o ho => ?_
    exact isSome_locateIn?_of_child hy (h.root.2 y hy) (hx r hr o ho)

end Expr

/-! ## 6. Trees of texts -/

/-- Of the characters between two offsets that no token reaches into, all are blanks. -/
theorem blank_of_apart {source : List Char} {a b : Nat}
    (h : ∀ t ∈ (lex source 0).tokens, t.kind ≠ .eof → t.span.stop ≤ a ∨ b ≤ t.span.start)
    {front rest : List Char} {c : Char} (hsource : source = front ++ c :: rest)
    (ha : a ≤ byteLength front) (hb : byteLength front < b) : Text.isBlank c = true := by
  rcases (lexFrom_tiles 0 0 source).covers front rest c hsource with hc | ⟨t, ht, hk, h₁, h₂⟩
  · exact hc
  · have hsize := c.utf8Size_pos
    rcases h t ht hk with hstop | hstart <;> simp at h₁ h₂ <;> omega

/-- The state before anything was read keeps its tokens. -/
theorem ParserState.kept_ofTokens {lo hi : Nat} {ts : List Token} (h : TokenRow lo ts hi) :
    (ofTokens (ts ++ [Token.eofAt hi])).Kept ⟨lo, hi⟩ ts := by
  refine ⟨placed_ofTokens h, fun t ht => .inr ?_, nofun⟩
  rw [(at_ofTokens_append h.noEnd _ rfl).ahead]
  exact ht

/-- The nodes of a list of tokens cover their parts. -/
theorem parseTokens_covers {lo hi : Nat} {ts : List Token} (h : TokenRow lo ts hi) :
    (parseTokens (ts ++ [Token.eofAt hi])).root.All
      (Expr.Covers ts (parseTokens (ts ++ [Token.eofAt hi])).diagnostics) := by
  obtain ⟨s', hd, ⟨hroot, -⟩ | ⟨s₁, hread, hend⟩⟩ := parseTokens_reads (ts ++ [Token.eofAt hi])
  · rw [hroot]
    exact .node (.leaf rfl rfl (Nat.le_refl _)) fun _ h => absurd h List.not_mem_nil
  · rw [hd]
    refine (hread.covers (ParserState.kept_ofTokens h) _ (List.mem_singleton_self _)).imp ?_
    exact fun x hx => hx.mono hend.diagnostics.subset

/-- The tokens of a text are a row, and what is read of them is read of the text. -/
theorem parseExpression_tokens (source : List Char) :
    ∃ ts, (lex source 0).tokens = ts ++ [Token.eofAt (byteLength source)] ∧
      TokenRow 0 ts (byteLength source) ∧
      (parseExpression source 0).root = (parseTokens (lex source 0).tokens).root ∧
      (parseTokens (lex source 0).tokens).diagnostics ⊆
        (parseExpression source 0).diagnostics := by
  obtain ⟨ts, htokens, hrow⟩ := exists_tokenRow_lex source 0
  rw [Nat.zero_add] at htokens hrow
  refine ⟨ts, htokens, hrow, ?_, fun d hd => ?_⟩
  · rw [parseExpression_eq]
  · rw [parseExpression_eq]
    exact (List.mergeSort_perm _ _).mem_iff.mpr (List.mem_append_right _ hd)

/-- **Nodes cover their parts.** A node of a text covers its name and its parameters; its parts
    begin in it and end in it. Only a construct with brackets that was left open may end before
    one of its parts, by blanks, and then a report says so. Without such a report every part lies
    in its node, and a caret at a name, at a property name or at something missing finds what is
    there. -/
theorem parseExpression_containment (source : List Char) :
    let parsed : Parsed := parseExpression source 0
    let leftOpen : Prop := ∃ d ∈ parsed.diagnostics, d.problem.leavesOpen = true
    (parsed.root.All fun x => (∀ r ∈ x.ranges, r.Inside x.span) ∧ ∀ y ∈ x.children,
      x.span.start ≤ y.span.start ∧ (y.span.stop ≤ x.span.stop ∨
        x.isBracketed = true ∧ leftOpen ∧ ∀ front c rest, source = front ++ c :: rest →
          x.span.stop ≤ byteLength front → byteLength front < y.span.stop →
            Text.isBlank c = true)) ∧
    (¬leftOpen →
      (parsed.root.All fun x => ∀ y ∈ x.children, y.span.Inside x.span) ∧
      parsed.root.All fun x => ∀ r ∈ x.caretRanges, ∀ o, r.touches o = true →
        (locate? parsed.root o).isSome = true) := by
  intro parsed leftOpen
  obtain ⟨ts, htokens, hrow, hroot, hdiagnostics⟩ := parseExpression_tokens source
  have hcovers : parsed.root.All (Expr.Covers ts parsed.diagnostics) := by
    have h := parseTokens_covers hrow
    rw [← htokens, ← hroot] at h
    exact h.imp fun x hx => hx.mono hdiagnostics
  have hmem : ∀ t ∈ (lex source 0).tokens, t.kind ≠ .eof → t ∈ ts := by
    intro t ht hk
    rw [htokens] at ht
    rcases List.mem_append.mp ht with ht | ht
    · exact ht
    · rw [List.mem_singleton.mp ht] at hk
      exact absurd rfl hk
  constructor
  · refine hcovers.imp fun x hx => ⟨hx.ranges, fun y hy => ⟨hx.starts y hy, ?_⟩⟩
    refine (hx.stops y hy).imp_right fun ⟨hb, hopen, hgap⟩ => ⟨hb, hopen, ?_⟩
    exact fun front c rest => blank_of_apart fun t ht hk => hgap t (hmem t ht hk)
  · intro hclosed
    have hinside : parsed.root.All fun x => (∀ r ∈ x.ranges, r.Inside x.span) ∧
        ∀ y ∈ x.children, y.span.Inside x.span := by
      refine hcovers.and_parts.imp fun x ⟨hx, hparts⟩ => ⟨hx.ranges, fun y hy => ?_⟩
      have horder := ((hparts y hy).ranges y.span y.span_mem_ranges).2.1
      exact ⟨hx.starts y hy, horder, (hx.stops y hy).resolve_right fun h => hclosed h.2.1⟩
    exact ⟨hinside.imp fun _ hx => hx.2,
      (Expr.all_found hinside).imp fun x hx r hr o ho => hx r hr o ho []⟩

/-- In `f( , )` both arguments are missing, and the call is closed: a caret at the place of the
    second finds the error there. -/
theorem parseExpression_containment_missing :
    let parsed := parseExpression ['f', '(', ' ', ',', ' ', ')'] 0
    parsed.root = .call (.identifier "f" ⟨0, 1⟩) [.error ⟨3, 3⟩, .error ⟨5, 5⟩] ⟨0, 6⟩ ∧
      (¬∃ d ∈ parsed.diagnostics, d.problem.leavesOpen = true) ∧
      (parsed.root.All fun x => ∀ y ∈ x.children, y.span.Inside x.span) ∧
      (locate? parsed.root 5).isSome = true := by
  intro parsed
  have hreports : ∀ d ∈ (parseTokens (lex ['f', '(', ' ', ',', ' ', ')'] 0).tokens).diagnostics,
      d.problem.leavesOpen = false := by decide
  have hclosed : ¬∃ d ∈ parsed.diagnostics, d.problem.leavesOpen = true := by
    intro ⟨d, hd, hopen⟩
    have hreport := hreports d ((List.mergeSort_perm _ _).mem_iff.mp hd)
    rw [hopen] at hreport
    cases hreport
  obtain ⟨hinside, hfound⟩ :=
    (parseExpression_containment ['f', '(', ' ', ',', ' ', ')']).2 hclosed
  have hargument : Expr.error ⟨5, 5⟩ ∈ parsed.root.children :=
    List.mem_cons_of_mem _ (List.mem_cons_of_mem _ List.mem_cons_self)
  refine ⟨rfl, hclosed, hinside, ?_⟩
  exact (hfound.parts _ hargument).root ⟨5, 5⟩ (List.mem_singleton_self _) 5 rfl

/-- **Not every node covers its parts.** In `x [ ` the index ends after the bracket and what is
    missing stands after the blank, where a caret finds nothing. -/
theorem parseExpression_containment_left_open :
    let root := (parseExpression ['x', ' ', '[', ' '] 0).root
    root = .index (.identifier "x" ⟨0, 1⟩) (.error ⟨4, 4⟩) ⟨0, 3⟩ ∧
      ¬(root.All fun x => ∀ y ∈ x.children, y.span.Inside x.span) ∧ locate? root 4 = none := by
  intro root
  have hmissing : Expr.error ⟨4, 4⟩ ∈ root.children := List.mem_cons_of_mem _ List.mem_cons_self
  refine ⟨rfl, fun h => ?_, rfl⟩
  have hstop : 4 ≤ 3 := (h.root _ hmissing).2.2
  omega

end FlowExpr
