import FlowExpr.Proofs.Expr.Soundness
import FlowExpr.Proofs.Text
import FlowExpr.Yaml.Braces
import Mathlib.Data.Nat.PSub

/-!
# The closing brace is the one that the expression leaves over

The search for the closing brace of an embedded expression knows nothing of tokens: it counts
braces and skips string literals, character by character. On an expression that parses it
agrees with reading tokens:

* `depthAfter`: how many braces a row of tokens leaves open;
* `Derives.balanced`: a derivation leaves open as many as there were before;
* `Passes cs d e`: the search goes over the text `cs` with `d` braces open before it and `e`
  after it, and does not stop inside;
* `lexFrom_passes`: the search passes over a text just as its tokens count, if the text can be
  read without an error. The case split is the one over what a token begins with.
-/

namespace FlowExpr

open Yaml
open Text (not_mem_of_class)

/-! ## 1. Braces of tokens -/

/-- Braces open after a token, given how many were open before; `none` if one is closed that
    was never opened. -/
def depthThrough (kind : TokenKind) (depth : Nat) : Option Nat :=
  if kind = .sign .lBrace then some (depth + 1)
  else if kind = .sign .rBrace then depth.ppred
  else some depth

/-- Braces open after some tokens. -/
def depthAfter : Nat → List Token → Option Nat
  | depth, [] => some depth
  | depth, t :: ts => (depthThrough t.kind depth).bind fun d => depthAfter d ts

theorem depthAfter_append (depth : Nat) (ts us : List Token) :
    depthAfter depth (ts ++ us) = (depthAfter depth ts).bind fun d => depthAfter d us := by
  induction ts generalizing depth with
  | nil => rfl
  | cons t ts ih =>
    rw [List.cons_append, depthAfter, depthAfter, Option.bind_assoc]
    congr 1
    funext d
    exact ih d

/-- The tokens close what they open, and nothing else. -/
def Balanced (ts : List Token) : Prop := ∀ depth, depthAfter depth ts = some depth

/-- The token is no brace. -/
def Token.Braceless (t : Token) : Prop := t.kind ≠ .sign .lBrace ∧ t.kind ≠ .sign .rBrace

theorem Token.braceless_of_sign {t : Token} {sign : Sign} (h : t.kind = .sign sign)
    (hs : sign ∉ [Sign.lBrace, .rBrace]) : t.Braceless := by
  rw [Braceless, h]
  constructor
  · intro e
    obtain rfl := TokenKind.sign.inj e
    exact hs List.mem_cons_self
  · intro e
    obtain rfl := TokenKind.sign.inj e
    exact hs (List.mem_cons_of_mem _ List.mem_cons_self)

theorem Token.braceless_of_identifier {t : Token} {name : String}
    (h : t.kind = .identifier name) : t.Braceless := by
  rw [Braceless, h]
  exact ⟨TokenKind.noConfusion, TokenKind.noConfusion⟩

theorem Token.braceless_of_literal {t : Token} {value : Literal}
    (h : Grammar.literal? t.kind = some value) : t.Braceless := by
  constructor <;> intro hk <;> rw [hk] at h <;> cases h

/-- No brace is a property name. -/
theorem Token.braceless_of_memberName {t : Token} {name : String}
    (h : t.memberName? = some name) : t.Braceless := by
  constructor <;> intro hk <;> simp [memberName?, hk, TokenKind.isKeyword, Sign.isWordy] at h

theorem balanced_nil : Balanced [] := fun _ => rfl

theorem Balanced.append {ts us : List Token} (ht : Balanced ts) (hu : Balanced us) :
    Balanced (ts ++ us) := by
  intro depth
  rw [depthAfter_append, ht depth]
  exact hu depth

theorem Balanced.cons {t : Token} {ts : List Token} (ht : t.Braceless) (h : Balanced ts) :
    Balanced (t :: ts) := by
  intro depth
  rw [depthAfter, depthThrough, if_neg ht.1, if_neg ht.2]
  exact h depth

theorem balanced_singleton {t : Token} (h : t.Braceless) : Balanced [t] := balanced_nil.cons h

/-- Braces around what closes its own are closed too. -/
theorem Balanced.braces {left right : Token} {ts : List Token} (hl : left.kind = .sign .lBrace)
    (h : Balanced ts) (hr : right.kind = .sign .rBrace) : Balanced (left :: (ts ++ [right])) := by
  intro depth
  have hne : ¬right.kind = .sign .lBrace := by rw [hr]; decide
  rw [depthAfter, depthThrough, if_pos hl]
  show depthAfter (depth + 1) (ts ++ [right]) = some depth
  rw [depthAfter_append, h (depth + 1)]
  show depthAfter (depth + 1) [right] = some depth
  rw [depthAfter, depthThrough, if_neg hne, if_pos hr]
  rfl

theorem NameRow.balanced {ts : List Token} {names : List String} (h : NameRow ts names) :
    Balanced ts := by
  induction h with
  | last h => exact balanced_singleton (Token.braceless_of_identifier h)
  | cons h hc _ ih =>
    have hcomma := Token.braceless_of_sign hc (by decide)
    exact (ih.cons hcomma).cons (Token.braceless_of_identifier h)

theorem LambdaHead.balanced {ts : List Token} {names : List String} (h : LambdaHead ts names) :
    Balanced ts := by
  cases h with
  | bare h ha =>
    have harrow := Token.braceless_of_sign ha (by decide)
    exact (balanced_singleton harrow).cons (Token.braceless_of_identifier h)
  | empty hl hr ha =>
    have harrow := Token.braceless_of_sign ha (by decide)
    have hright := Token.braceless_of_sign hr (by decide)
    have hleft := Token.braceless_of_sign hl (by decide)
    exact ((balanced_singleton harrow).cons hright).cons hleft
  | row hl h hr ha =>
    have harrow := Token.braceless_of_sign ha (by decide)
    have hright := Token.braceless_of_sign hr (by decide)
    have hleft := Token.braceless_of_sign hl (by decide)
    exact (h.balanced.append ((balanced_singleton harrow).cons hright)).cons hleft

theorem Grammar.braceless_binary {t : Token} {sign : Sign} {op : BinaryOp} {l : Nat}
    (ht : t.kind = .sign sign) (ho : (sign, op) ∈ Grammar.binaryAt l) : t.Braceless := by
  obtain ⟨h, -⟩ := Grammar.mem_binaryAt.mp ho
  refine Token.braceless_of_sign ht fun hmem => ?_
  rcases List.mem_cons.mp hmem with rfl | hmem
  · cases h
  · obtain rfl := List.mem_singleton.mp hmem
    cases h

theorem Grammar.braceless_unary {t : Token} {sign : Sign} {op : UnaryOp}
    (ht : t.kind = .sign sign) (ho : (sign, op) ∈ Grammar.unary) : t.Braceless := by
  have h := Grammar.mem_unary.mp ho
  refine Token.braceless_of_sign ht fun hmem => ?_
  rcases List.mem_cons.mp hmem with rfl | hmem
  · cases h
  · obtain rfl := List.mem_singleton.mp hmem
    cases h

/-- **A derivation closes the braces that it opens.** -/
theorem Derives.balanced {p : Phrase} {ts : List Token} {c : Nat} (h : Derives p ts c) :
    Balanced ts := by
  have sign : ∀ {t : Token} {s : Sign}, t.kind = .sign s → s ∉ [Sign.lBrace, .rBrace] →
      t.Braceless := Token.braceless_of_sign
  induction h with
  | lambda hh _ ih => exact hh.balanced.append ih
  | operation _ ih => exact ih
  | conditional _ hq _ hc _ ih₁ ih₂ ih₃ =>
    have hno := ih₃.cons (sign hc (by decide))
    exact ih₁.append ((ih₂.append hno).cons (sign hq (by decide)))
  | single _ ih => exact ih
  | operator _ ht ho _ ih₁ ih₂ => exact ih₁.append (ih₂.cons (Grammar.braceless_binary ht ho))
  | unary ht ho _ ih => exact ih.cons (Grammar.braceless_unary ht ho)
  | operand _ ih => exact ih
  | unchained _ ih => exact ih
  | property _ hd hn ih =>
    have hname := balanced_singleton (Token.braceless_of_memberName hn)
    exact ih.append (hname.cons (sign hd (by decide)))
  | index _ hl _ hr ih₁ ih₂ =>
    have hright := balanced_singleton (sign hr (by decide))
    exact ih₁.append ((ih₂.append hright).cons (sign hl (by decide)))
  | call _ hl _ hr ih₁ ih₂ =>
    have hright := balanced_singleton (sign hr (by decide))
    exact ih₁.append ((ih₂.append hright).cons (sign hl (by decide)))
  | literal h => exact balanced_singleton (Token.braceless_of_literal h)
  | identifier h => exact balanced_singleton (Token.braceless_of_identifier h)
  | parentheses hl _ hr ih =>
    have hright := balanced_singleton (sign hr (by decide))
    exact (ih.append hright).cons (sign hl (by decide))
  | list hl _ hr ih =>
    have hright := balanced_singleton (sign hr (by decide))
    exact (ih.append hright).cons (sign hl (by decide))
  | emptyMap hl hr => exact balanced_nil.braces hl hr
  | set hl _ _ hr ih₁ ih₂ =>
    rw [← List.append_assoc]
    exact (ih₁.append ih₂).braces hl hr
  | @map left colon right ts₁ ts₂ ts₃ _ _ _ _ _ _ _ hl _ hc _ _ hr ih₁ ih₂ ih₃ =>
    have hentries := ih₁.append ((ih₂.append ih₃).cons (sign hc (by decide)))
    have hbraces := hentries.braces hl hr
    rw [List.append_assoc, List.cons_append, List.append_assoc] at hbraces
    exact hbraces
  | noItems => exact balanced_nil
  | item hc _ _ ih₁ ih₂ => exact (ih₁.append ih₂).cons (sign hc (by decide))
  | noEntries => exact balanced_nil
  | entry hm _ hc _ _ ih₁ ih₂ ih₃ =>
    have hvalue := (ih₂.append ih₃).cons (sign hc (by decide))
    exact (ih₁.append hvalue).cons (sign hm (by decide))
  | noArguments => exact balanced_nil
  | someArguments _ _ ih₁ ih₂ => exact ih₁.append ih₂

/-! ## 2. Passing over a text -/

theorem closingBrace?_outside (d : Nat) (c : Char) (cs : List Char) :
    closingBrace? d none (c :: cs) =
      if c = '\'' ∨ c = '"' then (closingBrace? d (some c) cs).map (· + 1)
      else if c = '{' then (closingBrace? (d + 1) none cs).map (· + 1)
      else if c = '}' then
        match d with
        | 0 => some 0
        | d + 1 => (closingBrace? d none cs).map (· + 1)
      else (closingBrace? d none cs).map (· + 1) :=
  closingBrace?.eq_def d none (c :: cs)

theorem closingBrace?_escape (d : Nat) (quote c : Char) (cs : List Char) :
    closingBrace? d (some quote) ('\\' :: c :: cs) =
      (closingBrace? d (some quote) cs).map (· + 2) :=
  closingBrace?.eq_def d (some quote) ('\\' :: c :: cs)

theorem closingBrace?_quote {quote : Char} (hq : quote ≠ '\\') (d : Nat) (cs : List Char) :
    closingBrace? d (some quote) (quote :: cs) = (closingBrace? d none cs).map (· + 1) := by
  rw [closingBrace?.eq_def]
  dsimp only
  rw [if_neg hq, if_pos rfl]

theorem closingBrace?_inside {quote c : Char} (hc : c ≠ '\\') (hq : c ≠ quote) (d : Nat)
    (cs : List Char) :
    closingBrace? d (some quote) (c :: cs) = (closingBrace? d (some quote) cs).map (· + 1) := by
  rw [closingBrace?.eq_def]
  dsimp only
  rw [if_neg hc, if_neg hq]

/-- The search goes over the text, which takes the open braces from one number to another. -/
def Passes (cs : List Char) (d e : Nat) : Prop :=
  ∀ rest, closingBrace? d none (cs ++ rest) = (closingBrace? e none rest).map (· + cs.length)

theorem passes_nil (d : Nat) : Passes [] d d := fun rest => by simp

theorem Passes.append {cs ds : List Char} {d e k : Nat} (hc : Passes cs d e)
    (hd : Passes ds e k) : Passes (cs ++ ds) d k := by
  intro rest
  rw [List.append_assoc, hc, hd, Option.map_map, List.length_append]
  congr 1
  funext n
  show n + ds.length + cs.length = n + (cs.length + ds.length)
  omega

/-- The character means nothing to the search outside strings. -/
def Neutral (c : Char) : Prop := c ∉ ['\'', '"', '{', '}']

theorem passes_neutral {c : Char} (h : Neutral c) (d : Nat) : Passes [c] d d := by
  intro rest
  have hquote : ¬(c = '\'' ∨ c = '"') := by
    rintro (rfl | rfl) <;> exact h (by decide)
  have hleft : ¬c = '{' := by
    rintro rfl
    exact h (by decide)
  have hright : ¬c = '}' := by
    rintro rfl
    exact h (by decide)
  rw [List.singleton_append, closingBrace?_outside, if_neg hquote, if_neg hleft, if_neg hright]
  rfl

theorem passes_left (d : Nat) : Passes ['{'] d (d + 1) := fun rest => by
  rw [List.singleton_append, closingBrace?_outside, if_neg (by decide), if_pos rfl]
  rfl

theorem passes_right (d : Nat) : Passes ['}'] (d + 1) d := fun rest => by
  rw [List.singleton_append, closingBrace?_outside, if_neg (by decide), if_neg (by decide),
    if_pos rfl]
  rfl

/-- A string is passed over if what follows its opening quote leads out of it. -/
theorem passes_string {quote : Char} {cs : List Char} (hq : quote = '"' ∨ quote = '\'') {d : Nat}
    (h : ∀ rest, closingBrace? d (some quote) (cs ++ rest) =
      (closingBrace? d none rest).map (· + cs.length)) : Passes (quote :: cs) d d := by
  intro rest
  rw [List.cons_append, closingBrace?_outside, if_pos hq.symm, h rest, Option.map_map]
  rfl

theorem passes_of_neutral {cs : List Char} (h : ∀ c ∈ cs, Neutral c) (d : Nat) :
    Passes cs d d := by
  induction cs with
  | nil => exact passes_nil d
  | cons c cs ih =>
    obtain ⟨hc, hcs⟩ := List.forall_mem_cons.mp h
    exact (passes_neutral hc d).append (ih hcs)

/-! ## 3. Tokens of a text -/

namespace Lexer

/-- Inside a string the search skips what the reading of the string takes, the character after
    a backslash included, and both leave the string at the same quote. -/
theorem stringBody_passes {quote : Char} (hq : quote ≠ '\\') (d offset : Nat) (cs : List Char)
    (h : (stringBody quote offset cs).closed = true) (rest : List Char) :
    closingBrace? d (some quote) (cs.take (stringBody quote offset cs).taken ++ rest) =
      (closingBrace? d none rest).map
        (· + (cs.take (stringBody quote offset cs).taken).length) := by
  have hescape : ∀ (c : Char) (cs : List Char) (n : Nat),
      closingBrace? d (some quote) (cs.take n ++ rest) =
        (closingBrace? d none rest).map (· + (cs.take n).length) →
      closingBrace? d (some quote) (('\\' :: c :: cs).take (2 + n) ++ rest) =
        (closingBrace? d none rest).map (· + (('\\' :: c :: cs).take (2 + n)).length) := by
    intro c cs n ih
    rw [Nat.add_comm 2 n, List.take_succ_cons, List.take_succ_cons, List.cons_append,
      List.cons_append, closingBrace?_escape, ih, Option.map_map]
    rfl
  fun_induction stringBody quote offset cs with
  | case1 => cases h
  | case2 => cases h
  | case3 offset c cs next decoded hc ih => exact hescape c cs _ (ih h)
  | case4 offset c cs next hc ih => exact hescape c cs _ (ih h)
  | case5 offset cs hne => exact closingBrace?_quote hq d rest
  | case6 offset c cs hne hc ih =>
    have hslash : c ≠ '\\' := fun e => hne e
    show closingBrace? d (some quote) ((c :: cs).take (1 + _) ++ rest) =
      Option.map (· + ((c :: cs).take (1 + _)).length) _
    rw [Nat.add_comm 1, List.take_succ_cons, List.cons_append, closingBrace?_inside hslash hc,
      ih h, Option.map_map]
    rfl

theorem depthThrough_braceless {kind : TokenKind} {d e : Nat} (hl : kind ≠ .sign .lBrace)
    (hr : kind ≠ .sign .rBrace) (h : depthThrough kind d = some e) : d = e := by
  rw [depthThrough, if_neg hl, if_neg hr] at h
  exact Option.some.inj h

/-- A reading without errors takes the search from the braces open before it to those open
    after it. -/
def Reading.Passes (c : Char) (cs : List Char) (r : Reading) : Prop :=
  r.errors = [] → ∀ d e, depthThrough r.kind d = some e →
    FlowExpr.Passes (c :: cs.take r.extra) d e

theorem Reading.passes_of_neutral {c : Char} {cs : List Char} {r : Reading}
    (hl : r.kind ≠ .sign .lBrace) (hr : r.kind ≠ .sign .rBrace)
    (h : ∀ x ∈ c :: cs.take r.extra, Neutral x) : r.Passes c cs := by
  intro _ d e hd
  rw [← depthThrough_braceless hl hr hd]
  exact FlowExpr.passes_of_neutral h d

theorem passes_single {c : Char} {sign : Sign} (cs : List Char) (h : single? c = some sign) :
    Reading.Passes c cs ⟨.sign sign, 0, []⟩ := by
  have hsplit : (c = '{' ∧ sign = .lBrace) ∨ (c = '}' ∧ sign = .rBrace) ∨
      (c ∉ ['\'', '"', '{', '}'] ∧ sign ≠ .lBrace ∧ sign ≠ .rBrace) :=
    of_lookup (P := fun c sign => (c = '{' ∧ sign = .lBrace) ∨ (c = '}' ∧ sign = .rBrace) ∨
      (c ∉ ['\'', '"', '{', '}'] ∧ sign ≠ .lBrace ∧ sign ≠ .rBrace)) h (by decide)
  rcases hsplit with ⟨rfl, rfl⟩ | ⟨rfl, rfl⟩ | ⟨hc, hl, hr⟩
  · intro _ d e hd
    obtain rfl : d + 1 = e := Option.some.inj hd
    exact passes_left d
  · intro _ d e hd
    cases d with
    | zero => cases hd
    | succ d =>
      obtain rfl : d = e := Option.some.inj hd
      exact passes_right d
  · refine Reading.passes_of_neutral ?_ ?_ ?_
    · exact fun hk => hl (TokenKind.sign.inj hk)
    · exact fun hk => hr (TokenKind.sign.inj hk)
    · intro x hx
      obtain rfl := List.mem_singleton.mp hx
      exact hc

theorem passes_oneOrTwo {c second : Char} {double single : Sign} (cs : List Char)
    (h : paired? c = some (second, double, single)) :
    (oneOrTwo second double single cs).Passes c cs := by
  obtain ⟨hc, hsecond, hdl, hdr, hsl, hsr⟩ :=
    of_lookup (P := fun (c : Char) (entry : Char × Sign × Sign) =>
      c ∉ ['\'', '"', '{', '}'] ∧ entry.1 ∉ ['\'', '"', '{', '}'] ∧
      entry.2.1 ≠ .lBrace ∧ entry.2.1 ≠ .rBrace ∧ entry.2.2 ≠ .lBrace ∧ entry.2.2 ≠ .rBrace)
      h (by decide)
  unfold oneOrTwo
  split
  · rename_i hhead
    obtain ⟨rest, rfl⟩ := List.head?_eq_some_iff.mp hhead
    refine Reading.passes_of_neutral ?_ ?_ ?_
    · exact fun hk => hdl (TokenKind.sign.inj hk)
    · exact fun hk => hdr (TokenKind.sign.inj hk)
    · exact List.forall_mem_cons.mpr ⟨hc, List.forall_mem_cons.mpr ⟨hsecond, by simp⟩⟩
  · refine Reading.passes_of_neutral ?_ ?_ ?_
    · exact fun hk => hsl (TokenKind.sign.inj hk)
    · exact fun hk => hsr (TokenKind.sign.inj hk)
    · exact List.forall_mem_cons.mpr ⟨hc, by simp⟩

theorem passes_doubled {c : Char} {sign : Sign} {cs : List Char} (h : doubled? c = some sign)
    (hhead : cs.head? = some c) : Reading.Passes c cs ⟨.sign sign, 1, []⟩ := by
  obtain ⟨hc, hl, hr⟩ := of_lookup (P := fun (c : Char) (sign : Sign) =>
    c ∉ ['\'', '"', '{', '}'] ∧ sign ≠ .lBrace ∧ sign ≠ .rBrace) h (by decide)
  obtain ⟨rest, rfl⟩ := List.head?_eq_some_iff.mp hhead
  refine Reading.passes_of_neutral ?_ ?_ ?_
  · exact fun hk => hl (TokenKind.sign.inj hk)
  · exact fun hk => hr (TokenKind.sign.inj hk)
  · exact List.forall_mem_cons.mpr ⟨hc, List.forall_mem_cons.mpr ⟨hc, by simp⟩⟩

theorem passes_readString {c : Char} (hc : c = '"' ∨ c = '\'') (offset : Nat) (cs : List Char) :
    (readString offset c cs).Passes c cs := by
  intro herrors d e hd
  have hclosed : (stringBody c (offset + c.utf8Size) cs).closed = true := by
    refine Classical.byContradiction fun hopen => ?_
    unfold readString at herrors
    dsimp only at herrors
    rw [if_neg hopen] at herrors
    exact absurd herrors (by simp)
  have hslash : c ≠ '\\' := by
    rintro rfl
    revert hc
    decide
  obtain rfl : d = e := depthThrough_braceless TokenKind.noConfusion TokenKind.noConfusion hd
  exact passes_string hc fun rest => stringBody_passes hslash d _ cs hclosed rest

theorem passes_readWord {c : Char} (hc : isNameStart c = true) (cs : List Char) :
    (readWord c cs).Passes c cs := by
  have hword := of_word (P := fun kind => kind ≠ .sign .lBrace ∧ kind ≠ .sign .rBrace)
    (by decide) (by simp) (String.ofList (c :: cs.takeWhile isNamePart))
  refine Reading.passes_of_neutral hword.1 hword.2 ?_
  have htake : cs.take (cs.takeWhile isNamePart).length = cs.takeWhile isNamePart :=
    (List.prefix_iff_eq_take.mp (List.takeWhile_prefix isNamePart)).symm
  show ∀ x ∈ c :: cs.take (cs.takeWhile isNamePart).length, Neutral x
  rw [htake]
  refine List.forall_mem_cons.mpr ⟨not_mem_of_class (by decide) hc, fun x hx => ?_⟩
  exact not_mem_of_class (by decide) (List.mem_takeWhile_imp hx)

/-- The characters that a number takes are those of its spelling, apart from a mark that is
    spelled small. -/
theorem passes_readNumber {c : Char} (hc : Text.isDigit c = true ∨ c = '.') (offset : Nat)
    (cs : List Char) : (readNumber offset (c :: cs)).Passes c cs := by
  have hfirst : isNumberPart c = true := by
    rcases hc with h | rfl
    · exact isNumberPart_of_isDigit h
    · decide
  have hall : ∀ x ∈ c :: cs.take ((numberText (c :: cs)).chars.length - 1), Neutral x := by
    obtain ⟨front, rest, hsplit, hlength, -, hparts⟩ := spells_numberText (c :: cs)
    rw [← hlength]
    refine List.forall_mem_cons.mpr ⟨not_mem_of_class (by decide) hfirst, fun x hx => ?_⟩
    cases front with
    | nil => exact absurd hx (by simp)
    | cons y front =>
      rw [List.cons_append] at hsplit
      obtain ⟨-, rfl⟩ := List.cons.inj hsplit
      rw [List.length_cons, Nat.add_sub_cancel, List.take_left] at hx
      exact not_mem_of_class (by decide) (hparts x (List.mem_cons_of_mem _ hx))
  intro herrors
  unfold readNumber at herrors ⊢
  dsimp only at herrors ⊢
  split at herrors
  · rename_i kind hkind
    intro d e hd
    obtain ⟨value, rfl⟩ | ⟨value, rfl⟩ := NumberText.kind?_number hkind
    · obtain rfl : d = e := depthThrough_braceless TokenKind.noConfusion TokenKind.noConfusion hd
      exact FlowExpr.passes_of_neutral hall d
    · obtain rfl : d = e := depthThrough_braceless TokenKind.noConfusion TokenKind.noConfusion hd
      exact FlowExpr.passes_of_neutral hall d
  · cases herrors

theorem passes_read (offset : Nat) (c : Char) (cs : List Char) :
    (read offset c cs).Passes c cs := by
  refine read_cases offset c cs ?_ ?_ ?_ ?_ ?_ ?_ ?_
  · exact fun sign h => passes_single cs h
  · exact fun second double single h => passes_oneOrTwo cs h
  · exact fun sign h hhead => passes_doubled h hhead
  · exact fun h => passes_readString h offset cs
  · exact fun h => passes_readWord h cs
  · exact fun h => passes_readNumber (h.imp_right And.left) offset cs
  · intro herrors
    cases herrors

end Lexer

/-- **The search follows the tokens.** Over a text that can be read without an error it goes
    from the braces open before to those that the tokens leave open. -/
theorem lexFrom_passes (n offset : Nat) (cs : List Char) :
    (lexFrom n offset cs).errors = [] → ∀ d e,
      depthAfter d (lexFrom n offset cs).tokens = some e → Passes (cs.drop n) d e := by
  fun_induction lexFrom n offset cs with
  | case1 n offset =>
    intro _ d e h
    obtain rfl : d = e := Option.some.inj h
    rw [List.drop_nil]
    exact passes_nil d
  -- characters of the token taken before are dropped on both sides
  | case2 offset c cs n ih => exact ih
  | case3 offset c cs hb ih =>
    intro herrors d e h
    have hc : Neutral c := not_mem_of_class (by decide) hb
    exact (passes_neutral hc d).append (ih herrors d e h)
  | case4 offset c cs hb reading text ih =>
    intro herrors d e h
    obtain ⟨hread, hrest⟩ := List.append_eq_nil_iff.mp herrors
    obtain ⟨k, hk, he⟩ := Option.bind_eq_some_iff.mp h
    have htoken := Lexer.passes_read offset c cs hread d k hk
    have hwhole := htoken.append (ih hrest k e he)
    rw [List.cons_append, List.take_append_drop] at hwhole
    exact hwhole

/-- **The closing brace of an expression that parses is the one right after it.** -/
theorem expressionLength?_of_parseExpression {source : List Char} {offset : Nat}
    (h : (parseExpression source offset).diagnostics = []) (rest : List Char) :
    expressionLength? (source ++ '}' :: rest) = some source.length := by
  obtain ⟨herrors, ts, c, -, htokens, hd⟩ := exists_derivation h
  have hdepth : depthAfter 0 (lex source offset).tokens = some 0 := by
    rw [htokens, depthAfter_append, hd.balanced 0]
    rfl
  have hpasses : Passes source 0 0 := lexFrom_passes 0 offset source herrors 0 0 hdepth
  have hclosed : closingBrace? 0 none ('}' :: rest) = some 0 := by
    rw [closingBrace?_outside, if_neg (by decide), if_neg (by decide), if_pos rfl]
  rw [expressionLength?, hpasses, hclosed]
  show some (0 + source.length) = some source.length
  rw [Nat.zero_add]

end FlowExpr
