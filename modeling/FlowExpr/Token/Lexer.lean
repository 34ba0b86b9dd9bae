import FlowExpr.Text.Basic
import FlowExpr.Token

/-!
# From text to tokens

Reading never fails: input that is no token becomes an `invalid` token with an error, and
reading goes on right after it.

* `read` looks at the character where a token begins and says what the token is and how many
  further characters belong to it;
* `lexFrom` walks over the text once, takes a token where none is open, and ends with the one
  end token;
* `lex` is the whole text, placed at an offset of the document that owns it.
-/

namespace FlowExpr

/-- What can be wrong with a piece of input. -/
inductive LexFault where
  | unexpectedCharacter (char : Char)
  | unterminatedString
  | invalidEscape (char : Char)
  | invalidNumber (text : String)
  deriving DecidableEq, Repr

/-- A fault and its place. -/
structure LexError where
  fault : LexFault
  span : Span
  deriving DecidableEq, Repr

/-- Wording of a fault. -/
def LexFault.message : LexFault → String
  | unexpectedCharacter c => "unexpected character '" ++ String.singleton c ++ "'"
  | unterminatedString => "unterminated string literal"
  | invalidEscape c => "invalid escape sequence '\\" ++ String.singleton c ++ "'"
  | invalidNumber text => "invalid number literal '" ++ text ++ "'"

/-- Tokens of a text and the errors met on the way. -/
structure Lexed where
  tokens : List Token
  errors : List LexError
  deriving DecidableEq, Repr

namespace Lexer

/-- Result of reading one token: its kind, how many characters after the first belong to it,
    and what was wrong. -/
structure Reading where
  kind : TokenKind
  extra : Nat := 0
  errors : List LexError := []

/-! ## 1. Names -/

/-- First character of a name. -/
def isNameStart (c : Char) : Bool := Text.isAlphabetic c || c == '_' || c == '$'

/-- Later character of a name. -/
def isNamePart (c : Char) : Bool := Text.isAlphanumeric c || c == '_' || c == '$'

/-- A word: a keyword, or else a name. -/
def readWord (c : Char) (cs : List Char) : Reading :=
  let more := cs.takeWhile isNamePart
  let word := String.ofList (c :: more)
  ⟨(TokenKind.keyword? word).getD (.identifier word), more.length, []⟩

/-! ## 2. Strings -/

/-- Character that an escape stands for. -/
def escape? (c : Char) : Option Char :=
  if c = 'n' then some '\n'
  else if c = 't' then some '\t'
  else if c = 'r' then some '\r'
  else if c ∈ ['"', '\'', '\\', '$', '#', '{', '}'] then some c
  else none

/-- What follows an opening quote: the decoded text, the characters taken, whether the quote
    was closed, and the bad escapes. -/
structure StringBody where
  text : List Char := []
  taken : Nat := 0
  closed : Bool := false
  errors : List LexError := []

/-- A piece in front of a string body. -/
def StringBody.push (text : List Char) (taken : Nat) (errors : List LexError)
    (rest : StringBody) : StringBody :=
  ⟨text ++ rest.text, taken + rest.taken, rest.closed, errors ++ rest.errors⟩

/-- The body of a string from an offset on. A bad escape keeps its backslash; a backslash at
    the very end belongs to the string and adds nothing. -/
def stringBody (quote : Char) : Nat → List Char → StringBody
  | _, [] => ⟨[], 0, false, []⟩
  | offset, '\\' :: cs =>
    match cs with
    | [] => ⟨[], 1, false, []⟩
    | c :: rest =>
      let next := offset + 1 + c.utf8Size
      match escape? c with
      | some decoded => (stringBody quote next rest).push [decoded] 2 []
      | none =>
        (stringBody quote next rest).push ['\\', c] 2
          [⟨.invalidEscape c, ⟨offset, next⟩⟩]
  | offset, c :: cs =>
    if c = quote then ⟨[], 1, true, []⟩
    else (stringBody quote (offset + c.utf8Size) cs).push [c] 1 []

/-- A string whose opening quote stands at an offset. -/
def readString (offset : Nat) (quote : Char) (cs : List Char) : Reading :=
  let body := stringBody quote (offset + quote.utf8Size) cs
  let span : Span := ⟨offset, offset + quote.utf8Size + Text.byteLength (cs.take body.taken)⟩
  ⟨.string (String.ofList body.text), body.taken,
    if body.closed then body.errors else body.errors ++ [⟨.unterminatedString, span⟩]⟩

/-! ## 3. Numbers -/

/-- Spelling of a number: digits, then a point and digits, then an exponent. -/
structure NumberText where
  whole : List Char
  fraction : List Char
  exponent : List Char

/-- Point and digits, if a digit follows the point. -/
def fractionOf : List Char → List Char
  | '.' :: c :: cs => if Text.isDigit c then '.' :: c :: cs.takeWhile Text.isDigit else []
  | _ => []

/-- Exponent mark, sign and digits, if a digit follows. The mark is taken as a small letter. -/
def exponentOf : List Char → List Char
  | mark :: c :: cs =>
    if mark ≠ 'e' ∧ mark ≠ 'E' then []
    else if Text.isDigit c then 'e' :: c :: cs.takeWhile Text.isDigit
    else if c = '+' ∨ c = '-' then
      match cs.takeWhile Text.isDigit with
      | [] => []
      | digits => 'e' :: c :: digits
    else []
  | _ => []

/-- The longest number at the start of a text. -/
def numberText (cs : List Char) : NumberText :=
  let whole := cs.takeWhile Text.isDigit
  let afterWhole := cs.drop whole.length
  let fraction := fractionOf afterWhole
  ⟨whole, fraction, exponentOf (afterWhole.drop fraction.length)⟩

/-- Characters of the spelling, in order. -/
def NumberText.chars (n : NumberText) : List Char := n.whole ++ n.fraction ++ n.exponent

/-- Value of a spelling: an integer where it has neither fraction nor exponent and fits in 64
    bits, else a decimal. -/
def NumberText.kind? (n : NumberText) : Option TokenKind :=
  let whole := if n.whole.isEmpty then ['0'] else n.whole
  match n.exponent with
  | _ :: exponent => (Decimal.readScientific? (whole ++ n.fraction) exponent).map .decimal
  | [] =>
    if n.fraction.isEmpty then
      match Numeral.integer? n.whole with
      | some value => some (.integer value)
      | none => (Decimal.readPlain? n.whole).map .decimal
    else (Decimal.readPlain? (whole ++ n.fraction)).map .decimal

/-- A number that begins at an offset with a digit or a point. -/
def readNumber (offset : Nat) (cs : List Char) : Reading :=
  let number := numberText cs
  let chars := number.chars
  match number.kind? with
  | some kind => ⟨kind, chars.length - 1, []⟩
  | none =>
    ⟨.invalid, chars.length - 1,
      [⟨.invalidNumber (String.ofList chars), ⟨offset, offset + Text.byteLength chars⟩⟩]⟩

/-! ## 4. Signs -/

/-- A sign of two characters, if the second follows, else the sign of one. -/
def oneOrTwo (second : Char) (double single : Sign) (cs : List Char) : Reading :=
  if cs.head? = some second then ⟨.sign double, 1, []⟩ else ⟨.sign single, 0, []⟩

/-- Signs that are one character whatever follows. -/
def single? (c : Char) : Option Sign :=
  [(',', Sign.comma), ('*', .star), ('/', .slash), ('%', .percent), ('?', .question),
   (':', .colon), ('(', .lParen), (')', .rParen), ('[', .lBracket), (']', .rBracket),
   ('{', .lBrace), ('}', .rBrace), ('.', .dot)].lookup c

/-- Signs of one character that make another sign with a second one. -/
def paired? (c : Char) : Option (Char × Sign × Sign) :=
  [('+', '=', Sign.plusEq, Sign.plus), ('-', '>', .arrow, .minus), ('=', '=', .eqEq, .assign),
   ('!', '=', .notEq, .not), ('<', '=', .ltEq, .lt), ('>', '=', .gtEq, .gt)].lookup c

/-- Signs that are a doubled character and nothing alone. -/
def doubled? (c : Char) : Option Sign :=
  [('&', Sign.and), ('|', .or)].lookup c

/-- A character that begins no token. -/
def readInvalid (offset : Nat) (c : Char) : Reading :=
  ⟨.invalid, 0, [⟨.unexpectedCharacter c, ⟨offset, offset + c.utf8Size⟩⟩]⟩

/-! ## 5. Any token -/

/-- The token that begins with a character at an offset. -/
def read (offset : Nat) (c : Char) (cs : List Char) : Reading :=
  if c = '.' && cs.head?.any Text.isDigit then readNumber offset (c :: cs)
  else if let some sign := single? c then ⟨.sign sign, 0, []⟩
  else if let some (second, double, single) := paired? c then oneOrTwo second double single cs
  else if let some sign := doubled? c then
    if cs.head? = some c then ⟨.sign sign, 1, []⟩ else readInvalid offset c
  else if c = '"' || c = '\'' then readString offset c cs
  else if isNameStart c then readWord c cs
  else if Text.isDigit c then readNumber offset (c :: cs)
  else readInvalid offset c

end Lexer

/-- A token and its errors in front. -/
def Lexed.push (token : Token) (errors : List LexError) (rest : Lexed) : Lexed :=
  ⟨token :: rest.tokens, errors ++ rest.errors⟩

/-- Tokens of a text that begins at an offset. The first number counts characters that still
    belong to the token taken before. -/
def lexFrom : Nat → Nat → List Char → Lexed
  | _, offset, [] => ⟨[Token.eofAt offset], []⟩
  | open_ + 1, offset, c :: cs => lexFrom open_ (offset + c.utf8Size) cs
  | 0, offset, c :: cs =>
    if Text.isBlank c then lexFrom 0 (offset + c.utf8Size) cs
    else
      let reading := Lexer.read offset c cs
      let text := c :: cs.take reading.extra
      (lexFrom reading.extra (offset + c.utf8Size) cs).push
        ⟨reading.kind, String.ofList text, ⟨offset, offset + Text.byteLength text⟩⟩
        reading.errors

/-- Tokens of a text whose first byte sits at an offset of its document. -/
def lex (source : List Char) (offset : Nat) : Lexed := lexFrom 0 offset source

/-! ## 6. Skipping what belongs to a token -/

/-- Going over the characters of an open token is going on after them. -/
theorem lexFrom_skip (n : Nat) (offset : Nat) (cs : List Char) :
    lexFrom n offset cs = lexFrom 0 (offset + Text.byteLength (cs.take n)) (cs.drop n) := by
  induction cs generalizing n offset with
  | nil => cases n <;> simp [lexFrom]
  | cons c cs ih =>
    cases n with
    | zero => simp
    | succ n => simp [lexFrom, ih n, Nat.add_assoc]

end FlowExpr
