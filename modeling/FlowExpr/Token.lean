import FlowExpr.Decimal
import FlowExpr.Span

/-!
# Tokens of the expression language

A token is a literal, a name, a sign, unreadable input or the end of the expression. Signs
with a word form (`and` for `&&`, `div` for `/`, …) are the same sign in either spelling, so a
token also keeps the text that it was written as.

* `TokenKind.keyword?`: the words that are not names;
* `TokenKind.category`, `TokenKind.describe`: how listings and messages name a token;
* `Token.memberName?`: what a token gives as a property name after a dot.
-/

namespace FlowExpr

/-- Operators, punctuation and delimiters. -/
inductive Sign where
  | eqEq | notEq | lt | gt | ltEq | gtEq
  | plus | minus | star | slash | percent | plusEq
  | and | or | not | empty | instanceOf
  | question | colon | assign | arrow
  | lBracket | rBracket | lParen | rParen | lBrace | rBrace
  | dot | comma
  deriving DecidableEq, Repr

/-- What a token is. -/
inductive TokenKind where
  | integer (value : Int)
  | decimal (value : Decimal)
  | string (text : String)
  | boolean (value : Bool)
  | null
  | identifier (name : String)
  | sign (sign : Sign)
  | invalid
  | eof
  deriving DecidableEq, Repr

/-- A token, the text it was written as, and where. -/
structure Token where
  kind : TokenKind
  text : String
  span : Span
  deriving DecidableEq, Repr

namespace Sign

/-- The sign as messages show it. -/
def symbol : Sign → String
  | eqEq => "==" | notEq => "!=" | lt => "<" | gt => ">" | ltEq => "<=" | gtEq => ">="
  | plus => "+" | minus => "-" | star => "*" | slash => "/" | percent => "%" | plusEq => "+="
  | and => "&&" | or => "||" | not => "!" | empty => "empty" | instanceOf => "instanceof"
  | question => "?" | colon => ":" | assign => "=" | arrow => "->"
  | lBracket => "[" | rBracket => "]" | lParen => "(" | rParen => ")"
  | lBrace => "\x7b" | rBrace => "\x7d"
  | dot => "." | comma => ","

/-- Signs that can also be spelled as a word. -/
def isWordy : Sign → Bool
  | eqEq | notEq | lt | gt | ltEq | gtEq | slash | percent | and | or | not | empty
  | instanceOf => true
  | _ => false

/-- Signs listed as operators, the two marks of a conditional included. -/
def isOperator : Sign → Bool
  | eqEq | notEq | lt | gt | ltEq | gtEq | plus | minus | star | slash | percent | plusEq
  | and | or | not | empty | instanceOf | question | colon => true
  | _ => false

/-- Opening delimiters. -/
def isOpening : Sign → Bool
  | lBracket | lParen | lBrace => true
  | _ => false

/-- Closing delimiters. -/
def isClosing : Sign → Bool
  | rBracket | rParen | rBrace => true
  | _ => false

/-- Class of a sign in a listing. -/
def category : Sign → String
  | dot => "DOT" | comma => "COMMA" | colon => "COLON" | question => "QUESTION"
  | arrow => "ARROW" | lBracket => "LBRACKET" | rBracket => "RBRACKET" | lParen => "LPAREN"
  | rParen => "RPAREN" | lBrace => "LBRACE" | rBrace => "RBRACE"
  | _ => "OPERATOR"

end Sign

namespace TokenKind

/-- The words that are not names. -/
def keywords : List (String × TokenKind) :=
  [("true", .boolean true), ("false", .boolean false), ("null", .null),
   ("and", .sign .and), ("or", .sign .or), ("not", .sign .not),
   ("eq", .sign .eqEq), ("ne", .sign .notEq), ("lt", .sign .lt), ("gt", .sign .gt),
   ("le", .sign .ltEq), ("ge", .sign .gtEq), ("div", .sign .slash), ("mod", .sign .percent),
   ("empty", .sign .empty), ("instanceof", .sign .instanceOf)]

/-- What a word means when it is not a name. -/
def keyword? (word : String) : Option TokenKind := keywords.lookup word

/-- The kind can be spelled as a word that is not a name. -/
def isKeyword : TokenKind → Bool
  | boolean _ | null => true
  | sign s => s.isWordy
  | _ => false

/-- The kind is an operator. -/
def isOperator : TokenKind → Bool
  | sign s => s.isOperator
  | _ => false

/-- Class of a token in a listing. -/
def category : TokenKind → String
  | integer _ | decimal _ => "NUMBER"
  | string _ => "STRING"
  | boolean _ | null => "KEYWORD"
  | identifier _ => "IDENT"
  | sign s => s.category
  | invalid => "INVALID"
  | eof => "EOF"

/-- How a message names a token that it did not expect. -/
def describe : TokenKind → String
  | integer n => "number " ++ toString n
  | decimal d => "number " ++ d.toString
  | string _ => "string literal"
  | boolean b => "'" ++ (if b then "true" else "false") ++ "'"
  | null => "'null'"
  | identifier name => "identifier '" ++ name ++ "'"
  | sign s => "'" ++ s.symbol ++ "'"
  | invalid => "invalid input"
  | eof => "end of expression"

end TokenKind

namespace Token

/-- The end of the expression. -/
def isEof (t : Token) : Bool := t.kind == .eof

/-- The end of the expression, at an offset. -/
def eofAt (offset : Nat) : Token := ⟨.eof, "", Span.empty offset⟩

/-- Property name that a token gives after a dot: a name is itself, and a keyword is what it
    was written as. -/
def memberName? (t : Token) : Option String :=
  match t.kind with
  | .identifier name => some name
  | kind => if kind.isKeyword then some t.text else none

end Token

end FlowExpr
