import FlowExpr.Yaml.Token

/-!
# Directives, tags and anchors

Readings of the parts of a document that only properties and directives have. A structure with
a tag or an anchor is refused later on, so of a tag only its handle is kept, and of a directive
only what later tags depend on.
-/

namespace FlowExpr.Yaml

/-! ## 1. Addresses -/

/-- Characters of an address. -/
def isUriChar (c : Char) : Bool :=
  (isNameChar c && c != '_') || "#;/?:@&=+$,_.!~*'()[]%".toList.contains c

/-- Characters of a tag's suffix. -/
def isTagChar (c : Char) : Bool := isUriChar c && !isFlowSign c && c != '!'

/-- One octet written as a percent sign and two hexadecimal digits. -/
def octet? (c : Cursor) : Option Nat :=
  if c.peek == '%' then do
    let high ← hexValue? (c.peekAt 1)
    let low ← hexValue? (c.peekAt 2)
    return high * 16 + low
  else none

/-- Octets that the first one announces. -/
def octetCount? (octet : Nat) : Option Nat :=
  if octet < 0x80 then some 1
  else if octet / 32 = 6 then some 2
  else if octet / 16 = 14 then some 3
  else if octet / 8 = 30 then some 4
  else none

/-- Further octets of an escape, put one behind the other. -/
def octetsAfter? : Nat → Nat → Cursor → Option (Nat × Cursor)
  | 0, code, c => some (code, c)
  | n + 1, code, c => do
    let octet ← octet? c
    if octet / 64 = 2 then octetsAfter? n (code * 256 + octet) (c.drop 3) else none

/-- An escaped character of an address: the octets in a row have to be the number of one. -/
def uriEscape? (c : Cursor) : Option Cursor := do
  let first ← octet? c
  let count ← octetCount? first
  let (code, after) ← octetsAfter? (count - 1) first (c.drop 3)
  let _ ← charOf? code
  return after

/-- Characters of an address of a class, at most so many; the answer counts them. -/
def uriChars? (p : Char → Bool) : Nat → Nat → Cursor → Option (Nat × Cursor)
  | 0, count, c => some (count, c)
  | n + 1, count, c =>
    if p c.peek then
      if c.peek == '%' then do uriChars? p n (count + 1) (← uriEscape? c)
      else uriChars? p n (count + 1) (c.drop 1)
    else some (count, c)

/-! ## 2. Tags -/

/-- Handle of a tag: an exclamation mark, a name, and perhaps another exclamation mark. -/
def tagHandle? (c : Cursor) : Option (List Char × Cursor) :=
  if c.peek == '!' then
    let (name, after) := (c.drop 1).takeWhile isNameChar
    if after.peek == '!' then some ('!' :: name ++ ['!'], after.drop 1)
    else some ('!' :: name, after)
  else none

/-- The handle is closed by an exclamation mark of its own. -/
def isClosedHandle (handle : List Char) : Bool :=
  2 ≤ handle.length && handle.getLast? == some '!'

/-- A tag; the answer has its handle, which is empty for a whole address and for the mark
    alone. -/
def readTag? (inFlow : Bool) (c : Cursor) : Option (String × Cursor) := do
  let (handle, after) ←
    if c.peekAt 1 == '<' then do
      let (_, after) ← uriChars? isUriChar c.rest.length 0 (c.drop 2)
      if after.peek == '>' then some (([] : List Char), after.drop 1) else none
    else do
      let (handle, after) ← tagHandle? c
      let (count, after) ← uriChars? isTagChar after.rest.length 0 after
      if isClosedHandle handle then
        if count = 0 then none else some (handle, after)
      else if handle.length = 1 && count = 0 then some ([], after)
      else some (['!'], after)
  if isSeparator after.peek || (inFlow && isFlowSign after.peek) then
    return (String.ofList handle, after)
  else none

/-! ## 3. Anchors -/

/-- Characters of an anchor's name. -/
def isAnchorChar (c : Char) : Bool :=
  !isSeparator c && !isFlowSign c && c != '\ufeff'

/-- An anchor or alias after its sign. -/
def readAnchor? (c : Cursor) : Option (String × Cursor) :=
  let (name, after) := (c.drop 1).takeWhile isAnchorChar
  if name.isEmpty then none else some (String.ofList name, after)

/-! ## 4. Directives -/

/-- A number of a version: one to nine digits. -/
def versionNumber? (c : Cursor) : Option Cursor :=
  let (digits, after) := c.takeWhile Text.isDigit
  if digits.isEmpty || 9 < digits.length then none else some after

/-- The rest of a version directive. -/
def versionDirective? (c : Cursor) : Option (TokenKind × Cursor) := do
  let after ← versionNumber? (c.dropBlanksWhile isGap)
  if after.peek == '.' then return (.versionDirective, ← versionNumber? (after.drop 1)) else none

/-- Address that a tag directive gives its handle. -/
def tagAddress? (c : Cursor) : Option Cursor := do
  let first ←
    if c.peek == '!' then some (c.drop 1)
    else if !isTagChar c.peek then none
    else if c.peek == '%' then uriEscape? c
    else some (c.drop 1)
  let (_, after) ← uriChars? isUriChar first.rest.length 0 first
  return after

/-- The rest of a tag directive. -/
def tagDirective? (c : Cursor) : Option (TokenKind × Cursor) := do
  let (handle, afterHandle) ← tagHandle? (c.dropBlanksWhile isGap)
  if handle.length = 1 || isClosedHandle handle then
    let after ← tagAddress? (afterHandle.dropBlanksWhile isGap)
    if isSeparator after.peek then return (.tagDirective (String.ofList handle), after) else none
  else none

/-- A directive from its percent sign to the end of its line. One with an unknown name counts
    as a directive for the empty handle. -/
def readDirective? (c : Cursor) : Option (TokenKind × Cursor) := do
  let (name, afterName) := (c.drop 1).takeWhile isNameChar
  if name.isEmpty || !isSeparator afterName.peek then none
  else
    let (kind, after) ←
      if name = "YAML".toList then versionDirective? afterName
      else if name = "TAG".toList then tagDirective? afterName
      else some (TokenKind.tagDirective "", afterName.dropLine)
    let (_, lineEnd) ← after.lineRest? true
    if isLineEndOrEnd lineEnd.peek then
      return (kind, if isEnd lineEnd.peek then lineEnd else lineEnd.lineBreak)
    else none

end FlowExpr.Yaml
