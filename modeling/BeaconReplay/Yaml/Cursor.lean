/-!
# Positions in a YAML text

A cursor is the rest of a text with the index, line and column of its first character. The
character classes are those of YAML: a break is one of five line ends, a blank is a space or a
tab, and the end of the text counts as both where a token may end.
-/
namespace BeaconReplay.Yaml

/-- Whether a character ends a line. -/
def isBreak (c : Char) : Bool :=
  c == '\n' || c == '\r' || c == '\x85' || c == '\u2028' || c == '\u2029'

/-- Whether a character is a space or a tab. -/
def isBlank (c : Char) : Bool := c == ' ' || c == '\t'

/-- Whether a text is at its end, at a blank or at a break. -/
def atBlank : List Char → Bool
  | [] => true
  | c :: _ => isBlank c || isBreak c

/-- Whether a character may stand in a name: an ASCII letter or digit, `_` or `-`. -/
def isWordChar (c : Char) : Bool :=
  ('0' ≤ c && c ≤ '9') || ('A' ≤ c && c ≤ 'Z') || ('a' ≤ c && c ≤ 'z') || c == '_' || c == '-'

/-- What a break becomes in the text of a scalar. -/
def breakChar (c : Char) : Char := if c == '\u2028' || c == '\u2029' then c else '\n'

/-- Whether a document marker with nothing attached to it starts a text. -/
def atMarker : List Char → Bool
  | '-' :: '-' :: '-' :: rest => atBlank rest
  | '.' :: '.' :: '.' :: rest => atBlank rest
  | _ => false

/-- A position in a text. -/
structure Cursor where
  rest : List Char
  index : Nat
  line : Nat
  column : Nat

namespace Cursor

/-- The start of a text. -/
def start (cs : List Char) : Cursor := ⟨cs, 0, 0, 0⟩

/-- Pass over `n` characters of a line, which leaves `rest`. -/
def onLine (c : Cursor) (n : Nat) (rest : List Char) : Cursor :=
  { c with rest := rest, index := c.index + n, column := c.column + n }

/-- Pass over one character of a line. -/
def next (c : Cursor) : Cursor := c.onLine 1 (c.rest.drop 1)

/-- Pass over `n` characters of a line. -/
def skip (c : Cursor) (n : Nat) : Cursor := c.onLine n (c.rest.drop n)

/-- Pass over a line break; a carriage return takes a line feed with it. -/
def newline (c : Cursor) : Cursor :=
  match c.rest with
  | '\r' :: '\n' :: rest => ⟨rest, c.index + 2, c.line + 1, 0⟩
  | _ :: rest => ⟨rest, c.index + 1, c.line + 1, 0⟩
  | [] => c

/-- Pass over the characters of a line that satisfy a test. -/
def skipWhile (p : Char → Bool) (c : Cursor) : Cursor :=
  let (taken, rest) := c.rest.span p
  c.onLine taken.length rest

/-- The characters of a line that satisfy a test, and the cursor behind them. -/
def takeWhile (p : Char → Bool) (c : Cursor) : List Char × Cursor :=
  let (taken, rest) := c.rest.span p
  (taken, c.onLine taken.length rest)

/-- Pass over blanks. -/
def skipBlanks (c : Cursor) : Cursor := c.skipWhile isBlank

/-- Pass over a comment, if one starts here. -/
def skipComment (c : Cursor) : Cursor :=
  match c.rest with
  | '#' :: _ => c.skipWhile fun ch => !isBreak ch
  | _ => c

/-- Pass over blanks and a comment and the break behind them; nothing else may be left on the
line. -/
def endLine? (c : Cursor) : Option Cursor :=
  let c := c.skipBlanks.skipComment
  match c.rest with
  | [] => some c
  | ch :: _ => if isBreak ch then some c.newline else none

/-- Pass over everything between tokens. `allowed` says whether a simple key may start; a new
line outside of brackets allows it. Tabs count as blanks only where no key may start. -/
def toToken (inFlow : Bool) : Nat → Bool → Cursor → Bool × Cursor
  | 0, allowed, c => (allowed, c)
  | fuel + 1, allowed, c =>
    let c := match c.rest with
      | '\ufeff' :: _ => if c.column = 0 then c.next else c
      | _ => c
    let c := c.skipWhile fun ch => ch == ' ' || ((inFlow || !allowed) && ch == '\t')
    let c := c.skipComment
    match c.rest with
    | [] => (allowed, c)
    | ch :: _ =>
      if isBreak ch then toToken inFlow fuel (allowed || !inFlow) c.newline else (allowed, c)

end Cursor

end BeaconReplay.Yaml
