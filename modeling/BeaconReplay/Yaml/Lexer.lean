import BeaconReplay.Yaml.Tag

/-!
# From a text to its tokens

Block structure is shown by indentation, so opening a block is a token without characters. A
mapping in block style starts at its first key, which is known for a key only when its colon
comes up; until then the key is pending, and a token may still be put in front of it. A pending
key has to stay on one line and within 1024 characters, and where the indentation asks for a key
its colon must come.
-/
namespace BeaconReplay.Yaml

/-- Where a key may have started. -/
structure PendingKey where
  /-- The number of tokens in front of it. -/
  position : Nat
  index : Nat
  line : Nat
  column : Nat
  /-- Whether the block allows nothing but a key there. -/
  required : Bool

/-- The state of the lexer. -/
structure Lexer where
  cursor : Cursor
  /-- The column of the innermost open block, or -1 outside of all blocks. -/
  indent : Int
  /-- The columns of the enclosing blocks, innermost first. -/
  indents : List Int
  /-- Whether a key without an indicator may start here. -/
  keyAllowed : Bool
  /-- The pending key inside the innermost brackets. -/
  pending : Option PendingKey
  /-- The pending keys around each open bracket, innermost first. -/
  around : List (Option PendingKey)
  /-- The tokens so far in reverse. -/
  tokens : List Token
  /-- The number of tokens so far. -/
  count : Nat

namespace Lexer

/-- The state in front of a text. -/
def start (cs : List Char) : Lexer where
  cursor := .start cs
  indent := -1
  indents := []
  keyAllowed := true
  pending := none
  around := []
  tokens := [.streamStart]
  count := 1

/-- Whether brackets are open. -/
def inFlow (s : Lexer) : Bool := !s.around.isEmpty

/-- Add a token. -/
def emit (s : Lexer) (t : Token) : Lexer := { s with tokens := t :: s.tokens, count := s.count + 1 }

/-- Put a token in front of all but the first `position` ones. -/
def emitAt (s : Lexer) (position : Nat) (t : Token) : Lexer :=
  let later := s.count - position
  { s with tokens := s.tokens.take later ++ t :: s.tokens.drop later, count := s.count + 1 }

/-- Whether a pending key has come too far from its start to be a key. -/
def isStale (s : Lexer) (k : PendingKey) : Bool :=
  k.line < s.cursor.line || k.index + 1024 < s.cursor.index

/-- A pending key after the cursor has moved; a required one must not get lost. -/
def refreshKey (s : Lexer) : Option PendingKey → Option (Option PendingKey)
  | none => some none
  | some k => if s.isStale k then (if k.required then none else some none) else some (some k)

/-- Forget the pending keys that can be no keys any more. -/
def refresh (s : Lexer) : Option Lexer := do
  let pending ← s.refreshKey s.pending
  let around ← s.around.mapM s.refreshKey
  pure { s with pending, around }

/-- Give up the pending key of this level. -/
def dropKey (s : Lexer) : Option Lexer :=
  match s.pending with
  | some k => if k.required then none else some { s with pending := none }
  | none => some s

/-- Note that a key may start here. -/
def noteKey (s : Lexer) : Option Lexer :=
  if s.keyAllowed then do
    let s ← s.dropKey
    pure { s with
      pending := some {
        position := s.count
        index := s.cursor.index
        line := s.cursor.line
        column := s.cursor.column
        required := !s.inFlow && s.indent == s.cursor.column } }
  else some s

/-- Open a block at a column that lies inside the current one. -/
def openBlock (s : Lexer) (column : Nat) (position : Option Nat) (t : Token) : Lexer :=
  if !s.inFlow && s.indent < column then
    let s := { s with indents := s.indent :: s.indents, indent := column }
    match position with
    | none => s.emit t
    | some p => s.emitAt p t
  else s

/-- Close all blocks to the right of a column. -/
def closeBlocksFrom (column : Int) : List Int → Lexer → Lexer
  | [], s => s
  | parent :: parents, s =>
    if column < s.indent then
      closeBlocksFrom column parents
        ({ s with indent := parent, indents := parents }.emit .blockEnd)
    else s

/-- Close all blocks to the right of a column; brackets keep blocks open. -/
def closeBlocks (s : Lexer) (column : Int) : Lexer :=
  if s.inFlow then s else closeBlocksFrom column s.indents s

/-- Pass over `n` characters that make up a token. -/
def punctuation (s : Lexer) (n : Nat) (t : Token) : Lexer :=
  { s with cursor := s.cursor.skip n }.emit t

/-- Leave all blocks in front of something that belongs to the stream. -/
def leaveDocument (s : Lexer) : Option Lexer := do
  let s ← (s.closeBlocks (-1)).dropKey
  pure { s with keyAllowed := false }

/-- The end of the text. -/
def finish (s : Lexer) : Option Lexer := do
  let c := s.cursor
  let c := if c.column = 0 then c else { c with line := c.line + 1, column := 0 }
  let s ← { s with cursor := c }.leaveDocument
  pure (s.emit .streamEnd)

/-- A directive. -/
def directive (limit : Nat) (s : Lexer) : Option Lexer := do
  let s ← s.leaveDocument
  let (t, c) ← directiveToken limit s.cursor.next
  pure ({ s with cursor := c }.emit t)

/-- A document marker. -/
def marker (s : Lexer) (t : Token) : Option Lexer := do
  let s ← s.leaveDocument
  pure (s.punctuation 3 t)

/-- An opening bracket. -/
def openBracket (s : Lexer) (t : Token) : Option Lexer := do
  let s ← s.noteKey
  let s := { s with around := s.pending :: s.around, pending := none, keyAllowed := true }
  pure (s.punctuation 1 t)

/-- A closing bracket. -/
def closeBracket (s : Lexer) (t : Token) : Option Lexer := do
  let s ← s.dropKey
  let s := match s.around with
    | k :: ks => { s with pending := k, around := ks }
    | [] => s
  pure ({ s with keyAllowed := false }.punctuation 1 t)

/-- A comma. -/
def flowEntry (s : Lexer) : Option Lexer := do
  let s ← s.dropKey
  pure ({ s with keyAllowed := true }.punctuation 1 .flowEntry)

/-- Open a block at an indicator, where one may stand. -/
def openAtIndicator (s : Lexer) (t : Token) : Option Lexer :=
  if s.inFlow then some s
  else if s.keyAllowed then some (s.openBlock s.cursor.column none t)
  else none

/-- The dash of a sequence. -/
def blockEntry (s : Lexer) : Option Lexer := do
  let s ← s.openAtIndicator .blockSequenceStart
  let s ← s.dropKey
  pure ({ s with keyAllowed := true }.punctuation 1 .blockEntry)

/-- The question mark of a key. -/
def key (s : Lexer) : Option Lexer := do
  let s ← s.openAtIndicator .blockMappingStart
  let s ← s.dropKey
  pure ({ s with keyAllowed := !s.inFlow }.punctuation 1 .key)

/-- The colon of a value: a pending key becomes a key. -/
def value (s : Lexer) : Option Lexer := do
  match s.pending with
  | some k =>
    let s := s.emitAt k.position .key
    let s := s.openBlock k.column (some k.position) .blockMappingStart
    pure ({ s with pending := none, keyAllowed := false }.punctuation 1 .value)
  | none =>
    let s ← s.openAtIndicator .blockMappingStart
    pure ({ s with keyAllowed := !s.inFlow }.punctuation 1 .value)

/-- A token that may start a key. -/
def keyStart (s : Lexer) (read : Cursor → Option (Token × Cursor)) : Option Lexer := do
  let s ← s.noteKey
  let (t, c) ← read s.cursor
  pure ({ s with cursor := c, keyAllowed := false }.emit t)

/-- An anchor or an alias. -/
def name (s : Lexer) (token : String → Token) : Option Lexer :=
  s.keyStart fun c => do
    let (word, c) ← anchorName c.next
    pure (token word, c)

/-- A scalar in quotes. -/
def quoted (limit : Nat) (s : Lexer) (single : Bool) : Option Lexer :=
  s.keyStart fun c => do
    let (acc, c) ← quotedScalar single limit limit [] c.next
    pure (.scalar (String.ofList acc.reverse) (if single then .singleQuoted else .doubleQuoted), c)

/-- A block scalar. -/
def block (limit : Nat) (s : Lexer) (literal : Bool) : Option Lexer := do
  let s ← s.dropKey
  let (acc, c) ← blockScalar literal s.indent limit s.cursor.next
  let t := Token.scalar (String.ofList acc.reverse) (if literal then .literal else .folded)
  pure ({ s with cursor := c, keyAllowed := true }.emit t)

/-- A plain scalar; behind a line break a key may follow it. -/
def plain (limit : Nat) (s : Lexer) : Option Lexer := do
  let s ← s.noteKey
  let (acc, broken, c) ←
    plainScalar s.inFlow (s.indent + 1).toNat limit limit [] .none s.cursor
  let t := Token.scalar (String.ofList acc.reverse) .plain
  pure ({ s with cursor := c, keyAllowed := broken }.emit t)

/-- Whether a character marks something else than a plain scalar. -/
def isIndicator (c : Char) : Bool :=
  ['-', '?', ':', ',', '[', ']', '{', '}', '#', '&', '*', '!', '|', '>', '\'', '"', '%', '@', '`']
    |>.contains c

/-- Whether a plain scalar may start at a text. -/
def startsPlain (inFlow : Bool) : List Char → Bool
  | [] => false
  | c :: rest =>
    let blankNext := match rest with
      | d :: _ => isBlank d
      | [] => false
    !(isBlank c || isBreak c || isIndicator c) || (c == '-' && !blankNext)
      || (!inFlow && (c == '?' || c == ':') && !atBlank rest)

/-- The token at the cursor. -/
def token (limit : Nat) (s : Lexer) : Option Lexer :=
  match s.cursor.rest with
  | [] => s.finish
  | c :: rest =>
    let atStart := s.cursor.column == 0
    if atStart && c == '%' then directive limit s
    else if atStart && atMarker (c :: rest) then
      s.marker (if c == '-' then .documentStart else .documentEnd)
    else if c == '[' then s.openBracket .flowSequenceStart
    else if c == '{' then s.openBracket .flowMappingStart
    else if c == ']' then s.closeBracket .flowSequenceEnd
    else if c == '}' then s.closeBracket .flowMappingEnd
    else if c == ',' then s.flowEntry
    else if c == '-' && atBlank rest then s.blockEntry
    else if c == '?' && (s.inFlow || atBlank rest) then s.key
    else if c == ':' && (s.inFlow || atBlank rest) then s.value
    else if c == '*' then s.name .alias
    else if c == '&' then s.name .anchor
    else if c == '!' then s.keyStart (tagToken s.inFlow limit)
    else if c == '|' && !s.inFlow then block limit s true
    else if c == '>' && !s.inFlow then block limit s false
    else if c == '\'' then quoted limit s true
    else if c == '"' then quoted limit s false
    else if startsPlain s.inFlow (c :: rest) then plain limit s
    else none

/-- Pass over blanks and comments and read the next token. -/
def step (limit : Nat) (s : Lexer) : Option Lexer := do
  let (keyAllowed, c) := s.cursor.toToken s.inFlow limit s.keyAllowed
  let s ← { s with keyAllowed, cursor := c }.refresh
  let s ← token limit (s.closeBlocks c.column)
  s.refresh

/-- The tokens in front of the first pending key, which no later text can change. -/
def settled (s : Lexer) : List Token :=
  match (s.pending :: s.around).reverse.findSome? id with
  | some k => (s.tokens.drop (s.count - k.position)).reverse
  | none => s.tokens.reverse

/-- The tokens of the rest of a text. A text that breaks off, or that is cut short, gives the
tokens that were settled before the fault. -/
def run (limit : Nat) (cut : Bool) : Nat → Lexer → List Token
  | 0, s => s.settled
  | fuel + 1, s =>
    match step limit s with
    | none => s.settled
    | some t =>
      if t.tokens.head? = some .streamEnd then (if cut then s.settled else t.tokens.reverse)
      else run limit cut fuel t

end Lexer

/-- Whether a character may stand in a text. -/
def isAllowed (c : Char) : Bool :=
  let n := c.toNat
  n == 9 || n == 10 || n == 13 || (0x20 ≤ n && n ≤ 0x7E) || n == 0x85
    || (0xA0 ≤ n && n ≤ 0xD7FF) || (0xE000 ≤ n && n ≤ 0xFFFD) || 0x10000 ≤ n

/-- The number of bytes that are taken in at a time. -/
def windowSize : Nat := 16384

/-- The part of a text in front of the window that holds its first forbidden character; the whole
text if there is none. `n` bytes stand in front of the rest, `kept` holds the windows so far in
reverse and `acc` the current one. -/
def beforeForbidden : Nat → List Char → List Char → List Char → List Char × Bool
  | _, kept, acc, [] => ((acc ++ kept).reverse, false)
  | n, kept, acc, c :: cs =>
    if isAllowed c then
      let m := n + c.utf8Size
      if n / windowSize < m / windowSize then beforeForbidden m (acc ++ kept) [c] cs
      else beforeForbidden m kept (c :: acc) cs
    else (kept.reverse, true)

/-- The tokens of a text, up to the first fault. They end in `streamEnd` if there is none. -/
def tokens (s : String) : List Token :=
  let (cs, cut) := beforeForbidden 0 [] [] s.toList
  let limit := 2 * cs.length + 4
  if cut && cs.isEmpty then [] else Lexer.run limit cut limit (.start cs)

end BeaconReplay.Yaml
