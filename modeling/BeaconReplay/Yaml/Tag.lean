import BeaconReplay.Yaml.Scalar

/-!
# Tags, anchors and directives

The names that stand in front of a node or a document. Each reader starts behind the indicator
or at it, as its comment says, and gives nothing where the name is malformed.
-/
namespace BeaconReplay.Yaml

/-- The name of an anchor or of an alias, behind its indicator. -/
def anchorName (c : Cursor) : Option (String × Cursor) :=
  let (name, c) := c.takeWhile isWordChar
  let ended := atBlank c.rest || match c.rest with
    | ch :: _ => ['?', ':', ',', ']', '}', '%', '@', '`'].contains ch
    | [] => true
  if name.isEmpty || !ended then none else some (String.ofList name, c)

/-- Whether a character may stand in a tag. -/
def isTagChar (verbatim : Bool) (c : Char) : Bool :=
  isWordChar c
    || [';', '/', '?', ':', '@', '&', '=', '+', '$', '.', '!', '~', '*', '\'', '(', ')'].contains c
    || (verbatim && [',', '[', ']'].contains c)

/-- The byte of an escape in front of a text. -/
def escapedByte? : List Char → Option (Nat × List Char)
  | '%' :: rest => hexNumber? 2 0 rest
  | _ => none

/-- The number of bytes of a character by its first byte. -/
def encodedWidth? (b : Nat) : Option Nat :=
  if b < 0x80 then some 1
  else if b < 0xC0 then none
  else if b < 0xE0 then some 2
  else if b < 0xF0 then some 3
  else if b < 0xF8 then some 4
  else none

/-- The bytes behind the first one of an escaped character, which has the value `v` so far. -/
def continuation? : Nat → Nat → List Char → Option (Nat × List Char)
  | 0, v, cs => some (v, cs)
  | n + 1, v, cs => do
    let (b, rest) ← escapedByte? cs
    if b / 0x40 = 2 then continuation? n (v * 0x40 + b % 0x40) rest else none

/-- The character that the escapes in front of a text spell, the number of escapes, and what
follows them. -/
def escapedChar? (cs : List Char) : Option (Char × Nat × List Char) := do
  let (b, rest) ← escapedByte? cs
  let width ← encodedWidth? b
  let lead := if width = 1 then b else b % Nat.pow 2 (7 - width)
  let (v, rest) ← continuation? (width - 1) lead rest
  pure (Char.ofNat v, width, rest)

/-- The characters of a tag in reverse on top of `acc`, and the cursor behind them. -/
def tagChars (verbatim : Bool) : Nat → List Char → Cursor → Option (List Char × Cursor)
  | 0, _, _ => none
  | fuel + 1, acc, c =>
    match c.rest with
    | [] => some (acc, c)
    | ch :: _ =>
      if ch == '%' then
        match escapedChar? c.rest with
        | some (decoded, width, rest) =>
          tagChars verbatim fuel (decoded :: acc) (c.onLine (3 * width) rest)
        | none => none
      else if isTagChar verbatim ch then tagChars verbatim fuel (ch :: acc) c.next
      else some (acc, c)

/-- A tag text that is not empty. -/
def tagText (verbatim : Bool) (limit : Nat) (c : Cursor) : Option (String × Cursor) :=
  match tagChars verbatim limit [] c with
  | some (acc@(_ :: _), c) => some (String.ofList acc.reverse, c)
  | _ => none

/-- A handle, at its exclamation mark: the word behind the mark, whether a second mark closes
it, and the cursor. -/
def tagHandle (c : Cursor) : Option (List Char × Bool × Cursor) :=
  match c.rest with
  | '!' :: _ =>
    let (word, c) := c.next.takeWhile isWordChar
    match c.rest with
    | '!' :: _ => some (word, true, c.next)
    | _ => some (word, false, c)
  | _ => none

/-- Handle and suffix of a tag, at its exclamation mark. A lone mark is a suffix without a
handle. -/
def tagParts (limit : Nat) (c : Cursor) : Option ((String × String) × Cursor) :=
  match c.rest with
  | '!' :: '<' :: _ => do
    let (suffix, c) ← tagText true limit (c.skip 2)
    match c.rest with
    | '>' :: _ => pure (("", suffix), c.next)
    | _ => none
  | _ => do
    let (word, closed, c) ← tagHandle c
    if closed then
      let (suffix, c) ← tagText false limit c
      pure ((String.ofList ('!' :: word ++ ['!']), suffix), c)
    else
      let (acc, c) ← tagChars false limit word.reverse c
      if acc.isEmpty then pure (("", "!"), c)
      else pure (("!", String.ofList acc.reverse), c)

/-- The token of a tag, which has to end at a blank, or at a comma inside brackets. -/
def tagToken (inFlow : Bool) (limit : Nat) (c : Cursor) : Option (Token × Cursor) := do
  let ((handle, suffix), c) ← tagParts limit c
  if atBlank c.rest || (inFlow && c.rest.head? == some ',') then
    pure (.tag handle suffix, c)
  else none

/-- A version number of at most nine digits. -/
def versionNumber (c : Cursor) : Option (Nat × Cursor) :=
  let (digits, c) := c.takeWhile fun ch => '0' ≤ ch && ch ≤ '9'
  if digits.isEmpty || 9 < digits.length then none
  else some (digits.foldl (fun n d => n * 10 + (d.toNat - 48)) 0, c)

/-- The token of a directive, behind its percent sign; the rest of the line has to be blank. -/
def directiveToken (limit : Nat) (c : Cursor) : Option (Token × Cursor) := do
  let (name, c) := c.takeWhile isWordChar
  if !atBlank c.rest then none
  else if name == ['Y', 'A', 'M', 'L'] then
    let (major, c) ← versionNumber c.skipBlanks
    match c.rest with
    | '.' :: _ =>
      let (minor, c) ← versionNumber c.next
      let c ← c.endLine?
      pure (.versionDirective major minor, c)
    | _ => none
  else if name == ['T', 'A', 'G'] then
    let (word, closed, c) ← tagHandle c.skipBlanks
    if !closed && !word.isEmpty then none
    else
      match c.rest with
      | ch :: _ =>
        if isBlank ch then
          let (tagStart, c) ← tagText true limit c.skipBlanks
          if atBlank c.rest then
            let c ← c.endLine?
            let handle := '!' :: word ++ (if closed then ['!'] else [])
            pure (.tagDirective (String.ofList handle) tagStart, c)
          else none
        else none
      | [] => none
  else none

end BeaconReplay.Yaml
