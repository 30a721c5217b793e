import BeaconReplay.Json.Document
import BeaconReplay.Yaml.Cursor
import BeaconReplay.Yaml.Token

/-!
# Reading scalars

The four ways to write a scalar. Line breaks inside a scalar fold: a single one becomes a
space, and of several the first is dropped; only a literal block keeps them all.
-/
namespace BeaconReplay.Yaml

/-- The blank part met inside a scalar: blanks on one line, or the first break and those behind
it, all in reverse. -/
structure Gap where
  broken : Bool
  blanks : List Char
  first : List Char
  others : List Char

namespace Gap

/-- No gap. -/
def none : Gap := ⟨false, [], [], []⟩

/-- What a gap becomes between two words, in reverse. -/
def folded (g : Gap) : List Char :=
  if g.broken then
    if g.first = ['\n'] then if g.others.isEmpty then [' '] else g.others
    else g.others ++ g.first
  else g.blanks

/-- Extend a gap by a blank. -/
def blank (g : Gap) (c : Char) : Gap := if g.broken then g else { g with blanks := c :: g.blanks }

/-- Extend a gap by a break. -/
def newline (g : Gap) (c : Char) : Gap :=
  if g.broken then { g with others := breakChar c :: g.others }
  else { g with broken := true, blanks := [], first := [breakChar c] }

end Gap

/-- Pass over blanks and breaks. A tab to the left of `indent` on a later line is refused. -/
def readGap (indent : Option Nat) : Nat → Gap → Cursor → Option (Gap × Cursor)
  | 0, _, _ => none
  | fuel + 1, g, c =>
    match c.rest with
    | [] => some (g, c)
    | ch :: _ =>
      if isBlank ch then
        if g.broken && ch == '\t' && (match indent with
            | some n => decide (c.column < n)
            | none => false) then none
        else readGap indent fuel (g.blank ch) c.next
      else if isBreak ch then readGap indent fuel (g.newline ch) c.newline
      else some (g, c)

/-- Whether a text starts with a character that may not follow a colon inside brackets. -/
def atFlowIndicator : List Char → Bool
  | c :: _ => c == ',' || c == '?' || c == '[' || c == ']' || c == '{' || c == '}'
  | [] => false

/-- One word of a plain scalar: the characters taken, in reverse on top of `acc`, their number,
and what follows them. -/
def plainWord (inFlow : Bool) : List Char → Nat → List Char → Option (List Char × Nat × List Char)
  | acc, n, [] => some (acc, n, [])
  | acc, n, c :: cs =>
    if isBlank c || isBreak c then some (acc, n, c :: cs)
    else if inFlow && c == ':' && atFlowIndicator cs then none
    else if (c == ':' && atBlank cs)
        || (inFlow && (c == ',' || c == '[' || c == ']' || c == '{' || c == '}')) then
      some (acc, n, c :: cs)
    else plainWord inFlow (c :: acc) (n + 1) cs

/-- A plain scalar whose further lines are indented by `indent`: its characters in reverse,
whether it ended behind a break, and the cursor. -/
def plainScalar (inFlow : Bool) (indent : Nat) (limit : Nat) :
    Nat → List Char → Gap → Cursor → Option (List Char × Bool × Cursor)
  | 0, _, _, _ => none
  | fuel + 1, acc, g, c =>
    if (c.column == 0 && atMarker c.rest) || c.rest.head? == some '#' then some (acc, g.broken, c)
    else
      match plainWord inFlow [] 0 c.rest with
      | none => none
      | some (word, n, rest) =>
        let c := c.onLine n rest
        let (acc, g) := if n = 0 then (acc, g) else (word ++ (g.folded ++ acc), Gap.none)
        match c.rest with
        | [] => some (acc, g.broken, c)
        | ch :: _ =>
          if isBlank ch || isBreak ch then
            match readGap (some indent) limit g c with
            | none => none
            | some (g, c) =>
              if !inFlow && c.column < indent then some (acc, g.broken, c)
              else plainScalar inFlow indent limit fuel acc g c
          else some (acc, g.broken, c)

/-- The character of an escape of one letter. -/
def shortEscape? (c : Char) : Option Char :=
  match c with
  | '0' => some '\x00'
  | 'a' => some '\x07'
  | 'b' => some '\x08'
  | 't' => some '\t'
  | '\t' => some '\t'
  | 'n' => some '\n'
  | 'v' => some '\x0b'
  | 'f' => some '\x0c'
  | 'r' => some '\r'
  | 'e' => some '\x1b'
  | ' ' => some ' '
  | '"' => some '"'
  | '/' => some '/'
  | '\\' => some '\\'
  | 'N' => some '\x85'
  | '_' => some '\xa0'
  | 'L' => some '\u2028'
  | 'P' => some '\u2029'
  | _ => none

/-- The number of digits of a numbered escape. -/
def escapeWidth? (c : Char) : Option Nat :=
  match c with
  | 'x' => some 2
  | 'u' => some 4
  | 'U' => some 8
  | _ => none

/-- The number that `n` hexadecimal digits in front of a text spell, and what follows them. -/
def hexNumber? : Nat → Nat → List Char → Option (Nat × List Char)
  | 0, v, cs => some (v, cs)
  | _ + 1, _, [] => none
  | n + 1, v, c :: cs => do
    let d ← Json.Document.hexValue? c
    hexNumber? n (v * 16 + d) cs

/-- How a run of characters inside quotes ends. -/
inductive RunEnd where
  | quote
  | gap
  | escapedBreak

/-- The characters inside quotes up to the closing quote, a blank or an escaped break: in
reverse on top of `acc`, their number in the text, and the rest. -/
def quotedRun (single : Bool) :
    Nat → List Char → Nat → List Char → Option (List Char × Nat × RunEnd × List Char)
  | 0, _, _, _ => none
  | _, acc, n, [] => some (acc, n, .gap, [])
  | fuel + 1, acc, n, c :: cs =>
    if isBlank c || isBreak c then some (acc, n, .gap, c :: cs)
    else if single then
      if c == '\'' then
        match cs with
        | '\'' :: rest => quotedRun single fuel ('\'' :: acc) (n + 2) rest
        | _ => some (acc, n, .quote, c :: cs)
      else quotedRun single fuel (c :: acc) (n + 1) cs
    else if c == '"' then some (acc, n, .quote, c :: cs)
    else if c == '\\' then
      match cs with
      | [] => none
      | e :: rest =>
        if isBreak e then some (acc, n + 1, .escapedBreak, cs)
        else
          match shortEscape? e with
          | some ch => quotedRun single fuel (ch :: acc) (n + 2) rest
          | none =>
            match escapeWidth? e with
            | none => none
            | some w =>
              match hexNumber? w 0 rest with
              | none => none
              | some (v, rest) =>
                if (0xD800 ≤ v && v ≤ 0xDFFF) || 0x10FFFF < v then none
                else quotedRun single fuel (Char.ofNat v :: acc) (n + 2 + w) rest
    else quotedRun single fuel (c :: acc) (n + 1) cs

/-- A quoted scalar behind its opening quote: its characters in reverse and the cursor behind
its closing quote. -/
def quotedScalar (single : Bool) (limit : Nat) :
    Nat → List Char → Cursor → Option (List Char × Cursor)
  | 0, _, _ => none
  | fuel + 1, acc, c =>
    if (c.column == 0 && atMarker c.rest) || c.rest.isEmpty then none
    else
      match quotedRun single limit acc 0 c.rest with
      | none => none
      | some (acc, n, ending, rest) =>
        let c := c.onLine n rest
        match ending with
        | .quote => some (acc, c.next)
        | ending =>
          let (g, c) : Gap × Cursor := match ending with
            | .escapedBreak => ({ Gap.none with broken := true }, c.newline)
            | _ => (Gap.none, c)
          if c.rest.head? == some (if single then '\'' else '"') then some (acc, c.next)
          else
            match readGap none limit g c with
            | none => none
            | some (g, c) => quotedScalar single limit fuel (g.folded ++ acc) c

/-- What to do with the breaks at the end of a block scalar. -/
inductive Chomping where
  | strip
  | clip
  | keep
  deriving DecidableEq

/-- The header of a block scalar: chomping and indentation, in either order. -/
def blockHeader (c : Cursor) : Option (Chomping × Nat × Cursor) :=
  let chomp? (c : Cursor) : Option (Chomping × Cursor) := match c.rest with
    | '+' :: _ => some (.keep, c.next)
    | '-' :: _ => some (.strip, c.next)
    | _ => none
  let digit? (c : Cursor) : Option Nat := match c.rest with
    | ch :: _ => if '0' ≤ ch ∧ ch ≤ '9' then some (ch.toNat - 48) else none
    | [] => none
  match chomp? c with
  | some (chomping, c) =>
    match digit? c with
    | some 0 => none
    | some d => some (chomping, d, c.next)
    | none => some (chomping, 0, c)
  | none =>
    match digit? c with
    | some 0 => none
    | some d =>
      match chomp? c.next with
      | some (chomping, c) => some (chomping, d, c)
      | none => some (.clip, d, c.next)
    | none => some (.clip, 0, c)

/-- Pass over indentation and empty lines of a block scalar. `indent` is zero while it is still
to be found; `widest` is the widest indentation met. Gives the breaks in reverse. -/
def blockBreaks (indent : Nat) :
    Nat → Nat → List Char → Cursor → Option (Nat × List Char × Cursor)
  | 0, _, _, _ => none
  | fuel + 1, widest, breaks, c =>
    let room := indent - c.column
    let (taken, rest) := c.rest.span (· == ' ')
    let n := if indent = 0 then taken.length else min room taken.length
    let c := c.onLine n (if n = taken.length then rest else c.rest.drop n)
    let widest := max widest c.column
    match c.rest with
    | [] => some (widest, breaks, c)
    | ch :: _ =>
      if ch == '\t' && (indent = 0 || c.column < indent) then none
      else if isBreak ch then blockBreaks indent fuel widest (breakChar ch :: breaks) c.newline
      else some (widest, breaks, c)

/-- The lines of a block scalar: `acc` is the text in reverse, `first` the break behind the last
line, `others` the breaks behind that one, and `blankBefore` whether the last line started with
a blank. -/
def blockLines (literal : Bool) (indent limit : Nat) :
    Nat → List Char → List Char → List Char → Bool → Cursor →
      Option (List Char × List Char × List Char × Cursor)
  | 0, _, _, _, _, _ => none
  | fuel + 1, acc, first, others, blankBefore, c =>
    match c.rest with
    | [] => some (acc, first, others, c)
    | ch :: _ =>
      if c.column ≠ indent then some (acc, first, others, c)
      else
        let blankNow := isBlank ch
        let acc :=
          if !literal && first == ['\n'] && !blankBefore && !blankNow then
            if others.isEmpty then ' ' :: acc else others ++ acc
          else others ++ (first ++ acc)
        let (line, c) := c.takeWhile fun ch => !isBreak ch
        let acc := line.reverse ++ acc
        let (first, c) := match c.rest with
          | [] => ([], c)
          | ch :: _ => ([breakChar ch], c.newline)
        match blockBreaks indent limit 0 [] c with
        | none => none
        | some (_, others, c) => blockLines literal indent limit fuel acc first others blankNow c

/-- A block scalar behind its indicator, inside a block of indentation `parent`. -/
def blockScalar (literal : Bool) (parent : Int) (limit : Nat) (c : Cursor) :
    Option (List Char × Cursor) := do
  let (chomping, increment, c) ← blockHeader c
  let c ← c.endLine?
  let fixed := if increment = 0 then 0
    else if 0 ≤ parent then parent.toNat + increment else increment
  let (widest, others, c) ← blockBreaks fixed limit 0 [] c
  let indent := if fixed = 0 then max widest (max (parent + 1).toNat 1) else fixed
  let (acc, first, others, c) ← blockLines literal indent limit limit [] [] others false c
  let acc := if chomping = .strip then acc else first ++ acc
  let acc := if chomping = .keep then others ++ acc else acc
  pure (acc, c)

end BeaconReplay.Yaml
