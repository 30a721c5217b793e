import BeaconReplay.Json.Number

/-!
# JSON texts as documents

A document keeps a text in reading order: members as written, repeated names included, and the
place where the text stops being JSON. A reader of a document therefore meets a wrong value and
a broken text in the order in which they stand. A string or a number that is well delimited but
has no value (an unpaired surrogate, a magnitude beyond the doubles) is kept as such, because a
reader that passes over it does not look inside.
-/
namespace BeaconReplay.Json

mutual

/-- One value of a text. -/
inductive Document where
  | null
  | boolean (b : Bool)
  | number (n : Option JsonNumber)
  | string (s : Option String)
  | array (items : List Document) (closed : Bool)
  | object (members : List (Option String × Document)) (ending : Ending)
  | broken

/-- How an object ends: with its brace, with a member name that is no string, or not at all. -/
inductive Ending where
  | closed
  | strayName (value : Document)
  | broken

end

instance : Inhabited Document := ⟨.broken⟩

namespace Document

/-- Blank characters. -/
def isBlank (c : Char) : Bool := c == ' ' || c == '\n' || c == '\t' || c == '\r'

/-- A text without the blanks in front. -/
def skipBlanks : List Char → List Char
  | c :: cs => if isBlank c then skipBlanks cs else c :: cs
  | [] => []

/-- What follows a given word at the start of a text. -/
def afterWord : List Char → List Char → Option (List Char)
  | [], cs => some cs
  | w :: ws, c :: cs => if w = c then afterWord ws cs else none
  | _ :: _, [] => none

/-- The value of a hexadecimal digit. -/
def hexValue? (c : Char) : Option Nat :=
  if '0' ≤ c ∧ c ≤ '9' then some (c.toNat - 48)
  else if 'a' ≤ c ∧ c ≤ 'f' then some (c.toNat - 87)
  else if 'A' ≤ c ∧ c ≤ 'F' then some (c.toNat - 55)
  else none

/-- Four hexadecimal digits in front of a text. -/
def hexUnit? : List Char → Option (Nat × List Char)
  | a :: b :: c :: d :: rest => do
    let a ← hexValue? a
    let b ← hexValue? b
    let c ← hexValue? c
    let d ← hexValue? d
    pure (((a * 16 + b) * 16 + c) * 16 + d, rest)
  | _ => none

/-- The character of an escaped pair of surrogates. -/
def pairChar (high low : Nat) : Char :=
  Char.ofNat ((high - 0xD800) * 0x400 + (low - 0xDC00) + 0x10000)

/-- The low surrogate that an escape in front of a text spells. -/
def lowSurrogate? : List Char → Option (Nat × List Char)
  | '\\' :: 'u' :: rest =>
    match hexUnit? rest with
    | some (n, rest) => if 0xDC00 ≤ n ∧ n ≤ 0xDFFF then some (n, rest) else none
    | none => none
  | _ => none

/-- The character of a short escape. -/
def shortEscape? (c : Char) : Option Char :=
  if c = '"' then some '"'
  else if c = '\\' then some '\\'
  else if c = '/' then some '/'
  else if c = 'b' then some '\x08'
  else if c = 'f' then some '\x0c'
  else if c = 'n' then some '\n'
  else if c = 'r' then some '\r'
  else if c = 't' then some '\t'
  else none

/-- Read a string behind its opening quote. `acc` holds the characters so far in reverse, or
nothing once a surrogate stood alone. Gives the characters and what follows the closing quote. -/
def readString : Nat → Option (List Char) → List Char → Option (Option (List Char) × List Char)
  | 0, _, _ => none
  | _, _, [] => none
  | fuel + 1, acc, c :: cs =>
    if c = '"' then some (acc.map List.reverse, cs)
    else if c = '\\' then
      match cs with
      | [] => none
      | e :: rest =>
        if e = 'u' then
          match hexUnit? rest with
          | none => none
          | some (n, rest) =>
            if 0xD800 ≤ n ∧ n ≤ 0xDBFF then
              match lowSurrogate? rest with
              | some (m, rest) => readString fuel (acc.map (pairChar n m :: ·)) rest
              | none => readString fuel none rest
            else if 0xDC00 ≤ n ∧ n ≤ 0xDFFF then readString fuel none rest
            else readString fuel (acc.map (Char.ofNat n :: ·)) rest
        else
          match shortEscape? e with
          | some ch => readString fuel (acc.map (ch :: ·)) rest
          | none => none
    else if c.toNat < 32 then none
    else readString fuel (acc.map (c :: ·)) cs

/-- The string behind an opening quote and what follows it. -/
def string? (cs : List Char) : Option (Option String × List Char) :=
  match readString (cs.length + 1) (some []) cs with
  | some (s, rest) => some (s.map String.ofList, rest)
  | none => none

/-- Whether a numeral starts with this character. -/
def startsNumeral (c : Char) : Bool := c == '-' || Numeral.isDigit c

mutual

/-- Read the value in front of a text; what follows it, unless the text broke off. -/
def readValue : Nat → List Char → Document × Option (List Char)
  | 0, _ => (.broken, none)
  | fuel + 1, cs =>
    match skipBlanks cs with
    | [] => (.broken, none)
    | c :: rest =>
      if c = '"' then
        match string? rest with
        | some (s, rest) => (.string s, some rest)
        | none => (.broken, none)
      else if c = '[' then readItems fuel true [] rest
      else if c = '{' then readMembers fuel true [] rest
      else if c = 'n' then
        match afterWord ['u', 'l', 'l'] rest with
        | some rest => (.null, some rest)
        | none => (.broken, none)
      else if c = 't' then
        match afterWord ['r', 'u', 'e'] rest with
        | some rest => (.boolean true, some rest)
        | none => (.broken, none)
      else if c = 'f' then
        match afterWord ['a', 'l', 's', 'e'] rest with
        | some rest => (.boolean false, some rest)
        | none => (.broken, none)
      else if startsNumeral c then
        match Numeral.read? (c :: rest) with
        | some (n, rest) => (.number n.value?, some rest)
        | none => (.broken, none)
      else (.broken, none)

/-- Read the items of an array up to its bracket; `acc` holds those before in reverse. -/
def readItems : Nat → Bool → List Document → List Char → Document × Option (List Char)
  | 0, _, acc, _ => (.array acc.reverse false, none)
  | fuel + 1, first, acc, cs =>
    let item (cs : List Char) : Document × Option (List Char) :=
      match readValue fuel cs with
      | (v, some rest) => readItems fuel false (v :: acc) rest
      | (v, none) => (.array (v :: acc).reverse false, none)
    match skipBlanks cs with
    | [] => (.array acc.reverse false, none)
    | c :: rest =>
      if c = ']' then (.array acc.reverse true, some rest)
      else if first then item (c :: rest)
      else if c = ',' then
        match skipBlanks rest with
        | [] => (.array acc.reverse false, none)
        | ']' :: _ => (.array acc.reverse false, none)
        | rest => item rest
      else (.array acc.reverse false, none)

/-- Read the members of an object up to its brace; `acc` holds those before in reverse. -/
def readMembers :
    Nat → Bool → List (Option String × Document) → List Char → Document × Option (List Char)
  | 0, _, acc, _ => (.object acc.reverse .broken, none)
  | fuel + 1, first, acc, cs =>
    let stop : Document × Option (List Char) := (.object acc.reverse .broken, none)
    let member (cs : List Char) : Document × Option (List Char) :=
      match string? cs with
      | none => stop
      | some (k, rest) =>
        match skipBlanks rest with
        | ':' :: rest =>
          match readValue fuel rest with
          | (v, some rest) => readMembers fuel false ((k, v) :: acc) rest
          | (v, none) => (.object ((k, v) :: acc).reverse .broken, none)
        | _ => (.object ((k, .broken) :: acc).reverse .broken, none)
    match skipBlanks cs with
    | [] => stop
    | c :: rest =>
      if c = '}' then (.object acc.reverse .closed, some rest)
      else if first then
        if c = '"' then member rest
        else (.object acc.reverse (.strayName (readValue fuel (c :: rest)).1), none)
      else if c = ',' then
        match skipBlanks rest with
        | '"' :: rest => member rest
        | _ => stop
      else stop

end

/-- A text as a document, and whether nothing but blanks follows the value. -/
structure Reading where
  root : Document
  complete : Bool

/-- Read a text. -/
def ofChars (cs : List Char) : Reading :=
  match readValue (2 * cs.length + 2) cs with
  | (v, some rest) => ⟨v, (skipBlanks rest).isEmpty⟩
  | (v, none) => ⟨v, false⟩

/-- Read a text. -/
def ofString (s : String) : Reading := ofChars s.toList

mutual

/-- Whether a value is well formed to its end, without a look at what strings and numbers mean. -/
def intact : Document → Bool
  | .array items closed => closed && intactItems items
  | .object members .closed => intactMembers members
  | .object _ _ => false
  | .broken => false
  | _ => true

/-- Whether all items are well formed. -/
def intactItems : List Document → Bool
  | [] => true
  | d :: ds => intact d && intactItems ds

/-- Whether all members are well formed. -/
def intactMembers : List (Option String × Document) → Bool
  | [] => true
  | (_, d) :: ms => intact d && intactMembers ms

end

mutual

/-- The value of a document with at most `depth` levels of nesting; nothing if any part of it
has none. -/
def value? : Nat → Document → Option Json
  | _, .null => some .null
  | _, .boolean b => some (.boolean b)
  | _, .number n => n.map .number
  | _, .string s => s.map .string
  | 0, .array _ _ => none
  | depth + 1, .array items closed =>
    if closed then (values? depth items).map .array else none
  | 0, .object _ _ => none
  | depth + 1, .object members .closed => (memberValues? depth members).map Json.ofMembers
  | _, .object _ _ => none
  | _, .broken => none

/-- The values of the items. -/
def values? : Nat → List Document → Option (List Json)
  | _, [] => some []
  | depth, d :: ds => do
    let v ← value? depth d
    let vs ← values? depth ds
    pure (v :: vs)

/-- The values of the members. -/
def memberValues? : Nat → List (Option String × Document) → Option (List (String × Json))
  | _, [] => some []
  | depth, (k, d) :: ms => do
    let k ← k
    let v ← value? depth d
    let vs ← memberValues? depth ms
    pure ((k, v) :: vs)

end

mutual

/-- A value as the document of its compact text. -/
def ofValue : Json → Document
  | .null => .null
  | .boolean b => .boolean b
  | .number n => .number (some n)
  | .string s => .string (some s)
  | .array items => .array (ofValues items) true
  | .object members => .object (ofMembers members) .closed

/-- Items as documents. -/
def ofValues : List Json → List Document
  | [] => []
  | v :: vs => ofValue v :: ofValues vs

/-- Members as documents. -/
def ofMembers : List (String × Json) → List (Option String × Document)
  | [] => []
  | (k, v) :: ms => (some k, ofValue v) :: ofMembers ms

end

end Document

/-- The deepest nesting that a JSON value may have. -/
def nestingLimit : Nat := 127

/-- The value of a text. -/
def ofText? (s : String) : Option Json :=
  let reading := Document.ofString s
  if reading.complete then reading.root.value? nestingLimit else none

end BeaconReplay.Json
