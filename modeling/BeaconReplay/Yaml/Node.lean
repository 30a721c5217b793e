import BeaconReplay.Yaml.Lexer

/-!
# YAML documents

A document is a tree in reading order. As the text may break off, a collection says whether it is
closed, and what is not there any more is `missing`. An anchor gives the node behind it a number,
which is the number of names in use at that point; an alias refers to the last node with its
number.
-/
namespace BeaconReplay.Yaml

/-- A node of a document. -/
inductive Node where
  | scalar (text : String) (style : Style) (tag : Option String) (anchor : Option Nat)
  | alias (target : Nat)
  | sequence (items : List Node) (closed : Bool) (tag : Option String) (anchor : Option Nat)
  | mapping (members : List (Node × Node)) (closed : Bool) (tag : Option String)
    (anchor : Option Nat)
  /-- The root of an empty text. -/
  | nothing
  /-- The text broke off. -/
  | missing

instance : Inhabited Node := ⟨.missing⟩

namespace Node

/-- A scalar of no characters. -/
def empty : Node := .scalar "" .plain none none

/-- What is left to read, and the numbers of the anchors by name. -/
structure Reader where
  tokens : List Token
  anchors : List (String × Nat)

namespace Reader

/-- Go on behind some tokens. -/
def behind (r : Reader) (tokens : List Token) : Reader := { r with tokens := tokens }

/-- Nothing is left to read. -/
def stopped (r : Reader) : Reader := r.behind []

/-- Number an anchor, which replaces one of the same name. -/
def declare (r : Reader) : Option String → Option Nat × Reader
  | none => (none, r)
  | some name =>
    let id := r.anchors.length
    (some id, { r with anchors := (name, id) :: r.anchors.filter (·.1 != name) })

end Reader

/-- Anchor and tag in front of a node, in either order, and what follows them. -/
def properties : List Token → Option String × Option (String × String) × List Token
  | .anchor a :: .tag h s :: rest => (some a, some (h, s), rest)
  | .anchor a :: rest => (some a, none, rest)
  | .tag h s :: .anchor a :: rest => (some a, some (h, s), rest)
  | .tag h s :: rest => (none, some (h, s), rest)
  | rest => (none, none, rest)

/-- The full tag of a handle and a suffix; nothing if the handle is not declared. -/
def fullTag? (handles : List (String × String)) :
    Option (String × String) → Option (Option String)
  | none => some none
  | some (handle, suffix) =>
    if handle = "" then some (some suffix)
    else (handles.lookup handle).map fun start => some (start ++ suffix)

/-- Whether a token ends an item of a block sequence. -/
def endsBlockItem : Token → Bool
  | .blockEntry | .blockEnd => true
  | _ => false

/-- Whether a token ends an item of a sequence that is not indented inside its mapping. -/
def endsLevelItem : Token → Bool
  | .blockEntry | .key | .value | .blockEnd => true
  | _ => false

/-- Whether a token ends a key or a value of a block mapping. -/
def endsBlockMember : Token → Bool
  | .key | .value | .blockEnd => true
  | _ => false

/-- Whether a token ends a key inside braces. -/
def endsFlowKey : Token → Bool
  | .value | .flowEntry | .flowMappingEnd => true
  | _ => false

/-- Whether a token ends a value inside braces. -/
def endsFlowValue : Token → Bool
  | .flowEntry | .flowMappingEnd => true
  | _ => false

/-- Whether a token ends the value of a pair inside square brackets. -/
def endsPairValue : Token → Bool
  | .flowEntry | .flowSequenceEnd => true
  | _ => false

mutual

/-- Read a node. `block` allows block collections, and `level` a block sequence without
indentation. -/
def read (handles : List (String × String)) : Nat → Bool → Bool → Reader → Node × Reader
  | 0, _, _, r => (.missing, r.stopped)
  | fuel + 1, block, level, r =>
    match r.tokens with
    | .alias name :: rest =>
      match r.anchors.lookup name with
      | some id => (.alias id, r.behind rest)
      | none => (.missing, r.stopped)
    | tokens =>
      let (name, written, rest) := properties tokens
      match fullTag? handles written with
      | none => (.missing, r.stopped)
      | some tag =>
        let (anchor, s) := r.declare name
        match rest with
        | .scalar text style :: rest =>
          (.scalar text style (if tag = some "!" then none else tag) anchor, s.behind rest)
        | .flowSequenceStart :: rest =>
          let (items, closed, s) := readFlowItems handles fuel true [] (s.behind rest)
          (.sequence items closed tag anchor, s)
        | .flowMappingStart :: rest =>
          let (members, closed, s) := readFlowMembers handles fuel true [] (s.behind rest)
          (.mapping members closed tag anchor, s)
        | [] => (.missing, r.stopped)
        | t :: rest =>
          if level && t == .blockEntry then
            let (items, closed, s) := readLevelItems handles fuel [] (s.behind (t :: rest))
            (.sequence items closed tag anchor, s)
          else if block && t == .blockSequenceStart then
            let (items, closed, s) := readBlockItems handles fuel [] (s.behind rest)
            (.sequence items closed tag anchor, s)
          else if block && t == .blockMappingStart then
            let (members, closed, s) := readBlockMembers handles fuel [] (s.behind rest)
            (.mapping members closed tag anchor, s)
          else if name.isSome || tag.isSome then
            (.scalar "" .plain tag anchor, s.behind (t :: rest))
          else (.missing, r.stopped)

/-- Read a node that may be left out in front of certain tokens. -/
def readUnless (handles : List (String × String)) :
    Nat → (Token → Bool) → Bool → Bool → Reader → Node × Reader
  | 0, _, _, _, r => (.missing, r.stopped)
  | fuel + 1, ends, block, level, r =>
    match r.tokens with
    | [] => (.missing, r)
    | t :: _ => if ends t then (.empty, r) else read handles fuel block level r

/-- Read the value behind a colon; without a colon it is empty. -/
def readValue (handles : List (String × String)) :
    Nat → (Token → Bool) → Bool → Reader → Node × Reader
  | 0, _, _, r => (.missing, r.stopped)
  | fuel + 1, ends, block, r =>
    match r.tokens with
    | [] => (.missing, r)
    | .value :: rest => readUnless handles fuel ends block block (r.behind rest)
    | _ => (.empty, r)

/-- Read the items of an indented sequence; `acc` holds those before in reverse. -/
def readBlockItems (handles : List (String × String)) :
    Nat → List Node → Reader → List Node × Bool × Reader
  | 0, acc, r => (acc.reverse, false, r.stopped)
  | fuel + 1, acc, r =>
    match r.tokens with
    | .blockEntry :: rest =>
      let (v, r) := readUnless handles fuel endsBlockItem true false (r.behind rest)
      readBlockItems handles fuel (v :: acc) r
    | .blockEnd :: rest => (acc.reverse, true, r.behind rest)
    | _ => (acc.reverse, false, r.stopped)

/-- Read the items of a sequence without indentation, which ends at any other token. -/
def readLevelItems (handles : List (String × String)) :
    Nat → List Node → Reader → List Node × Bool × Reader
  | 0, acc, r => (acc.reverse, false, r.stopped)
  | fuel + 1, acc, r =>
    match r.tokens with
    | .blockEntry :: rest =>
      let (v, r) := readUnless handles fuel endsLevelItem true false (r.behind rest)
      readLevelItems handles fuel (v :: acc) r
    | [] => (acc.reverse, false, r)
    | _ => (acc.reverse, true, r)

/-- Read the members of a block mapping. -/
def readBlockMembers (handles : List (String × String)) :
    Nat → List (Node × Node) → Reader → List (Node × Node) × Bool × Reader
  | 0, acc, r => (acc.reverse, false, r.stopped)
  | fuel + 1, acc, r =>
    match r.tokens with
    | .key :: rest =>
      let (k, r) := readUnless handles fuel endsBlockMember true true (r.behind rest)
      let (v, r) := readValue handles fuel endsBlockMember true r
      readBlockMembers handles fuel ((k, v) :: acc) r
    | .blockEnd :: rest => (acc.reverse, true, r.behind rest)
    | _ => (acc.reverse, false, r.stopped)

/-- Read the items between square brackets. -/
def readFlowItems (handles : List (String × String)) :
    Nat → Bool → List Node → Reader → List Node × Bool × Reader
  | 0, _, acc, r => (acc.reverse, false, r.stopped)
  | fuel + 1, first, acc, r =>
    let item (tokens : List Token) : List Node × Bool × Reader :=
      match tokens with
      | .flowSequenceEnd :: rest => (acc.reverse, true, r.behind rest)
      | .key :: rest =>
        let (v, r) := readPair handles fuel (r.behind rest)
        readFlowItems handles fuel false (v :: acc) r
      | [] => (acc.reverse, false, r.stopped)
      | tokens =>
        let (v, r) := read handles fuel false false (r.behind tokens)
        readFlowItems handles fuel false (v :: acc) r
    if first then item r.tokens
    else
      match r.tokens with
      | .flowSequenceEnd :: rest => (acc.reverse, true, r.behind rest)
      | .flowEntry :: rest => item rest
      | _ => (acc.reverse, false, r.stopped)

/-- Read a pair inside square brackets, behind its key mark: a mapping of one member. An empty
key takes the token behind it along. -/
def readPair (handles : List (String × String)) : Nat → Reader → Node × Reader
  | 0, r => (.missing, r.stopped)
  | fuel + 1, r =>
    let (k, r) : Node × Reader := match r.tokens with
      | [] => (.missing, r)
      | .value :: rest | .flowEntry :: rest | .flowSequenceEnd :: rest => (.empty, r.behind rest)
      | _ => read handles fuel false false r
    let (v, r) := readValue handles fuel endsPairValue false r
    (.mapping [(k, v)] (!r.tokens.isEmpty) none none, r)

/-- Read the members between braces. -/
def readFlowMembers (handles : List (String × String)) :
    Nat → Bool → List (Node × Node) → Reader → List (Node × Node) × Bool × Reader
  | 0, _, acc, r => (acc.reverse, false, r.stopped)
  | fuel + 1, first, acc, r =>
    let member (tokens : List Token) : List (Node × Node) × Bool × Reader :=
      match tokens with
      | .flowMappingEnd :: rest => (acc.reverse, true, r.behind rest)
      | .key :: rest =>
        let (k, r) := readUnless handles fuel endsFlowKey false false (r.behind rest)
        let (v, r) := readValue handles fuel endsFlowValue false r
        readFlowMembers handles fuel false ((k, v) :: acc) r
      | [] => (acc.reverse, false, r.stopped)
      | tokens =>
        let (k, r) := read handles fuel false false (r.behind tokens)
        let v := if r.tokens.isEmpty then .missing else .empty
        readFlowMembers handles fuel false ((k, v) :: acc) r
    if first then member r.tokens
    else
      match r.tokens with
      | .flowMappingEnd :: rest => (acc.reverse, true, r.behind rest)
      | .flowEntry :: rest => member rest
      | _ => (acc.reverse, false, r.stopped)

end

mutual

/-- Whether a node is there to its end. -/
def intact : Node → Bool
  | .missing => false
  | .sequence items closed _ _ => closed && intactItems items
  | .mapping members closed _ _ => closed && intactMembers members
  | _ => true

/-- Whether all items are there to their end. -/
def intactItems : List Node → Bool
  | [] => true
  | v :: vs => intact v && intactItems vs

/-- Whether all members are there to their end. -/
def intactMembers : List (Node × Node) → Bool
  | [] => true
  | (k, v) :: ms => intact k && intact v && intactMembers ms

end

mutual

/-- The anchored nodes in reading order, in reverse on top of `acc`. -/
def anchored (acc : List (Nat × Node)) : Node → List (Nat × Node)
  | .scalar text style tag (some id) => (id, .scalar text style tag (some id)) :: acc
  | .sequence items closed tag anchor =>
    let acc := match anchor with
      | some id => (id, .sequence items closed tag anchor) :: acc
      | none => acc
    anchoredItems acc items
  | .mapping members closed tag anchor =>
    let acc := match anchor with
      | some id => (id, .mapping members closed tag anchor) :: acc
      | none => acc
    anchoredMembers acc members
  | _ => acc

/-- The anchored nodes of items. -/
def anchoredItems (acc : List (Nat × Node)) : List Node → List (Nat × Node)
  | [] => acc
  | v :: vs => anchoredItems (anchored acc v) vs

/-- The anchored nodes of members. -/
def anchoredMembers (acc : List (Nat × Node)) : List (Node × Node) → List (Nat × Node)
  | [] => acc
  | (k, v) :: ms => anchoredMembers (anchored (anchored acc k) v) ms

end

end Node

/-- The first document of a text. -/
structure Document where
  root : Node
  /-- The anchored nodes, the last one first. -/
  anchored : List (Nat × Node)
  /-- Whether the document is intact and is all that the text holds. -/
  complete : Bool

namespace Document

/-- The directives in front of a document: tag handles, and whether a version has been given.
Gives the handles and what follows; nothing if a directive is repeated or asks for another
version. -/
def directives : List (String × String) → Bool → List Token →
    Option (List (String × String) × List Token)
  | handles, versioned, .versionDirective major minor :: rest =>
    if versioned || major ≠ 1 || (minor ≠ 1 && minor ≠ 2) then none
    else directives handles true rest
  | handles, versioned, .tagDirective handle start :: rest =>
    if (handles.lookup handle).isSome then none
    else directives ((handle, start) :: handles) versioned rest
  | handles, _, rest => some (handles, rest)

/-- The handles that need no directive. -/
def defaultHandles : List (String × String) := [("!", "!"), ("!!", "tag:yaml.org,2002:")]

/-- Whether nothing but end markers is left. -/
def ends : List Token → Bool
  | .documentEnd :: rest => ends rest
  | [.streamEnd] => true
  | _ => false

/-- Whether a token stands outside of every document. -/
def isOutside : Token → Bool
  | .versionDirective _ _ | .tagDirective _ _ | .documentStart | .streamEnd => true
  | _ => false

/-- A document with a root and with what follows it. -/
def ofRoot (root : Node) (rest : List Token) : Document :=
  ⟨root, root.anchored [], ends rest⟩

/-- The document at the start of a text of which no token makes sense. -/
def broken : Document := ⟨.missing, [], false⟩

/-- The first document of a list of tokens. -/
def ofTokens (tokens : List Token) : Document :=
  let fuel := 4 * tokens.length + 8
  let content (handles : List (String × String)) (rest : List Token) : Document :=
    let (root, r) := Node.read (handles ++ defaultHandles) fuel true false ⟨rest, []⟩
    ofRoot root r.tokens
  match tokens with
  | .streamStart :: t :: rest =>
    if t == .streamEnd then ⟨.nothing, [], true⟩
    else if isOutside t then
      match directives [] false (t :: rest) with
      | some (handles, .documentStart :: rest) =>
        match rest with
        | [] => broken
        | t :: _ =>
          if isOutside t || t == .documentEnd then ofRoot .empty rest else content handles rest
      | _ => broken
    else content [] (t :: rest)
  | _ => broken

/-- The first document of a text. -/
def ofString (s : String) : Document := ofTokens (tokens s)

end Document

end BeaconReplay.Yaml
