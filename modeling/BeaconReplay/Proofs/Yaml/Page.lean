import BeaconReplay.Proofs.Result
import BeaconReplay.Yaml.Node

/-!
# Printed pages

A printed document is a mapping whose members stand on lines of their own. The value of a member
is a scalar, a record, or a list of scalars and records; the items of a list stand at the
indentation of its name. A page says what is printed: it has a text, the tokens that the text
consists of, and the node that these tokens make up.
-/
namespace BeaconReplay.Yaml

/-- Whether a character stands for itself wherever it is printed: a digit, a small letter or an
underscore. -/
def isSafe (c : Char) : Bool := ('0' ≤ c && c ≤ '9') || ('a' ≤ c && c ≤ 'z') || c == '_'

/-- A text of safe characters that is short enough to be a key. -/
structure SafeText where
  text : String
  nonempty : text.toList ≠ []
  safe : ∀ c ∈ text.toList, isSafe c = true
  short : text.toList.length ≤ 1000

/-- A scalar on one line. -/
structure Leaf where
  content : SafeText
  /-- Whether the scalar stands in single quotes. -/
  isQuoted : Bool

namespace Leaf

/-- The characters of a scalar. -/
def chars (v : Leaf) : List Char :=
  if v.isQuoted then '\'' :: (v.content.text.toList ++ ['\'']) else v.content.text.toList

/-- The style of a scalar. -/
def style (v : Leaf) : Style := if v.isQuoted then .singleQuoted else .plain

/-- The token of a scalar. -/
def token (v : Leaf) : Token := .scalar v.content.text v.style

/-- The node of a scalar. -/
def node (v : Leaf) : Node := .scalar v.content.text v.style none none

end Leaf

/-- A name and a scalar on one line. -/
structure Row where
  name : SafeText
  value : Leaf

namespace Row

/-- The name as a scalar. -/
def key (r : Row) : Leaf := ⟨r.name, false⟩

/-- The characters of a row, behind its indentation. -/
def chars (r : Row) : List Char := r.key.chars ++ ':' :: ' ' :: (r.value.chars ++ ['\n'])

/-- The tokens of a row. -/
def tokens (r : Row) : List Token := [.key, r.key.token, .value, r.value.token]

/-- The member that a row makes up. -/
def node (r : Row) : Node × Node := (r.key.node, r.value.node)

end Row

/-- A record: at least one row, each at an indentation of two. -/
structure Block where
  first : Row
  others : List Row

namespace Block

/-- The rows of a record. -/
def rows (b : Block) : List Row := b.first :: b.others

/-- The characters of rows behind the first one. -/
def otherChars (rs : List Row) : List Char := rs.flatMap fun r => ' ' :: ' ' :: r.chars

/-- The characters of a record, behind the first indentation. -/
def chars (b : Block) : List Char := b.first.chars ++ otherChars b.others

/-- The tokens of a record. -/
def tokens (b : Block) : List Token :=
  .blockMappingStart :: (b.rows.flatMap Row.tokens ++ [.blockEnd])

/-- The node of a record. -/
def node (b : Block) : Node := .mapping (b.rows.map Row.node) true none none

end Block

/-- An item of a list. -/
inductive Item where
  | leaf (v : Leaf)
  | block (b : Block)

namespace Item

/-- The characters of an item. -/
def chars : Item → List Char
  | leaf v => '-' :: ' ' :: (v.chars ++ ['\n'])
  | block b => '-' :: ' ' :: b.chars

/-- The tokens of an item. -/
def tokens : Item → List Token
  | leaf v => [.blockEntry, v.token]
  | block b => .blockEntry :: b.tokens

/-- The node of an item. -/
def node : Item → Node
  | leaf v => v.node
  | block b => b.node

end Item

/-- The value of a member. -/
inductive Content where
  | leaf (v : Leaf)
  | block (b : Block)
  | list (items : List Item)

namespace Content

/-- The characters of a value, behind the colon of its name. -/
def chars : Content → List Char
  | leaf v => ' ' :: (v.chars ++ ['\n'])
  | block b => '\n' :: ' ' :: ' ' :: b.chars
  | list [] => [' ', '[', ']', '\n']
  | list (item :: items) => '\n' :: (item :: items).flatMap Item.chars

/-- The tokens of a value. -/
def tokens : Content → List Token
  | leaf v => [v.token]
  | block b => b.tokens
  | list [] => [.flowSequenceStart, .flowSequenceEnd]
  | list (item :: items) => (item :: items).flatMap Item.tokens

/-- The node of a value. -/
def node : Content → Node
  | leaf v => v.node
  | block b => b.node
  | list items => .sequence (items.map Item.node) true none none

end Content

/-- A name and its value. -/
structure Member where
  name : SafeText
  value : Content

namespace Member

/-- The name as a scalar. -/
def key (m : Member) : Leaf := ⟨m.name, false⟩

/-- The characters of a member. -/
def chars (m : Member) : List Char := m.key.chars ++ ':' :: m.value.chars

/-- The tokens of a member. -/
def tokens (m : Member) : List Token := .key :: m.key.token :: .value :: m.value.tokens

/-- A member of the node. -/
def node (m : Member) : Node × Node := (m.key.node, m.value.node)

end Member

/-- A printed document, with at least one member. -/
structure Page where
  first : Member
  others : List Member

namespace Page

/-- The members of a document. -/
def members (d : Page) : List Member := d.first :: d.others

/-- The characters of a document. -/
def chars (d : Page) : List Char := d.members.flatMap Member.chars

/-- The tokens of a document. -/
def tokens (d : Page) : List Token :=
  .streamStart :: .blockMappingStart :: (d.members.flatMap Member.tokens ++ [.blockEnd, .streamEnd])

/-- The node of a document. -/
def node (d : Page) : Node := .mapping (d.members.map Member.node) true none none

end Page

end BeaconReplay.Yaml
