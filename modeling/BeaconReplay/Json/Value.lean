import BeaconReplay.Real.Shortest

/-!
# JSON values

A value holds integers of the 64-bit ranges apart from other numbers, and the members of an
object in ascending order of their names. Its compact text has no blanks and escapes only what
JSON requires.
-/
namespace BeaconReplay

/-- A JSON number: an integer of one of the 64-bit ranges, or a double. -/
inductive JsonNumber where
  | integer (i : Int)
  | real (x : Binary64)
  deriving DecidableEq, Repr

namespace JsonNumber

/-- Numbers are the same only if they are of one sort; the two zeros of doubles are the same. -/
def same : JsonNumber → JsonNumber → Bool
  | integer i, integer j => i == j
  | real x, real y => x.same y
  | _, _ => false

/-- The text of a number. -/
def text : JsonNumber → String
  | integer i => toString i
  | real x => x.jsonText

end JsonNumber

/-- A JSON value. -/
inductive Json where
  | null
  | boolean (b : Bool)
  | number (n : JsonNumber)
  | string (s : String)
  | array (items : List Json)
  | object (members : List (String × Json))
  deriving Inhabited

namespace Json

/-- A word as a value. -/
def word (n : UInt64) : Json := .number (.integer n.toNat)

/-- A natural number as a value. -/
def nat (n : Nat) : Json := .number (.integer n)

mutual

/-- Whether two values are equal, numbers compared as numbers of one sort. -/
def same : Json → Json → Bool
  | null, null => true
  | boolean a, boolean b => a == b
  | number a, number b => a.same b
  | string a, string b => a == b
  | array as, array bs => sameItems as bs
  | object as, object bs => sameMembers as bs
  | _, _ => false

/-- Equality of two lists of items. -/
def sameItems : List Json → List Json → Bool
  | [], [] => true
  | a :: as, b :: bs => same a b && sameItems as bs
  | _, _ => false

/-- Equality of two lists of members. -/
def sameMembers : List (String × Json) → List (String × Json) → Bool
  | [], [] => true
  | (k, a) :: as, (l, b) :: bs => k == l && same a b && sameMembers as bs
  | _, _ => false

end

/-- Put a member into its place by name; an earlier member of that name is replaced. -/
def insertMember (k : String) (v : Json) : List (String × Json) → List (String × Json)
  | [] => [(k, v)]
  | (l, w) :: rest =>
    if k < l then (k, v) :: (l, w) :: rest
    else if k = l then (k, v) :: rest
    else (l, w) :: insertMember k v rest

/-- An object from members in any order; of two members of one name the later counts. -/
def ofMembers (ms : List (String × Json)) : Json :=
  .object (ms.foldl (fun acc m => insertMember m.1 m.2 acc) [])

/-- The member of an object with a name. -/
def member? (k : String) : Json → Option Json
  | object ms => ms.lookup k
  | _ => none

/-- The two digits of a control character's escape. -/
def controlDigits (c : Char) : List Char :=
  [if c.toNat < 16 then '0' else '1', (Nat.toDigits 16 (c.toNat % 16)).headD '0']

/-- One character inside the quotes of a string. -/
def escape (c : Char) : List Char :=
  if c = '"' then ['\\', '"']
  else if c = '\\' then ['\\', '\\']
  else if c = '\x08' then ['\\', 'b']
  else if c = '\x0c' then ['\\', 'f']
  else if c = '\n' then ['\\', 'n']
  else if c = '\r' then ['\\', 'r']
  else if c = '\t' then ['\\', 't']
  else if c.toNat < 32 then '\\' :: 'u' :: '0' :: '0' :: controlDigits c
  else [c]

/-- A string between quotes. -/
def quoted (s : String) : List Char := '"' :: (s.toList.flatMap escape ++ ['"'])

mutual

/-- The compact text of a value. -/
def chars : Json → List Char
  | null => ['n', 'u', 'l', 'l']
  | boolean true => ['t', 'r', 'u', 'e']
  | boolean false => ['f', 'a', 'l', 's', 'e']
  | number n => n.text.toList
  | string s => quoted s
  | array [] => ['[', ']']
  | array (v :: vs) => '[' :: (chars v ++ itemChars vs)
  | object [] => ['{', '}']
  | object ((k, v) :: ms) => '{' :: (quoted k ++ ':' :: (chars v ++ memberChars ms))

/-- The items behind the first one, and the closing bracket. -/
def itemChars : List Json → List Char
  | [] => [']']
  | v :: vs => ',' :: (chars v ++ itemChars vs)

/-- The members behind the first one, and the closing brace. -/
def memberChars : List (String × Json) → List Char
  | [] => ['}']
  | (k, v) :: ms => ',' :: (quoted k ++ ':' :: (chars v ++ memberChars ms))

end

/-- The compact text of a value. -/
def text (v : Json) : String := String.ofList v.chars

end Json

end BeaconReplay
