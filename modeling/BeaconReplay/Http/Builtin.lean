import BeaconReplay.Http.Charset

/-!
# Tables of a program

A program needs some tables to run. These know the 16-bit character sets and a western one by
their labels, and they take a domain in other letters for its own form.
-/
namespace BeaconReplay.Http.Charset

/-- The labels of the little-endian 16-bit set. -/
def littleLabels : List String :=
  ["csunicode", "iso-10646-ucs-2", "ucs-2", "unicode", "unicodefeff", "utf-16", "utf-16le"]

/-- The labels of the big-endian 16-bit set. -/
def bigLabels : List String := ["unicodefffe", "utf-16be"]

/-- The labels of the western single-byte set. -/
def westernLabels : List String :=
  ["ansi_x3.4-1968", "ascii", "cp1252", "cp819", "csisolatin1", "ibm819", "iso-8859-1",
   "iso-ir-100", "iso8859-1", "iso88591", "iso_8859-1", "iso_8859-1:1987", "l1", "latin1",
   "us-ascii", "windows-1252", "x-cp1252"]

/-- The characters of the western set between 0x80 and 0x9F. -/
def westernTable : List Nat :=
  [0x20AC, 0x81, 0x201A, 0x192, 0x201E, 0x2026, 0x2020, 0x2021, 0x2C6, 0x2030, 0x160, 0x2039,
   0x152, 0x8D, 0x17D, 0x8F, 0x90, 0x2018, 0x2019, 0x201C, 0x201D, 0x2022, 0x2013, 0x2014,
   0x2DC, 0x2122, 0x161, 0x203A, 0x153, 0x9D, 0x17E, 0x178]

/-- A character of the western set. -/
def westernChar (b : UInt8) : Char :=
  let n := b.toNat
  if 0x80 ≤ n ∧ n < 0xA0 then Char.ofNat (westernTable.getD (n - 0x80) n) else Char.ofNat n

/-- Whether a character is blank. -/
def isBlank (c : Char) : Bool := c == ' ' || c == '\t' || c == '\n' || c == '\r' || c == '\x0c'

/-- A text in small letters without the blanks at its ends. -/
def normalized (label : String) : String :=
  String.ofList
    ((((label.toList.dropWhile isBlank).reverse.dropWhile isBlank).reverse).map Char.toLower)

/-- The text of bytes in the set with a label. -/
def ofLabel? (label : String) : Option (List UInt8 → String) :=
  let label := normalized label
  if littleLabels.contains label then some (decode (.utf16 false))
  else if bigLabels.contains label then some (decode (.utf16 true))
  else if westernLabels.contains label then some fun bs => String.ofList (bs.map westernChar)
  else none

/-- Whether a character may stand in a word of a content type. -/
def isToken (c : Char) : Bool :=
  c.isAlphanum || "!#$%&'*+-.^_`|~".toList.contains c

/-- The parameters of a content type behind a semicolon, with as many steps as it has characters;
nothing if they are malformed. -/
def parameters? : Nat → List Char → Option (List (String × String))
  | 0, _ => some []
  | fuel + 1, cs =>
    let cs := cs.dropWhile (· == ' ')
    let (name, value) := cs.span isToken
    let more (value rest : List Char) : Option (List (String × String)) :=
      let parameter := (String.ofList (name.map Char.toLower), String.ofList value)
      match rest with
      | [] => if value.isEmpty then none else some [parameter]
      | c :: rest =>
        if c = ';' && !value.isEmpty then (parameters? fuel rest).map (parameter :: ·) else none
    match name, value with
    | [], [] => some []
    | _ :: _, '=' :: '"' :: rest =>
      match rest.span (· != '"') with
      | (value, _ :: rest) => more value (rest.dropWhile (· == ' '))
      | (_, []) => none
    | _ :: _, '=' :: rest =>
      let (value, rest) := rest.span isToken
      more value rest
    | _, _ => none

/-- The value of the parameter of a content type that names a character set. -/
def label? (contentType : String) : Option String :=
  let (type, rest) := contentType.toList.span isToken
  match type, rest with
  | _ :: _, '/' :: rest =>
    match rest.span isToken with
    | (_ :: _, ';' :: rest) =>
      (parameters? (rest.length + 1) rest).bind fun parameters => parameters.lookup "charset"
    | _ => none
  | _, _ => none

end BeaconReplay.Http.Charset

namespace BeaconReplay

/-- Tables that a program runs with. -/
instance Tables.builtin : Tables where
  domainToAscii name := some (String.ofList (name.toList.map Char.toLower))
  charset? := Http.Charset.label?
  decoder? := Http.Charset.ofLabel?

end BeaconReplay
