/-!
# Tables from elsewhere

The names of hosts in other scripts and the texts in other character sets are told by tables that
are no part of this library. What is proved of it holds whatever they say.
-/
namespace BeaconReplay

/-- What is asked of such tables. -/
class Tables where
  /-- The form in ASCII letters of a domain that holds other letters or such forms of them; nothing
  if it is no domain. -/
  domainToAscii : String → Option String
  /-- The character set that a content type names; nothing if it names none or is none. -/
  charset? : String → Option String
  /-- The text of bytes in a character set; nothing if the set is not known or is UTF-8. -/
  decoder? : String → Option (List UInt8 → String)

end BeaconReplay
