/-!
Why a text is not a JSON document, in words and with the place: the line, and how many bytes of the
line had been looked at.
-/

namespace Storefront.Json

inductive Reason where
  | endInValue | endInString | endInList | endInObject
  | wantsValue | wantsWord | wantsColon | wantsCommaOrBracket | wantsCommaOrBrace | wantsKey
  | trailingComma | trailingCharacters
  | badNumber | numberOutOfRange
  | badEscape | loneSurrogate | endOfEscapes | controlCharacter | badCodePoint
  | tooDeep
  deriving DecidableEq, Repr

namespace Reason

def message : Reason → String
  | endInValue => "EOF while parsing a value"
  | endInString => "EOF while parsing a string"
  | endInList => "EOF while parsing a list"
  | endInObject => "EOF while parsing an object"
  | wantsValue => "expected value"
  | wantsWord => "expected ident"
  | wantsColon => "expected `:`"
  | wantsCommaOrBracket => "expected `,` or `]`"
  | wantsCommaOrBrace => "expected `,` or `\x7d`"
  | wantsKey => "key must be a string"
  | trailingComma => "trailing comma"
  | trailingCharacters => "trailing characters"
  | badNumber => "invalid number"
  | numberOutOfRange => "number out of range"
  | badEscape => "invalid escape"
  | loneSurrogate => "lone leading surrogate in hex escape"
  | endOfEscapes => "unexpected end of hex escape"
  | controlCharacter => "control character (\\u0000-\\u001F) found while parsing a string"
  | badCodePoint => "invalid unicode code point"
  | tooDeep => "recursion limit exceeded"

end Reason

/-- A stop of the reader: the reason, and the bytes it had not looked at. -/
structure Stop where
  reason : Reason
  rest : List UInt8
  deriving DecidableEq

/-- A stop at the first byte of `bs`, which counts as looked at. -/
def Stop.at (reason : Reason) (bs : List UInt8) : Stop := ⟨reason, bs.tail⟩

structure Fault where
  reason : Reason
  line : Nat
  column : Nat
  deriving DecidableEq

namespace Fault

def ofStop (text : List UInt8) (s : Stop) : Fault :=
  let seen := text.take (text.length - s.rest.length)
  { reason := s.reason
    line := 1 + seen.count 0x0A
    column := (seen.reverse.takeWhile (· != 0x0A)).length }

def message (f : Fault) : String :=
  f.reason.message ++ " at line " ++ toString f.line ++ " column " ++ toString f.column

end Fault

end Storefront.Json
