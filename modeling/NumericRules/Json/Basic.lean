import NumericRules.Binary64.Decimal

/-! # JSON texts

A JSON text is kept as it was written as far as a reader can tell the
difference: members of objects keep their order and repetitions, numbers keep
their digits, and a string that holds half of a surrogate pair, which no reader
can use but every reader can skip, is kept as no string.
-/

namespace NumericRules

structure JsonNumber where
  negative : Bool
  whole : List Char
  fraction : List Char
  exponent : Option (Bool × List Char)
deriving DecidableEq, Repr

inductive Json where
  | null
  | bool (value : Bool)
  | number (value : JsonNumber)
  | string (value : Option String)
  | array (items : List Json)
  | object (members : List (Option String × Json))

namespace Json

/-! ## White space and strings -/

def isSpace (character : Char) : Bool :=
  character == ' ' || character == '\n' || character == '\t' || character == '\r'

def skipSpace (text : List Char) : List Char := text.dropWhile isSpace

/-- The value of a hexadecimal digit. -/
def hexDigit? (character : Char) : Option Nat :=
  let code := character.toNat
  if '0' ≤ character && character ≤ '9' then some (code - '0'.toNat)
  else if 'a' ≤ character && character ≤ 'f' then some (code - 'a'.toNat + 10)
  else if 'A' ≤ character && character ≤ 'F' then some (code - 'A'.toNat + 10)
  else none

/-- The unit of four hexadecimal digits. -/
def hexUnit? (first second third fourth : Char) : Option Nat := do
  let first ← hexDigit? first
  let second ← hexDigit? second
  let third ← hexDigit? third
  let fourth ← hexDigit? fourth
  pure (((first * 16 + second) * 16 + third) * 16 + fourth)

/-- The character a backslash and one more character stand for. -/
def escaped? : Char → Option Char
  | '"' => some '"'
  | '\\' => some '\\'
  | '/' => some '/'
  | 'b' => some '\x08'
  | 'f' => some '\x0c'
  | 'n' => some '\n'
  | 'r' => some '\r'
  | 't' => some '\t'
  | _ => none

/-- One part of a string: a character, or a unit written by its number. -/
inductive Piece where
  | character (character : Char)
  | unit (unit : Nat)
deriving DecidableEq, Repr

/-- The pieces of a string whose opening quote has been read. -/
def pieces (read : List Piece) : List Char → Option (List Piece × List Char)
  | [] => none
  | '"' :: rest => some (read.reverse, rest)
  | '\\' :: 'u' :: first :: second :: third :: fourth :: rest => do
      let unit ← hexUnit? first second third fourth
      pieces (.unit unit :: read) rest
  | '\\' :: escape :: rest => do
      let character ← escaped? escape
      pieces (.character character :: read) rest
  | character :: rest =>
      if character = '\\' || character.toNat < 0x20 then none
      else pieces (.character character :: read) rest

/-- The text of pieces; two units that form a surrogate pair are one character,
and half a pair is none. -/
def assemble : List Piece → Option (List Char)
  | [] => some []
  | .character character :: rest => (assemble rest).map (character :: ·)
  | .unit unit :: rest =>
      if 0xD800 ≤ unit && unit < 0xDC00 then
        match rest with
        | .unit low :: rest =>
            if 0xDC00 ≤ low && low < 0xE000 then
              (assemble rest).map
                (Char.ofNat (0x10000 + (unit - 0xD800) * 0x400 + (low - 0xDC00)) :: ·)
            else none
        | _ => none
      else if 0xDC00 ≤ unit && unit < 0xE000 then none
      else (assemble rest).map (Char.ofNat unit :: ·)

/-- A string whose opening quote has been read. -/
def readString (text : List Char) : Option (Option String × List Char) := do
  let (found, rest) ← pieces [] text
  pure ((assemble found).map String.ofList, rest)

/-! ## Numbers -/

/-- At least one digit. -/
def readDigits (text : List Char) : Option (List Char × List Char) :=
  match text.takeWhile Char.isDigit with
  | [] => none
  | digits => some (digits, text.dropWhile Char.isDigit)

/-- Digits of which the first is not an idle 0. -/
def readWhole (text : List Char) : Option (List Char × List Char) := do
  let (digits, rest) ← readDigits text
  if digits.head? = some '0' && 1 < digits.length then none else some (digits, rest)

/-- The part from a point on, if there is one. -/
def readFraction (text : List Char) : Option (List Char × List Char) :=
  match text with
  | '.' :: rest => readDigits rest
  | _ => some ([], text)

/-- The part from an exponent mark on, if there is one. The answer tells whether
the exponent is negative. -/
def readExponent (text : List Char) : Option (Option (Bool × List Char) × List Char) :=
  match text with
  | mark :: rest =>
      if mark = 'e' || mark = 'E' then do
        let negative := rest.head? = some '-'
        let digits := if negative || rest.head? = some '+' then rest.tail else rest
        let (digits, rest) ← readDigits digits
        pure (some (negative, digits), rest)
      else some (none, text)
  | [] => some (none, text)

def readNumber (text : List Char) : Option (JsonNumber × List Char) := do
  let negative := text.head? = some '-'
  let (whole, rest) ← readWhole (if negative then text.tail else text)
  let (fraction, rest) ← readFraction rest
  let (exponent, rest) ← readExponent rest
  pure (⟨negative, whole, fraction, exponent⟩, rest)

/-! ## Values -/

/-- The text behind a word it begins with. -/
def afterWord? (word text : List Char) : Option (List Char) :=
  if word.isPrefixOf text then some (text.drop word.length) else none

mutual
/-- Read a value. Every nested reading starts at least one character later, so
the length of the text is enough `fuel`. -/
def readValue (fuel : Nat) (text : List Char) : Option (Json × List Char) :=
  match fuel with
  | 0 => none
  | fuel + 1 =>
      match skipSpace text with
      | [] => none
      | '"' :: rest => (readString rest).map fun (value, rest) => (.string value, rest)
      | '[' :: rest =>
          match skipSpace rest with
          | ']' :: rest => some (.array [], rest)
          | rest => (readItems fuel rest).map fun (items, rest) => (.array items, rest)
      | '{' :: rest =>
          match skipSpace rest with
          | '}' :: rest => some (.object [], rest)
          | rest => (readMembers fuel rest).map fun (members, rest) => (.object members, rest)
      | first :: rest =>
          if first = 'n' then (afterWord? "ull".toList rest).map (.null, ·)
          else if first = 't' then (afterWord? "rue".toList rest).map (.bool true, ·)
          else if first = 'f' then (afterWord? "alse".toList rest).map (.bool false, ·)
          else (readNumber (first :: rest)).map fun (value, rest) => (.number value, rest)

/-- Read the items of an array, of which there is at least one. -/
def readItems (fuel : Nat) (text : List Char) : Option (List Json × List Char) :=
  match fuel with
  | 0 => none
  | fuel + 1 => do
      let (item, rest) ← readValue fuel text
      match skipSpace rest with
      | ',' :: rest =>
          let (items, rest) ← readItems fuel rest
          pure (item :: items, rest)
      | ']' :: rest => pure ([item], rest)
      | _ => none

/-- Read the members of an object, of which there is at least one. -/
def readMembers (fuel : Nat) (text : List Char) :
    Option (List (Option String × Json) × List Char) :=
  match fuel with
  | 0 => none
  | fuel + 1 => do
      let quote :: rest := skipSpace text | none
      if quote ≠ '"' then none
      else
        let (key, rest) ← readString rest
        let ':' :: rest := skipSpace rest | none
        let (value, rest) ← readValue fuel rest
        match skipSpace rest with
        | ',' :: rest =>
            let (members, rest) ← readMembers fuel rest
            pure ((key, value) :: members, rest)
        | '}' :: rest => pure ([(key, value)], rest)
        | _ => none
end

/-- Read a text that is one value with nothing but white space around it. -/
def read? (text : String) : Option Json := do
  let characters := text.toList
  let (value, rest) ← readValue (2 * characters.length + 2) characters
  if (skipSpace rest).isEmpty then some value else none

end Json

end NumericRules
