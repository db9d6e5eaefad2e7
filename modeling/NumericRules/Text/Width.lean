import NumericRules.Text.Picture

/-! # Width of text

How many columns of a display a text takes. That is the sum over its characters,
except where several characters are drawn as one: pictures that are joined, given
a skin tone or chosen by a selector, letters of flags, and the ligatures of some
scripts. Whether a character belongs to such a group depends on what stands
behind it, so a text is measured from its end.
-/

namespace NumericRules.Text

/-! ## Ligatures -/

/-- The forms of the Arabic letter alef. -/
def alefRanges : List (Nat × Nat) :=
    [(0x622, 0x623), (0x625, 0x625), (0x627, 0x627), (0x671, 0x673), (0x675, 0x675),
     (0x773, 0x774), (0x870, 0x882)]

/-- The forms of the Arabic letter lam. -/
def lamRanges : List (Nat × Nat) :=
    [(0x644, 0x644), (0x6B5, 0x6B8), (0x76A, 0x76A), (0x8A6, 0x8A6), (0x8C7, 0x8C7)]

/-- The Khmer letters that have a form below another letter. -/
def khmerLetterRanges : List (Nat × Nat) :=
    [(0x1780, 0x1782), (0x1784, 0x1787), (0x1789, 0x178C), (0x178E, 0x1793), (0x1795, 0x1798),
     (0x179B, 0x179D), (0x17A0, 0x17A0), (0x17A2, 0x17A2), (0x17A7, 0x17A7), (0x17AB, 0x17AC),
     (0x17AF, 0x17AF)]

def isTifinaghConsonant (character : Char) : Bool :=
  inRanges [(0x2D31, 0x2D65), (0x2D6F, 0x2D6F)] character

/-- The tones of Lisu that can stand first in a pair. -/
def isFirstLisuTone (character : Char) : Bool := inRanges [(0xA4F8, 0xA4FB)] character

/-- The tones of Lisu that can stand second in a pair. -/
def isSecondLisuTone (character : Char) : Bool := inRanges [(0xA4FC, 0xA4FD)] character

/-- Quotation marks, which a selector makes as wide as an ideograph. -/
def isQuotationMark (character : Char) : Bool :=
  inRanges [(0x2018, 0x2019), (0x201C, 0x201D)] character

/-! ## What follows -/

/-- What stands behind a place of a text, as far as the columns of what stands
before it depend on it. -/
inductive Follower where
  | other
  | lineFeed
  | wideSelector
  | skinTone
  | flagLetters (number : Nat)
  | picture
  /-- A joiner and behind it a picture. -/
  | joinedPicture
  /-- The frame of a key, joined to a picture. -/
  | joinedKey
  | joinedFlagLetters (number : Nat)
  /-- The end of the name of a region whose flag is joined to a picture. -/
  | joinedTags (letters digits : Nat)
  | alef
  | lamed (joined : Bool)
  | khmerLetter
  | ya (joined : Bool)
  /-- The joined letter ya with the vowel before it. -/
  | yaVowel
  | tifinagh (joined : Bool)
  | tifinaghJoiner
  | lisuTone
  | orkhonI (joined : Bool)
  | kiratE
  | kiratAi
deriving DecidableEq, Repr

namespace Follower

/-- What a character is for the characters before it. -/
def ofCharacter (character : Char) : Follower :=
  match character with
  | '\n' => .lineFeed
  | '\u05DC' => .lamed false
  | '\u1A10' => .ya false
  | '\uFE01' => .wideSelector
  | _ =>
      if character.toNat = 0x10C03 then .orkhonI false
      else if character.toNat = 0x16D67 then .kiratE
      else if character.toNat = 0x16D68 then .kiratAi
      else if inRanges alefRanges character then .alef
      else if inRanges khmerLetterRanges character then .khmerLetter
      else if isTifinaghConsonant character then .tifinagh false
      else if isSecondLisuTone character then .lisuTone
      else if isFlagLetter character then .flagLetters 1
      else if isSkinTone character then .skinTone
      else if isPicture character then .picture
      else .other

/-- Whether this may be the end of a ligature of a script. -/
def isLigature : Follower → Bool
  | .alef | .lamed _ | .khmerLetter | .ya _ | .yaVowel | .tifinagh _ | .tifinaghJoiner
  | .lisuTone | .orkhonI _ => true
  | _ => false

def isJoined : Follower → Bool
  | .joinedPicture | .joinedKey => true
  | _ => false

/-- The end of a ligature with a mark before it that is not to be seen. -/
def afterMark (mark : Char) (follower : Follower) : Follower :=
  if mark = joiner then
    match follower with
    | .lamed _ => .lamed true
    | .ya _ => .ya true
    | .tifinagh _ => .tifinagh true
    | .orkhonI _ => .orkhonI true
    | _ => follower
  else follower

/-- How a character adds to the columns of what it is drawn as one with, and what
both are for the characters before them. `none` when the character is drawn by
itself. -/
def unite? (character : Char) : Follower → Option (Int × Follower)
  | .lineFeed => if character = '\r' then some (0, .other) else none
  | .wideSelector => if isQuotationMark character then some (2, .other) else none
  | .skinTone =>
      if isBody character then some (0, .picture)
      else if character = joiner then some (0, .joinedPicture)
      else none
  | .flagLetters number =>
      if isFlagLetter character then some (1, .flagLetters (number + 1))
      else if character = joiner && 1 < number then some (0, .joinedPicture)
      else none
  | .picture => if character = joiner then some (0, .joinedPicture) else none
  | .joinedPicture =>
      if character = keyFrame then some (0, .joinedKey)
      else if isFlagLetter character then some (1, .joinedFlagLetters 1)
      else if isSkinTone character then some (0, .skinTone)
      else if character = lastTag then some (0, .joinedTags 0 0)
      else if isPicture character then some (0, .picture)
      else none
  | .joinedFlagLetters number =>
      if isFlagLetter character then
        some (if number % 2 = 1 then -1 else 3, .joinedFlagLetters (number + 1))
      else if character = joiner && 1 < number then some (0, .joinedPicture)
      else none
  | .joinedTags letters digits =>
      if isTagLetter character && letters < 6 && digits = 0 then
        some (0, .joinedTags (letters + 1) 0)
      else if isTagDigit character && letters < 5 && digits < 3 then
        some (0, .joinedTags letters (digits + 1))
      else if character = blackFlag && ((2 < letters && digits = 0) || digits = 3) then
        some (0, .picture)
      else none
  | .alef =>
      if inRanges lamRanges character then some (0, .other)
      else if isTransparent character then some (0, .alef)
      else none
  | .lamed true => if character = '\u05D0' then some (0, .other) else none
  | .khmerLetter => if character = '\u17D2' then some (-1, .other) else none
  | .ya true => if character = '\u1A17' then some (0, .yaVowel) else none
  | .yaVowel => if character = '\u1A15' then some (0, .other) else none
  | .tifinagh joined =>
      if character = '\u2D7F' then some (1, .tifinaghJoiner)
      else if joined && isTifinaghConsonant character then some (0, .other)
      else none
  | .tifinaghJoiner => if isTifinaghConsonant character then some (-1, .other) else none
  | .lisuTone => if isFirstLisuTone character then some (0, .other) else none
  | .orkhonI true => if character.toNat = 0x10C32 then some (0, .other) else none
  | .kiratE =>
      if character.toNat = 0x16D63 || character.toNat = 0x16D69 then some (0, .other)
      else if character.toNat = 0x16D67 then some (0, .kiratAi)
      else if character.toNat = 0x16D68 then some (1, .kiratE)
      else none
  | .kiratAi => if character.toNat = 0x16D63 then some (0, .other) else none
  | _ => none

end Follower

/-- What stands behind a place of a text, and whether a selector directly behind
the place asks for a picture or for a sign. -/
structure Context where
  follower : Follower := .other
  asPicture : Bool := false
  asSign : Bool := false
deriving DecidableEq, Repr

namespace Context

/-- The context when no character is there whose picture was asked for. Only
ligatures can go on over the selector. -/
def withoutPicture (context : Context) : Context :=
  if !context.asPicture then context
  else if context.follower.isLigature then { context with asPicture := false }
  else {}

def selectPicture (context : Context) : Context :=
  if context.follower.isLigature || context.follower.isJoined then
    { context with asPicture := true }
  else { asPicture := true }

def selectSign (context : Context) : Context :=
  if context.follower.isLigature then { context with asSign := true } else { asSign := true }

/-- How a character adds to the columns of the text behind it when its picture is
not asked for, and the context both are for the characters before them. -/
def putBefore (character : Char) (context : Context) : Int × Context :=
  if character = pictureSelector then (0, context.selectPicture)
  else if character = signSelector then (0, context.selectSign)
  else if context.asSign && hasNarrowSign character then (1, {})
  else if context.follower.isLigature && context.follower ≠ .alef &&
      isInvisibleMark character then
    (0, { follower := context.follower.afterMark character })
  else
    match context.follower.unite? character with
    | some (columns, follower) => (columns, { follower })
    | none => (columnsOf character, { follower := .ofCharacter character })

/-- How a character adds to the columns of the text behind it, and the context both
are for the characters before them. -/
def before (character : Char) (context : Context) : Int × Context :=
  if context.asPicture && isSelectable character then
    (if context.follower.isJoined then 0 else 2, { follower := .picture })
  else context.withoutPicture.putBefore character

end Context

/-- The columns of a text, and what it is for characters before it. -/
def measure (text : List Char) : Int × Context :=
  text.foldr (fun character (columns, context) =>
    let (added, context) := context.before character
    (columns + added, context)) (0, {})

def displayWidth (text : List Char) : Nat := (measure text).1.toNat

end NumericRules.Text
