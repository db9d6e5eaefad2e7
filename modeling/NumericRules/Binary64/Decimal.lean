import NumericRules.Binary64.Nearest

/-! # Decimal text of numbers

Numbers are written positionally, with the fewest digits that read back to the
same number and never an exponent; they are read with an optional exponent and
rounded correctly.
-/

namespace NumericRules.Binary64

/-! ## Writing -/

/-- A finite size as a ratio of natural numbers. -/
def sizeRatio (significand : Nat) (exponent : Int) : Nat × Nat :=
  if exponent < 0 then (significand, Nat.pow 2 (-exponent).toNat)
  else (significand * Nat.pow 2 exponent.toNat, 1)

/-- The least `power`, counted up from `start`, for which the ratio times
`10 ^ power` is at least 1. -/
def leadingZeros (numerator denominator : Nat) : Nat → Nat → Nat
  | 0, power => power
  | fuel + 1, power =>
      if denominator ≤ numerator then power
      else leadingZeros (numerator * 10) denominator fuel (power + 1)

/-- The `length` for which a positive ratio lies between `10 ^ (length - 1)`
and `10 ^ length`. -/
def decimalLength (numerator denominator : Nat) : Int :=
  if denominator ≤ numerator then (Nat.toDigits 10 (numerator / denominator)).length
  else 1 - leadingZeros numerator denominator 400 0

/-- A decimal size `digits * 10 ^ exponent`. -/
structure DecimalSize where
  digits : Nat
  exponent : Int
deriving DecidableEq, Repr

/-- The ratio counted in units of `10 ^ exponent`. -/
def inUnits (numerator denominator : Nat) (exponent : Int) : Nat × Nat :=
  if exponent < 0 then (numerator * Nat.pow 10 (-exponent).toNat, denominator)
  else (numerator, denominator * Nat.pow 10 exponent.toNat)

/-- Whether a decimal size reads back to the number with these size bits. -/
def readsBack (bits : Nat) (size : DecimalSize) : Bool :=
  nearestDecimal false size.digits size.exponent = ofSizeBits false bits

/-- The neighbour of a positive ratio on the grid of `10 ^ exponent` that reads
back to the given bits: of two such neighbours the nearer one, and of two
equally near ones the upper. -/
def neighbour? (bits numerator denominator : Nat) (exponent : Int) : Option DecimalSize :=
  let units := inUnits numerator denominator exponent
  let below : DecimalSize := ⟨units.1 / units.2, exponent⟩
  let above : DecimalSize := ⟨units.1 / units.2 + 1, exponent⟩
  let nearer := if 2 * (units.1 % units.2) < units.2 then [below, above] else [above, below]
  nearer.find? (readsBack bits)

/-- A finite size written out in full. -/
def exactSize (significand : Nat) (exponent : Int) : DecimalSize :=
  if exponent < 0 then ⟨significand * Nat.pow 5 (-exponent).toNat, exponent⟩
  else ⟨significand * Nat.pow 2 exponent.toNat, 0⟩

/-- The decimal size of a positive finite number with the fewest digits that
reads back to it. Seventeen digits are always enough. -/
def shortestSize (significand : Nat) (exponent : Int) : DecimalSize :=
  let ratio := sizeRatio significand exponent
  let bits := sizeBits significand exponent
  let length := decimalLength ratio.1 ratio.2
  let counts := (List.range 17).map fun count : Nat => length - (count + 1 : Nat)
  (counts.findSome? (neighbour? bits ratio.1 ratio.2)).getD (exactSize significand exponent)

/-- Drop the zeros that end a decimal fraction. -/
def DecimalSize.trimmed (size : DecimalSize) : DecimalSize :=
  if size.exponent < 0 then go size.digits (-size.exponent).toNat else size
where
  go (digits : Nat) : Nat → DecimalSize
    | 0 => ⟨digits, 0⟩
    | places + 1 =>
        if digits % 10 = 0 then go (digits / 10) places
        else ⟨digits, -(places + 1 : Nat)⟩

/-- Positional text of a decimal size: zeros fill the places between the digits
and the point. -/
def DecimalSize.text (size : DecimalSize) : List Char :=
  let digits := Nat.toDigits 10 size.digits
  if 0 ≤ size.exponent then digits ++ List.replicate size.exponent.toNat '0'
  else
    let places := (-size.exponent).toNat
    let padded := List.replicate (places + 1 - digits.length) '0' ++ digits
    padded.take (padded.length - places) ++ '.' :: padded.drop (padded.length - places)

/-- The characters that write a number. -/
def spell (value : Binary64) : List Char :=
  match parts value with
  | .notANumber => ['N', 'a', 'N']
  | .infinite negative => if negative then ['-', 'i', 'n', 'f'] else ['i', 'n', 'f']
  | .finite negative significand exponent =>
      let size := if significand = 0 then ['0']
        else (shortestSize significand exponent).trimmed.text
      if negative then '-' :: size else size

/-- The text of a number. -/
def format (value : Binary64) : String := String.ofList (spell value)

/-! ## Reading -/

def digitValue (digit : Char) : Nat := digit.toNat - '0'.toNat

/-- The power of ten up to which digits are gathered into one block. -/
def blockLimit : Nat := Nat.pow 10 250

/-- The value of the digits read so far, a total before a block of size `scale`, and
of those that follow. The total grows once a block, because it may be long. -/
def digitsValueFrom (total block scale : Nat) : List Char → Nat
  | [] => total * scale + block
  | digit :: rest =>
      if scale < blockLimit then
        digitsValueFrom total (block * 10 + digitValue digit) (scale * 10) rest
      else digitsValueFrom (total * scale + block) (digitValue digit) 10 rest

def digitsValue (digits : List Char) : Nat := digitsValueFrom 0 0 1 digits

theorem digitsValueFrom_eq_foldl (total block scale : Nat) (digits : List Char) :
    digitsValueFrom total block scale digits =
      digits.foldl (fun value digit => value * 10 + digitValue digit) (total * scale + block) := by
  induction digits generalizing total block scale with
  | nil => rfl
  | cons digit rest ih =>
      rw [digitsValueFrom]
      split
      · rw [ih, List.foldl_cons, Nat.add_mul, Nat.mul_assoc, Nat.add_assoc]
      · rw [ih, List.foldl_cons]

/-- Each digit multiplies the value of those before it by ten. -/
theorem digitsValue_eq_foldl (digits : List Char) :
    digitsValue digits =
      digits.foldl (fun value digit => value * 10 + digitValue digit) 0 :=
  digitsValueFrom_eq_foldl 0 0 1 digits

/-- Why a text is no number. -/
inductive ReadFault where
  | empty
  | malformed
deriving DecidableEq, Repr

/-- A signed run of digits that fills the text. -/
def readExponent? (text : List Char) : Option Int :=
  let unsigned := match text with
    | '+' :: rest | '-' :: rest => rest
    | _ => text
  if unsigned.isEmpty || !unsigned.all Char.isDigit then none
  else if text.head? = some '-' then some (-(digitsValue unsigned : Int))
  else some (digitsValue unsigned)

/-- Digits with an optional fraction and an optional exponent, filling the
text. At least one digit stands before or after the point. -/
def readUnsigned? (negative : Bool) (text : List Char) : Option Binary64 :=
  let whole := text.takeWhile Char.isDigit
  let afterWhole := text.dropWhile Char.isDigit
  let hasPoint := afterWhole.head? = some '.'
  let fraction := if hasPoint then afterWhole.tail.takeWhile Char.isDigit else []
  let afterFraction := if hasPoint then afterWhole.tail.dropWhile Char.isDigit else afterWhole
  if whole.isEmpty && fraction.isEmpty then none
  else
    let scaled (exponent : Int) : Binary64 :=
      nearestDecimal negative (digitsValue (whole ++ fraction)) (exponent - fraction.length)
    match afterFraction with
    | [] => some (scaled 0)
    | marker :: rest =>
        if marker = 'e' || marker = 'E' then (readExponent? rest).map scaled else none

/-- The names of what is no finite number, in any letter case. -/
def readSpecial? (negative : Bool) (text : List Char) : Option Binary64 :=
  match String.ofList (text.map Char.toLower) with
  | "inf" | "infinity" => some (infinity negative)
  | "nan" => some (notANumber negative)
  | _ => none

/-- Read the text of a number: an optional sign, then digits with an optional
fraction and exponent, or the name of an infinity or of what is not a number. -/
def read (text : String) : Except ReadFault Binary64 :=
  let characters := text.toList
  let negative := characters.head? = some '-'
  let unsigned := match characters with
    | '+' :: rest | '-' :: rest => rest
    | _ => characters
  if characters.isEmpty then .error .empty
  else match (readUnsigned? negative unsigned).or (readSpecial? negative unsigned) with
    | some value => .ok value
    | none => .error .malformed

end NumericRules.Binary64
