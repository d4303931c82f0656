import OfficeMath.Toml.Digit
import OfficeMath.Toml.Value

/-!
# Scalars of TOML documents

Booleans, numbers, dates and times are written without quotes.  Each of them is a word without
blanks, except that a date and a time may be separated by a single space.  `scalar?` decides what
a word is:

* whole numbers in base ten, without leading zeros, or in base 16, 8 or 2 behind `0x`, `0o`, `0b`;
  single underscores may stand between digits; the value has to fit into 64 bits;
* other numbers with a fraction or an exponent or both, or `inf` or `nan`;
* dates, times, and both together with or without an offset from universal time.
-/

namespace OfficeMath.Toml

/-- The value of digits of a base with single underscores between them.  `value` is the value of
the digits before, if there are any; an underscore needs a digit on either side. -/
def digitsFrom? (base : Nat) : (value : Option Nat) → List Char → Option Nat
  | value, [] => value
  | none, c :: rest =>
    match digitValue? base c with
    | some digit => digitsFrom? base (some digit) rest
    | none => none
  | some value, '_' :: c :: rest =>
    match digitValue? base c with
    | some digit => digitsFrom? base (some (value * base + digit)) rest
    | none => none
  | some value, c :: rest =>
    match digitValue? base c with
    | some digit => digitsFrom? base (some (value * base + digit)) rest
    | none => none

/-- The value of a run of digits with single underscores between them. -/
def digits? (base : Nat) (word : List Char) : Option Nat := digitsFrom? base none word

/-- The sign of a number, whether it is a minus, and the rest. -/
def takeSign : List Char → Bool × List Char
  | '-' :: rest => (true, rest)
  | '+' :: rest => (false, rest)
  | word => (false, word)

/-- The value of decimal digits without a leading zero. -/
def decimal? (word : List Char) : Option Nat :=
  match word with
  | '0' :: _ :: _ => none
  | _ => digits? 10 word

/-- Whether a number fits into 64 bits, with or without a sign. -/
def fits (value : Int) : Bool := -0x8000000000000000 ≤ value && value < 0x10000000000000000

/-- A whole number. -/
def integer? (word : List Char) : Option Value :=
  let value : Option Int :=
    match word with
    | '0' :: 'x' :: rest => (digits? 16 rest).map Int.ofNat
    | '0' :: 'o' :: rest => (digits? 8 rest).map Int.ofNat
    | '0' :: 'b' :: rest => (digits? 2 rest).map Int.ofNat
    | _ =>
      let (negative, rest) := takeSign word
      (decimal? rest).map fun n => if negative then -(n : Int) else n
  (value.filter fits).map .integer

/-- The exponent of a number. -/
def exponent? (word : List Char) : Option Int :=
  let (negative, rest) := takeSign word
  (digits? 10 rest).map fun n => if negative then -(n : Int) else n

/-- Whether `m · 10 ^ e` lies within the range of a 64-bit float. -/
def isInRange (m : Nat) (e : Int) : Bool :=
  (if 0 ≤ e then Float.ofScientific m false e.toNat
    else Float.ofScientific m true (-e).toNat).isFinite

/-- A number with a fraction or an exponent or both, without its sign. -/
def isMagnitude (word : List Char) : Bool :=
  let isDigit (c : Char) := c.isDigit || c = '_'
  let whole := word.takeWhile isDigit
  let afterWhole := word.dropWhile isDigit
  let (fraction, afterFraction) : Option (List Char) × List Char :=
    match afterWhole with
    | '.' :: rest => (some (rest.takeWhile isDigit), rest.dropWhile isDigit)
    | rest => (none, rest)
  let exponent : Option (Option Int) :=
    match afterFraction with
    | [] => some none
    | c :: rest => if c = 'e' || c = 'E' then (exponent? rest).map some else none
  let significant := (whole ++ fraction.getD []).filter Char.isDigit
  let places := ((fraction.getD []).filter Char.isDigit).length
  match decimal? whole, exponent with
  | some _, some exponent =>
    (fraction.isSome || exponent.isSome) &&
      fraction.all (fun digits => (digits? 10 digits).isSome) &&
      isInRange ((digits? 10 significant).getD 0) (exponent.getD 0 - places)
  | _, _ => false

/-- A number that is not whole, or one of the words for an infinite value and for no number. -/
def float? (word : List Char) : Option Value :=
  let (_, rest) := takeSign word
  if rest = "inf".toList || rest = "nan".toList || isMagnitude rest then some .float else none

/-- The value of exactly `count` digits, and what follows them. -/
def fixedDigits? (count : Nat) (word : List Char) : Option (Nat × List Char) :=
  let front := word.take count
  if front.length = count && front.all Char.isDigit then
    (digits? 10 front).map (·, word.drop count)
  else none

/-- The number of days of a month. -/
def daysOfMonth (year month : Nat) : Nat :=
  if month = 2 then
    if year % 4 = 0 && (year % 100 ≠ 0 || year % 400 = 0) then 29 else 28
  else if month = 4 || month = 6 || month = 9 || month = 11 then 30
  else 31

/-- What follows a date at the start of a word. -/
def afterDate? (word : List Char) : Option (List Char) := do
  let (year, rest) ← fixedDigits? 4 word
  let '-' :: rest := rest | none
  let (month, rest) ← fixedDigits? 2 rest
  let '-' :: rest := rest | none
  let (day, rest) ← fixedDigits? 2 rest
  if 1 ≤ month && month ≤ 12 && 1 ≤ day && day ≤ daysOfMonth year month then some rest else none

/-- What follows hours and minutes at the start of a word. -/
def afterMinutes? (word : List Char) : Option (List Char) := do
  let (hour, rest) ← fixedDigits? 2 word
  let ':' :: rest := rest | none
  let (minute, rest) ← fixedDigits? 2 rest
  if hour ≤ 23 && minute ≤ 59 then some rest else none

/-- What follows a time at the start of a word.  Seconds may be left out; a minute may have a leap
second. -/
def afterTime? (word : List Char) : Option (List Char) := do
  match ← afterMinutes? word with
  | ':' :: rest =>
    let (second, rest) ← fixedDigits? 2 rest
    if second > 60 then none
    else
      match rest with
      | '.' :: fraction =>
        let digits := fraction.takeWhile Char.isDigit
        if digits.isEmpty then none else some (fraction.drop digits.length)
      | rest => some rest
  | rest => some rest

/-- Whether a word is an offset from universal time, or nothing. -/
def isOffset (word : List Char) : Bool :=
  match word with
  | [] => true
  | c :: rest =>
    if c = 'Z' || c = 'z' then rest.isEmpty
    else (c = '+' || c = '-') && afterMinutes? rest = some []

/-- Whether a word is a date, a time, or both. -/
def isDateTime (word : List Char) : Bool :=
  match afterDate? word with
  | none => afterTime? word = some []
  | some [] => true
  | some (c :: rest) =>
    (c = 'T' || c = 't' || c = ' ') && (afterTime? rest).any isOffset

/-- What a word without quotes stands for. -/
def scalar? (word : List Char) : Option Value :=
  if word = "true".toList then some (.boolean true)
  else if word = "false".toList then some (.boolean false)
  else if isDateTime word then some .dateTime
  else (integer? word).or (float? word)

/-- Whether a character can stand in a word without quotes. -/
def isWordChar (c : Char) : Bool :=
  c.isAlphanum || c = '_' || c = '+' || c = '-' || c = '.' || c = ':'

/-- The word at the start of a text and what follows it.  A time after a date and a single space
belongs to the word of the date. -/
def takeWord (text : List Char) : List Char × List Char :=
  let word := text.takeWhile isWordChar
  let rest := text.dropWhile isWordChar
  match afterDate? word, rest with
  | some [], ' ' :: c :: others =>
    if c.isDigit then
      (word ++ ' ' :: (c :: others).takeWhile isWordChar, (c :: others).dropWhile isWordChar)
    else (word, rest)
  | _, _ => (word, rest)

end OfficeMath.Toml
