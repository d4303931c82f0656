/-!
# Reading floats

The decimal notation of a 32-bit float: an optional sign, then digits with an optional point and
an optional exponent, or one of the words for infinity and for a value that is no number, in
upper or lower case.  At least one digit stands beside the point.  The value is the float nearest
to the decimal (`Float32.ofScientific` rounds once, from exact arithmetic); beyond the range it is
infinite.

`Decimal.float?` answers nothing for a text of any other form.
-/

namespace OfficeMath.Decimal

/-- The value of a run of digits. -/
def naturalOf (digits : List Char) : Nat :=
  digits.foldl (fun value c => 10 * value + (c.toNat - '0'.toNat)) 0

/-- A run of at least one digit with an optional sign, as a whole. -/
def exponent? (text : List Char) : Option Int :=
  let (negative, digits) := match text with
    | '-' :: rest => (true, rest)
    | '+' :: rest => (false, rest)
    | rest => (false, rest)
  if digits.isEmpty || !digits.all Char.isDigit then none
  else if negative then some (-(naturalOf digits : Int))
  else some (naturalOf digits)

/-- The float nearest to `m · 10 ^ e`. -/
def scientific (m : Nat) (e : Int) : Float32 :=
  if 0 ≤ e then Float32.ofScientific m false e.toNat else Float32.ofScientific m true (-e).toNat

/-- A decimal without a sign. -/
def magnitude? (text : List Char) : Option Float32 :=
  let whole := text.takeWhile Char.isDigit
  let afterWhole := text.dropWhile Char.isDigit
  let (fraction, rest) := match afterWhole with
    | '.' :: rest => (rest.takeWhile Char.isDigit, rest.dropWhile Char.isDigit)
    | rest => ([], rest)
  if whole.isEmpty && fraction.isEmpty then none
  else
    let value (e : Int) := scientific (naturalOf (whole ++ fraction)) (e - fraction.length)
    match rest with
    | [] => some (value 0)
    | c :: rest => if c = 'e' || c = 'E' then (exponent? rest).map value else none

/-- A number, or a word for a value that is not finite, without a sign. -/
def unsigned? (text : List Char) : Option Float32 :=
  match String.ofList (text.map Char.toLower) with
  | "inf" | "infinity" => some (Float32.ofBits 0x7F800000)
  | "nan" => some (Float32.ofBits 0x7FC00000)
  | _ => magnitude? text

/-- The float that a text denotes. -/
def float? (text : String) : Option Float32 :=
  match text.toList with
  | '-' :: rest => (unsigned? rest).map (- ·)
  | '+' :: rest => unsigned? rest
  | rest => unsigned? rest

end OfficeMath.Decimal
