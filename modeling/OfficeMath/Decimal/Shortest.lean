/-!
# The shortest decimal of a float

A 32-bit float is written with the fewest digits that read back as the same float; among the
decimals of that many digits the one nearest to the float is taken, and of two equally near ones
the larger.

A positive finite float is `m · 2 ^ q` with natural `m`.  The reals that round to it form an
interval around it: half the gap to each neighbour, the ends included if `m` is even.
`Decimal.search` runs through the powers of ten from above and takes the first one that has a
multiple in this interval.  Only the two multiples next to the float have to be tried, because
any other one in the interval has one of them between itself and the float.  All of this is exact
arithmetic on natural numbers.

* `Decimal.digits` gives the digits and the exponent of a float;
* `Decimal.plain` writes a float without an exponent, and without a point if it is whole;
* `Decimal.pointed` writes at least one digit after the point.
-/

namespace OfficeMath.Decimal

/-- A positive finite float `m · 2 ^ q`.  If it is a power of two, the gap below it is only half
the gap above. -/
structure Binary where
  m : Nat
  q : Int
  powerOfTwo : Bool

/-- The absolute value of a finite float. -/
def Binary.ofFloat (x : Float32) : Binary :=
  let bits : Nat := x.toBits.toNat
  let exponent : Nat := bits / 0x800000 % 0x100
  let fraction : Nat := bits % 0x800000
  if exponent = 0 then ⟨fraction, -149, false⟩
  else ⟨0x800000 + fraction, (exponent : Int) - 150, fraction = 0 && exponent > 1⟩

/-- Compare `a · 2 ^ q` with `b · 10 ^ k`. -/
def compareScaled (a : Nat) (q : Int) (b : Nat) (k : Int) : Ordering :=
  compare (a * Nat.pow 2 q.toNat * Nat.pow 10 (-k).toNat)
    (b * Nat.pow 10 k.toNat * Nat.pow 2 (-q).toNat)

namespace Binary

/-- Whether the decimal `d · 10 ^ k` rounds to the float. -/
def isRoundedFrom (x : Binary) (d : Nat) (k : Int) : Bool :=
  let low := compareScaled (4 * x.m - if x.powerOfTwo then 1 else 2) (x.q - 2) d k
  let high := compareScaled (4 * x.m + 2) (x.q - 2) d k
  if x.m % 2 = 0 then low ≠ .gt && high ≠ .lt else low = .lt && high = .gt

/-- The largest `d` with `d · 10 ^ k` not above the float. -/
def floorAt (x : Binary) (k : Int) : Nat :=
  x.m * Nat.pow 2 x.q.toNat * Nat.pow 10 (-k).toNat / (Nat.pow 10 k.toNat * Nat.pow 2 (-x.q).toNat)

/-- The multiple of `10 ^ k` that rounds to the float and is nearest to it, if there is one. -/
def nearestAt? (x : Binary) (k : Int) : Option Nat :=
  let d := x.floorAt k
  match x.isRoundedFrom d k, x.isRoundedFrom (d + 1) k with
  | false, false => none
  | true, false => some d
  | false, true => some (d + 1)
  | true, true => if compareScaled (2 * x.m) x.q (2 * d + 1) k = .lt then some d else some (d + 1)

end Binary

/-- Try `10 ^ k` and the `steps` powers below it. -/
def search (x : Binary) (k : Int) : (steps : Nat) → Nat × Int
  | 0 => (x.floorAt k, k)
  | steps + 1 =>
    match x.nearestAt? k with
    | some d => (d, k)
    | none => search x (k - 1) steps

/-- The digits `d` and the exponent `k` of the shortest decimal `d · 10 ^ k` of a finite float.
No float reaches `10 ^ 39`, and each is an exact multiple of a power of ten within the range. -/
def digits (x : Float32) : Nat × Int :=
  let value := Binary.ofFloat x
  if value.m = 0 then (0, 0) else search value 39 200

/-- Whether the sign bit is set. -/
def isNegative (x : Float32) : Bool := x.toBits.toNat ≥ 0x80000000

/-- The decimal `d · 10 ^ k` without an exponent; `whole` is what follows a whole number. -/
def positional (d : Nat) (k : Int) (whole : String) : String :=
  let text := (Nat.repr d).toList
  if 0 ≤ k then String.ofList (text ++ List.replicate k.toNat '0') ++ whole
  else
    let places := (-k).toNat
    let padded := List.replicate (places + 1 - text.length) '0' ++ text
    String.ofList (padded.take (padded.length - places)) ++ "." ++
      String.ofList (padded.drop (padded.length - places))

/-- The text of a float, with `whole` after a whole number. -/
def render (x : Float32) (whole : String) : String :=
  if x.isNaN then "NaN"
  else
    let sign := if isNegative x then "-" else ""
    if x.isInf then sign ++ "inf"
    else sign ++ positional (digits x).1 (digits x).2 whole

/-- The shortest text of a float; a whole number has no point. -/
def plain (x : Float32) : String := render x ""

/-- The shortest text of a float with at least one digit after the point. -/
def pointed (x : Float32) : String := render x ".0"

end OfficeMath.Decimal
