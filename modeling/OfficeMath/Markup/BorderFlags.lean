/-!
# Border boxes

A border box draws a frame and strokes around and across its content.  What it leaves out or adds
is a set of flags, one bit each; bits without a meaning are kept and ignored.
-/

namespace OfficeMath

/-- A property of a border box. -/
inductive BorderFlag where
  | hideTop
  | hideBottom
  | hideLeft
  | hideRight
  /-- A stroke from the lower left to the upper right. -/
  | strikeRising
  /-- A stroke from the upper left to the lower right. -/
  | strikeFalling
  deriving DecidableEq, Repr

namespace BorderFlag

/-- All flags in the order of the markup. -/
def all : List BorderFlag :=
  [.hideTop, .hideBottom, .hideLeft, .hideRight, .strikeRising, .strikeFalling]

/-- The name of the property in markup. -/
def name : BorderFlag → String
  | .hideTop => "hideTop"
  | .hideBottom => "hideBot"
  | .hideLeft => "hideLeft"
  | .hideRight => "hideRight"
  | .strikeRising => "strikeBLTR"
  | .strikeFalling => "strikeTLBR"

/-- The bit of the flag. -/
def bit : BorderFlag → UInt8
  | .hideTop => 1
  | .hideBottom => 2
  | .hideLeft => 4
  | .hideRight => 8
  | .strikeRising => 16
  | .strikeFalling => 32

end BorderFlag

/-- A set of flags. -/
structure BorderFlags where
  bits : UInt8
  deriving DecidableEq, Repr

namespace BorderFlags

/-- The set of the given flags. -/
def ofList (flags : List BorderFlag) : BorderFlags :=
  ⟨flags.foldl (fun bits flag => bits ||| flag.bit) 0⟩

/-- The set of all flags that hide a side of the frame. -/
def hideAll : BorderFlags := ofList [.hideTop, .hideBottom, .hideLeft, .hideRight]

/-- The flags of two sets. -/
def union (first second : BorderFlags) : BorderFlags := ⟨first.bits ||| second.bits⟩

/-- Whether all flags of `part` are in the set. -/
def includes (flags part : BorderFlags) : Bool := flags.bits &&& part.bits = part.bits

/-- Whether a flag is in the set. -/
def contains (flags : BorderFlags) (flag : BorderFlag) : Bool :=
  flags.bits &&& flag.bit = flag.bit

/-- The names of the properties that are switched on, in the order of the markup. -/
def propertyNames (flags : BorderFlags) : List String :=
  (BorderFlag.all.filter flags.contains).map BorderFlag.name

end BorderFlags

end OfficeMath
