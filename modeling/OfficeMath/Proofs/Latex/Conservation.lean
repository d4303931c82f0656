import OfficeMath.Formula.Equality
import OfficeMath.Proofs.Latex.Ledger
import OfficeMath.Proofs.Latex.Steps

/-!
# Nothing is dropped in silence

What becomes of the characters of a formula without commands?  `Accounted` says it class by class:
letters and signs are found again as identifiers and symbols, digits in the numbers, dots in the
numbers or as symbols, apostrophes in the primes, `~` as a space, braces in pairs, and whatever
means nothing is in a note.  Only `^` and `_` leave no trace of their own, and layout leaves none at
all.  `parse_accounts` proves it for every formula that can be read.

Each line of the account is the balance of one ledger (`Ledger.Fair.balances`).  Four kinds of
ledgers are enough: one that prices the texts that characters stand for (`Ledger.ofTexts`), one
that follows a single character (`Ledger.tracking`), one in which an opening brace costs what a
closing one brings in (`Ledger.pairing`), and one in which nothing has a price but the notes that
nobody expects (`Ledger.surprises`).
-/

namespace OfficeMath

/-! ## The account -/

/-- The texts of the identifiers of a formula, at every depth. -/
def identifiersOf (formula : Formula) : List String :=
  (nodesOf formula).filterMap fun
    | .identifier letters => some letters
    | _ => none

/-- The texts of the symbols of a formula, at every depth. -/
def symbolsOf (formula : Formula) : List String :=
  (nodesOf formula).filterMap fun
    | .symbol _ glyph => some glyph
    | _ => none

/-- The texts of the numbers of a formula, at every depth. -/
def numbersOf (formula : Formula) : List String :=
  (nodesOf formula).filterMap fun
    | .number digits => some digits
    | _ => none

/-- The widths of the spaces of a formula, at every depth. -/
def spacesOf (formula : Formula) : List Float32 :=
  (nodesOf formula).filterMap fun
    | .space width => some width
    | _ => none

/-- The characters that are reported as skipped. -/
def skippedOf (notes : List Note) : List Char :=
  notes.filterMap fun
    | .skippedCharacter c _ => some c
    | _ => none

/-- The number of apostrophes that a prime glyph stands for; zero for any other character. -/
def primeWeight (c : Char) : Nat :=
  if c = '′' then 1 else if c = '″' then 2 else if c = '‴' then 3 else if c = '⁗' then 4 else 0

/-- The number of apostrophes that a text of prime glyphs stands for. -/
def apostrophes (glyph : String) : Nat := (glyph.toList.map primeWeight).sum

/-- A text that is made of prime glyphs. -/
def IsPrimeText (glyph : String) : Prop := glyph ≠ "" ∧ ∀ c ∈ glyph.toList, primeWeight c ≠ 0

/-- Where the significant characters of a formula have gone. -/
structure Accounted (input : List Char) (formula : Formula) (notes : List Note) : Prop where
  texts : ∀ shown, shown ≠ "." → ¬ IsPrimeText shown →
    (identifiersOf formula).count shown + (symbolsOf formula).count shown
      = input.countP (image? · = some shown)
  digits : ∀ d, d.isDigit → ((numbersOf formula).flatMap String.toList).count d = input.count d
  dots : ((numbersOf formula).flatMap String.toList).count '.' + (symbolsOf formula).count "."
    = input.count '.'
  spaces : (spacesOf formula).length = input.count '~'
  primes : (∀ c ∈ input, primeWeight c = 0) →
    ((symbolsOf formula).map apostrophes).sum = input.count '\x27'
  braces : input.count '{' + (skippedOf notes).count '}' = input.count '}'
  others : ∀ c, image? c = none → c.isDigit = false →
    c ∉ ['~', '\x27', '{', '}', '^', '_'] → (skippedOf notes).count c = input.count c
  /-- And nothing else is reported. -/
  notes : ∀ note ∈ notes, ∃ c offset, note = .skippedCharacter c offset ∧ MeansNothing c

/-! ## Primes -/

/-- No sign but a prime stands for apostrophes. -/
theorem apostrophes_of_image? {c : Char} {glyph : String} (h : image? c = some glyph)
    (hc : primeWeight c = 0) : apostrophes glyph = 0 := by
  rcases image?_cases h with rfl | ⟨entry, hentry, -, rfl⟩
  · simp [apostrophes, hc]
  · have table : ∀ entry ∈ characterSymbols ++ delimiterCharacters,
        apostrophes entry.2.text = 0 := by decide
    exact table entry hentry

/-- The glyph of a run of apostrophes stands for as many. -/
theorem apostrophes_primeGlyph {count : Nat} (h : count ≠ 0) :
    apostrophes (primeGlyph count) = count := by
  unfold primeGlyph
  split
  case h_5 =>
    simp only [apostrophes, String.toList_ofList, List.map_replicate, List.sum_replicate_nat]
    exact Nat.mul_one count
  all_goals decide

/-- The glyph of a run of apostrophes is made of prime glyphs. -/
theorem isPrimeText_primeGlyph {count : Nat} (h : count ≠ 0) : IsPrimeText (primeGlyph count) := by
  unfold primeGlyph
  split
  case h_5 =>
    constructor
    · intro hempty
      have hlist := congrArg String.toList hempty
      simp [h] at hlist
    · intro c hc
      rw [String.toList_ofList] at hc
      rw [List.eq_of_mem_replicate hc]
      decide
  all_goals exact ⟨by decide, by decide⟩

/-! ## Sums and counts -/

/-- Adding up ones is counting. -/
theorem sum_indicator {α : Type} (p : α → Prop) [DecidablePred p] (members : List α) :
    (members.map fun a => if p a then (1 : Int) else 0).sum = members.countP (p ·) := by
  induction members with
  | nil => rfl
  | cons a members ih =>
    rw [List.map_cons, List.sum_cons, ih]
    by_cases h : p a
    · rw [if_pos h, List.countP_cons_of_pos (by simpa using h)]
      omega
    · rw [if_neg h, List.countP_cons_of_neg (by simpa using h)]
      omega

/-- Adding up ones for one value is counting it. -/
theorem sum_indicator_eq {α : Type} [DecidableEq α] (value : α) (members : List α) :
    (members.map fun a => if a = value then (1 : Int) else 0).sum = members.count value := by
  rw [sum_indicator (· = value), List.count]
  rfl

/-- What is worth nothing adds up to nothing. -/
theorem sum_map_zero {α : Type} {f : α → Int} {members : List α} (h : ∀ a ∈ members, f a = 0) :
    (members.map f).sum = 0 := by
  rw [List.map_congr_left h, List.map_const', List.sum_replicate_int, Int.mul_zero]

/-- Adding up natural numbers among the integers. -/
theorem sum_cast {α : Type} (f : α → Nat) (members : List α) :
    (members.map fun a => (f a : Int)).sum = ((members.map f).sum : Nat) := by
  induction members with
  | nil => rfl
  | cons a members ih => rw [List.map_cons, List.sum_cons, ih, List.map_cons, List.sum_cons,
      Int.natCast_add]

/-- Counting a character in several texts. -/
theorem sum_count (c : Char) (texts : List String) :
    (texts.map fun shown => (shown.toList.count c : Int)).sum
      = ((texts.flatMap String.toList).count c : Nat) := by
  rw [sum_cast, List.count_flatMap]
  rfl

namespace Ledger

/-- The worth of a formula, leaf by leaf. -/
theorem worthOf_eq (L : Ledger) (formula : Formula) :
    L.worthOf formula = ((identifiersOf formula).map L.identifier).sum
      + ((symbolsOf formula).map L.symbol).sum + ((numbersOf formula).map L.number).sum
      + ((spacesOf formula).map fun _ => L.space).sum := by
  unfold worthOf identifiersOf symbolsOf numbersOf spacesOf
  induction nodesOf formula with
  | nil => rfl
  | cons e rest ih =>
    rw [List.map_cons, List.sum_cons, ih]
    cases e <;> simp [node] <;> omega

/-! ## Texts -/

/-- What the texts of identifiers and of symbols are worth is what the characters cost that stand
for them. -/
def ofTexts (letter sign : String → Int) : Ledger where
  char c :=
    if isAlphabetic c then letter (String.ofList [c])
    else
      match image? c with
      | some glyph => sign glyph
      | none => if c = '\x27' then sign "′" else 0
  identifier := letter
  symbol := sign
  number _ := 0
  space := 0
  note _ := 0

/-- A character without an image costs nothing unless it is an apostrophe. -/
theorem char_ofTexts {letter sign : String → Int} {c : Char} (h : image? c = none)
    (hc : c ≠ '\x27') : (ofTexts letter sign).char c = 0 := by
  have hletter : isAlphabetic c = false := by
    by_cases hletter : isAlphabetic c
    · rw [image?_of_isAlphabetic hletter] at h
      cases h
    · simpa using hletter
  simp [ofTexts, hletter, h, hc]

/-- A ledger that counts the texts of letters and signs is fair if a dot costs nothing and primes
cost one each. -/
theorem fair_ofTexts {letter sign : String → Int} (hdot : sign "." = 0)
    (hprimes : ∀ count, count ≠ 0 → sign (primeGlyph count) = count * sign "′") :
    (ofTexts letter sign).Fair where
  letter c hc := by simp [ofTexts, hc]
  sign c glyph hc himage := by simp [ofTexts, hc, himage]
  number digits hdigits := by
    refine (sum_map_zero fun c hc => ?_).symm
    rcases hdigits c hc with hdigit | rfl
    · refine char_ofTexts (image?_of_isDigit hdigit) ?_
      rintro rfl
      exact absurd hdigit (by decide)
    · have hletter : isAlphabetic '.' = false := by decide
      simp [ofTexts, hletter, image?_dot, hdot]
  primes count hcount := by
    have hletter : isAlphabetic '\x27' = false := by decide
    simpa [ofTexts, hletter, image?_apostrophe] using hprimes count hcount
  space := (char_ofTexts (by decide) (by decide)).symm
  braces := by
    rw [char_ofTexts (by decide) (by decide), char_ofTexts (by decide) (by decide)]
    rfl
  above := char_ofTexts (by decide) (by decide)
  below := char_ofTexts (by decide) (by decide)
  skipped c offset hc := by
    refine (char_ofTexts hc.1 ?_).symm
    rintro rfl
    exact absurd hc.2.2 (by decide)

/-! ## One character -/

/-- A price for the notes on skipped characters. -/
def onSkipped (cost : Char → Int) : Note → Int
  | .skippedCharacter c _ => cost c
  | _ => 0

/-- The cost of the notes is the cost of the characters that they name. -/
theorem sum_onSkipped (cost : Char → Int) (notes : List Note) :
    (notes.map (onSkipped cost)).sum = ((skippedOf notes).map cost).sum := by
  unfold skippedOf
  induction notes with
  | nil => rfl
  | cons n notes ih =>
    rw [List.map_cons, List.sum_cons, ih]
    cases n <;> simp [onSkipped]

/-- One character is followed: to the symbols of its image, into the numbers, to the spaces or into
the notes. -/
def tracking (c₀ : Char) : Ledger where
  char c := if c = c₀ then 1 else 0
  identifier _ := 0
  symbol glyph := if image? c₀ = some glyph then 1 else 0
  number digits := if c₀.isDigit ∨ c₀ = '.' then digits.toList.count c₀ else 0
  space := if c₀ = '~' then 1 else 0
  note := onSkipped fun c => if c = c₀ ∧ MeansNothing c₀ then 1 else 0

/-- A character that has no image, or a dot, does not share its image with another one. -/
theorem image?_eq_iff {c₀ : Char} (h : image? c₀ = none ∨ c₀ = '.') {c : Char} {glyph : String}
    (hc : image? c = some glyph) : image? c₀ = some glyph ↔ c = c₀ := by
  constructor
  · intro hglyph
    rcases h with hnone | rfl
    · rw [hnone] at hglyph
      cases hglyph
    · rw [image?_dot] at hglyph
      exact eq_dot_of_image? (hc.trans hglyph.symm)
  · rintro rfl
    exact hc

/-- Keeping track of one character is fair, if it is none of the marks. -/
theorem fair_tracking {c₀ : Char} (himage : image? c₀ = none ∨ c₀ = '.')
    (hmark : c₀ ∉ ['\x27', '{', '}', '^', '_']) : (tracking c₀).Fair where
  letter c hc := by
    have hne : c ≠ c₀ := by
      rintro rfl
      rcases himage with hnone | rfl
      · rw [image?_of_isAlphabetic hc] at hnone
        cases hnone
      · exact absurd hc (by decide)
    simp [tracking, hne]
  sign c glyph hc hglyph := by simp only [tracking, image?_eq_iff himage hglyph]
  number digits hdigits := by
    simp only [tracking, String.toList_ofList, sum_indicator_eq]
    by_cases hc : c₀.isDigit ∨ c₀ = '.'
    · rw [if_pos hc]
    · have hcount : digits.count c₀ = 0 :=
        List.count_eq_zero.mpr fun hmem => hc (hdigits c₀ hmem)
      rw [if_neg hc, hcount]
      rfl
  primes count hcount := by
    have hglyph : image? c₀ ≠ some (primeGlyph count) := by
      intro hglyph
      rcases himage with hnone | rfl
      · rw [hnone] at hglyph
        cases hglyph
      · rw [image?_dot] at hglyph
        have hprime := isPrimeText_primeGlyph hcount
        rw [← Option.some.inj hglyph] at hprime
        exact absurd (hprime.2 '.' (by decide)) (by decide)
    have hprime : '\x27' ≠ c₀ := by
      rintro rfl
      simp at hmark
    simp [tracking, hglyph, hprime]
  space := by
    by_cases hc : c₀ = '~'
    · simp [tracking, hc]
    · simp [tracking, hc, Ne.symm hc]
  braces := by
    have hne : '{' ≠ c₀ ∧ '}' ≠ c₀ := by
      constructor <;> rintro rfl <;> simp at hmark
    simp [tracking, hne]
  above := if_neg (by rintro rfl; simp at hmark)
  below := if_neg (by rintro rfl; simp at hmark)
  skipped c offset hc := by
    by_cases heq : c = c₀
    · subst heq
      simp [tracking, onSkipped, hc]
    · simp [tracking, onSkipped, heq]

/-! ## Braces -/

/-- An opening brace costs what a closing one brings in. -/
def pairing : Ledger where
  char c := if c = '{' then 1 else if c = '}' then -1 else 0
  identifier _ := 0
  symbol _ := 0
  number _ := 0
  space := 0
  note := onSkipped fun c => if c = '}' then -1 else 0

/-- What is no brace costs nothing. -/
theorem char_pairing {c : Char} (hc : c ≠ '{' ∧ c ≠ '}') : pairing.char c = 0 := by
  simp [pairing, hc]

/-- Counting braces against groups is fair. -/
theorem fair_pairing : pairing.Fair where
  letter c hc := by
    refine (char_pairing ⟨?_, ?_⟩).symm <;> rintro rfl <;> exact absurd hc (by decide)
  sign c glyph _ himage := by
    have hbraces : image? '{' = none ∧ image? '}' = none := by decide
    refine (char_pairing ⟨?_, ?_⟩).symm <;> rintro rfl <;> simp [hbraces] at himage
  number digits hdigits := by
    refine (sum_map_zero fun c hc => char_pairing ⟨?_, ?_⟩).symm <;> rintro rfl <;>
      exact absurd (hdigits _ hc) (by decide)
  primes count _ := by simp [pairing]
  space := rfl
  braces := rfl
  above := rfl
  below := rfl
  skipped c offset hc := by
    have hopening : c ≠ '{' := by
      rintro rfl
      exact absurd hc.2.2 (by decide)
    simp [pairing, onSkipped, hopening]

end Ledger

/-! ## Notes -/

/-- A note that the reader makes on a formula without commands. -/
def Note.IsExpected : Note → Prop
  | .skippedCharacter c _ => MeansNothing c
  | _ => False

instance : DecidablePred Note.IsExpected
  | .skippedCharacter c _ => inferInstanceAs (Decidable (MeansNothing c))
  | .skippedCommand _ _ | .sizeWithoutDelimiter _ | .ignoredInText _ _ | .missingDelimiter _ _
  | .missingRight _ | .missingEnvironmentName _ | .unsupportedEnvironment _ | .openEnvironment _
  | .missingEnd _ | .naturalSize _ => .isFalse id

namespace Ledger

/-- Nothing has a price but the notes that are not expected. -/
def surprises : Ledger where
  char _ := 0
  identifier _ := 0
  symbol _ := 0
  number _ := 0
  space := 0
  note n := if ¬ n.IsExpected then 1 else 0

/-- A ledger in which only unexpected notes have a price is fair. -/
theorem fair_surprises : surprises.Fair where
  letter _ _ := rfl
  sign _ _ _ _ := rfl
  number _ _ := (sum_map_zero fun _ _ => rfl).symm
  primes _ _ := (Int.mul_zero _).symm
  space := rfl
  braces := rfl
  above := rfl
  below := rfl
  skipped _ _ hc := if_neg (not_not_intro hc)

end Ledger

/-! ## The account of a formula -/

section Account

variable {text : String} {formula : Formula} (hplain : '\\' ∉ text.toList)
  (h : parse text = .ok formula)

include hplain h

/-- Letters and signs are found again. -/
theorem count_texts {shown : String} (hdot : shown ≠ ".") (hprime : ¬ IsPrimeText shown) :
    (identifiersOf formula).count shown + (symbolsOf formula).count shown
      = (significant text.toList).countP (image? · = some shown) := by
  let weight (glyph : String) : Int := if glyph = shown then 1 else 0
  have hprimes (count : Nat) (hcount : count ≠ 0) : weight (primeGlyph count) = 0 := by
    refine if_neg ?_
    rintro rfl
    exact hprime (isPrimeText_primeGlyph hcount)
  have hone : weight "′" = 0 := hprimes 1 Nat.one_ne_zero
  have hfair : (Ledger.ofTexts weight weight).Fair := by
    refine Ledger.fair_ofTexts (if_neg (Ne.symm hdot)) fun count hcount => ?_
    rw [hprimes count hcount, hone, Int.mul_zero]
  have hchar (c : Char) :
      (Ledger.ofTexts weight weight).char c = if image? c = some shown then 1 else 0 := by
    cases himage : image? c with
    | some glyph =>
      by_cases hletter : isAlphabetic c
      · obtain rfl : String.ofList [c] = glyph :=
          Option.some.inj ((image?_of_isAlphabetic hletter).symm.trans himage)
        simp [Ledger.ofTexts, hletter, weight]
      · simp [Ledger.ofTexts, hletter, himage, weight]
    | none =>
      by_cases hc : c = '\x27'
      · have hletter : isAlphabetic '\x27' = false := by decide
        simp [Ledger.ofTexts, hc, hletter, image?_apostrophe, hone]
      · simp [Ledger.char_ofTexts himage hc]
  have hprice : (Ledger.ofTexts weight weight).price text.toList
      = (significant text.toList).countP (image? · = some shown) := by
    rw [Ledger.price, List.map_congr_left fun c _ => hchar c,
      sum_indicator (image? · = some shown)]
  have hworth : (Ledger.ofTexts weight weight).worthOf formula
      = (identifiersOf formula).count shown + (symbolsOf formula).count shown := by
    rw [Ledger.worthOf_eq]
    simp only [Ledger.ofTexts, weight, sum_indicator_eq, sum_map_zero fun _ _ => rfl]
    omega
  have hreported : (Ledger.ofTexts weight weight).reported (read text).notes = 0 :=
    sum_map_zero fun _ _ => rfl
  have hbooks := hfair.balances hplain h
  rw [hprice, hworth, hreported] at hbooks
  omega

/-- The apostrophes are found again in the primes, where there are no others. -/
theorem sum_apostrophes (hnone : ∀ c ∈ significant text.toList, primeWeight c = 0) :
    ((symbolsOf formula).map apostrophes).sum = (significant text.toList).count '\x27' := by
  let letter (_ : String) : Int := 0
  let sign (glyph : String) : Int := apostrophes glyph
  have hfair : (Ledger.ofTexts letter sign).Fair := by
    refine Ledger.fair_ofTexts rfl fun count hcount => ?_
    have hone : apostrophes "′" = 1 := apostrophes_primeGlyph Nat.one_ne_zero
    simp only [sign, apostrophes_primeGlyph hcount, hone]
    omega
  have hchar (c : Char) (hc : c ∈ significant text.toList) :
      (Ledger.ofTexts letter sign).char c = if c = '\x27' then 1 else 0 := by
    by_cases hletter : isAlphabetic c
    · have hne : c ≠ '\x27' := by
        rintro rfl
        exact absurd hletter (by decide)
      simp [Ledger.ofTexts, hletter, letter, hne]
    · cases himage : image? c with
      | some glyph =>
        have hne : c ≠ '\x27' := by
          rintro rfl
          rw [image?_apostrophe] at himage
          cases himage
        have hweight : apostrophes glyph = 0 := apostrophes_of_image? himage (hnone c hc)
        simp [Ledger.ofTexts, hletter, himage, sign, hweight, hne]
      | none => simp [Ledger.ofTexts, hletter, himage, sign, apostrophes, primeWeight]
  have hprice : (Ledger.ofTexts letter sign).price text.toList
      = (significant text.toList).count '\x27' := by
    rw [Ledger.price, List.map_congr_left hchar, sum_indicator_eq]
  have hworth : (Ledger.ofTexts letter sign).worthOf formula
      = ((symbolsOf formula).map apostrophes).sum := by
    rw [Ledger.worthOf_eq]
    simp only [Ledger.ofTexts, letter, sign, sum_cast, sum_map_zero fun _ _ => rfl]
    omega
  have hreported : (Ledger.ofTexts letter sign).reported (read text).notes = 0 :=
    sum_map_zero fun _ _ => rfl
  have hbooks := hfair.balances hplain h
  rw [hprice, hworth, hreported] at hbooks
  omega

/-- A character that has no image, and the dot, are found again in one of four places. -/
theorem count_tracked {c₀ : Char} (himage : image? c₀ = none ∨ c₀ = '.')
    (hmark : c₀ ∉ ['\x27', '{', '}', '^', '_']) :
    (significant text.toList).count c₀ = (symbolsOf formula).countP (image? c₀ = some ·)
      + (if c₀.isDigit ∨ c₀ = '.' then ((numbersOf formula).flatMap String.toList).count c₀ else 0)
      + (if c₀ = '~' then (spacesOf formula).length else 0)
      + (if MeansNothing c₀ then (skippedOf (read text).notes).count c₀ else 0) := by
  have hprice : (Ledger.tracking c₀).price text.toList = (significant text.toList).count c₀ := by
    rw [Ledger.price, Ledger.tracking, sum_indicator_eq]
  have hnumbers : ((numbersOf formula).map (Ledger.tracking c₀).number).sum
      = if c₀.isDigit ∨ c₀ = '.' then ((numbersOf formula).flatMap String.toList).count c₀ else 0 := by
    by_cases hc : c₀.isDigit ∨ c₀ = '.'
    · simp only [Ledger.tracking, if_pos hc, sum_count]
    · simp only [Ledger.tracking, if_neg hc, sum_map_zero fun _ _ => rfl]
      rfl
  have hspaces : ((spacesOf formula).map fun _ => (Ledger.tracking c₀).space).sum
      = if c₀ = '~' then (spacesOf formula).length else 0 := by
    rw [List.map_const', List.sum_replicate_int]
    by_cases hc : c₀ = '~'
    · simp [Ledger.tracking, hc]
    · simp [Ledger.tracking, hc]
  have hreported : (Ledger.tracking c₀).reported (read text).notes
      = if MeansNothing c₀ then (skippedOf (read text).notes).count c₀ else 0 := by
    rw [Ledger.reported, Ledger.tracking, Ledger.sum_onSkipped]
    by_cases hc : MeansNothing c₀
    · simp only [hc, and_true, if_true, sum_indicator_eq]
    · simp only [hc, and_false, if_false, sum_map_zero fun _ _ => rfl]
      rfl
  have hworth := Ledger.worthOf_eq (Ledger.tracking c₀) formula
  have hsymbols : ((symbolsOf formula).map (Ledger.tracking c₀).symbol).sum
      = (symbolsOf formula).countP (image? c₀ = some ·) := sum_indicator (image? c₀ = some ·) _
  have hidentifiers : ((identifiersOf formula).map (Ledger.tracking c₀).identifier).sum = 0 :=
    sum_map_zero fun _ _ => rfl
  have hbooks := (Ledger.fair_tracking himage hmark).balances hplain h
  rw [hprice, hworth, hidentifiers, hsymbols, hnumbers, hspaces, hreported] at hbooks
  omega

/-- Braces stand in pairs but for closing ones that are reported. -/
theorem count_braces : (significant text.toList).count '{'
    + (skippedOf (read text).notes).count '}' = (significant text.toList).count '}' := by
  have hprice (chars : List Char) :
      (chars.map Ledger.pairing.char).sum = chars.count '{' - chars.count '}' := by
    induction chars with
    | nil => rfl
    | cons c chars ih =>
      rw [List.map_cons, List.sum_cons, ih]
      by_cases hopening : c = '{'
      · have hcost : Ledger.pairing.char '{' = 1 := rfl
        rw [hopening, List.count_cons_self, List.count_cons_of_ne (by decide), hcost]
        omega
      · by_cases hclosing : c = '}'
        · have hcost : Ledger.pairing.char '}' = -1 := rfl
          rw [hclosing, List.count_cons_self, List.count_cons_of_ne (by decide), hcost]
          omega
        · rw [List.count_cons_of_ne hopening, List.count_cons_of_ne hclosing,
            Ledger.char_pairing ⟨hopening, hclosing⟩, Int.zero_add]
  have hskipped (chars : List Char) :
      (chars.map fun c => if c = '}' then (-1 : Int) else 0).sum = -chars.count '}' := by
    induction chars with
    | nil => rfl
    | cons c chars ih =>
      rw [List.map_cons, List.sum_cons, ih]
      by_cases hclosing : c = '}'
      · rw [if_pos hclosing, hclosing, List.count_cons_self]
        omega
      · rw [if_neg hclosing, List.count_cons_of_ne hclosing, Int.zero_add]
  have hreported : Ledger.pairing.reported (read text).notes
      = -(skippedOf (read text).notes).count '}' := by
    rw [Ledger.reported, Ledger.pairing, Ledger.sum_onSkipped, hskipped]
  have hworth : Ledger.pairing.worthOf formula = 0 := by
    rw [Ledger.worthOf_eq]
    simp only [Ledger.pairing, sum_map_zero fun _ _ => rfl]
    rfl
  have hbooks := Ledger.fair_pairing.balances hplain h
  rw [Ledger.price, hprice, hworth, hreported] at hbooks
  omega

/-- Nothing is reported but characters that mean nothing. -/
theorem note_expected {n : Note} (hn : n ∈ (read text).notes) : n.IsExpected := by
  have hprice : Ledger.surprises.price text.toList = 0 := sum_map_zero fun _ _ => rfl
  have hworth : Ledger.surprises.worthOf formula = 0 := by
    rw [Ledger.worthOf_eq]
    simp only [Ledger.surprises, sum_map_zero fun _ _ => rfl]
    rfl
  have hreported : Ledger.surprises.reported (read text).notes
      = (read text).notes.countP (¬ ·.IsExpected) :=
    sum_indicator (fun n : Note => ¬ n.IsExpected) _
  have hbooks := Ledger.fair_surprises.balances hplain h
  rw [hprice, hworth, hreported] at hbooks
  have hnone : (read text).notes.countP (¬ ·.IsExpected) = 0 := by omega
  simpa using List.countP_eq_zero.mp hnone n hn

/-- Digits are found again in the numbers. -/
theorem count_digits {d : Char} (hd : d.isDigit) :
    ((numbersOf formula).flatMap String.toList).count d = (significant text.toList).count d := by
  have himage : image? d = none := image?_of_isDigit hd
  have hmarks : d ∉ ['\x27', '{', '}', '^', '_'] ∧ d ≠ '~' :=
    forall_isDigit (fun d => d ∉ ['\x27', '{', '}', '^', '_'] ∧ d ≠ '~') (by decide) hd
  obtain ⟨hmark, hspace⟩ := hmarks
  have hnothing : ¬ MeansNothing d := fun hnothing => by simp [hnothing.2.1] at hd
  have htracked := count_tracked hplain h (.inl himage) hmark
  simpa [himage, hd, hspace, hnothing] using htracked.symm

/-- Dots are found again in the numbers or as symbols. -/
theorem count_dots : ((numbersOf formula).flatMap String.toList).count '.'
    + (symbolsOf formula).count "." = (significant text.toList).count '.' := by
  have htracked := count_tracked hplain h (.inr rfl) (by decide)
  have hsymbols : (symbolsOf formula).countP (image? '.' = some ·)
      = (symbolsOf formula).count "." := by
    refine List.countP_congr fun shown _ => ?_
    simp only [image?_dot, decide_eq_true_eq, Option.some.injEq, beq_iff_eq]
    exact eq_comm
  have hnothing : ¬ MeansNothing '.' := by
    intro hnothing
    rw [MeansNothing, image?_dot] at hnothing
    cases hnothing.1
  rw [hsymbols, if_pos (.inr rfl), if_neg (by decide), if_neg hnothing] at htracked
  omega

/-- Every `~` is a space. -/
theorem count_spaces : (spacesOf formula).length = (significant text.toList).count '~' := by
  have himage : image? '~' = none := by decide
  have hnothing : ¬ MeansNothing '~' := by decide
  have htracked := count_tracked hplain h (.inl himage) (by decide)
  simpa [himage, hnothing] using htracked.symm

/-- What means nothing is reported. -/
theorem count_others {c : Char} (himage : image? c = none) (hdigit : c.isDigit = false)
    (hc : c ∉ ['~', '\x27', '{', '}', '^', '_']) :
    (skippedOf (read text).notes).count c = (significant text.toList).count c := by
  have hmarks : c ≠ '~' ∧ c ≠ '\x27' ∧ c ≠ '{' ∧ c ≠ '}' ∧ c ≠ '^' ∧ c ≠ '_' := by
    simpa using hc
  have hnothing : MeansNothing c := ⟨himage, hdigit, by simp [hmarks]⟩
  have hdot : c ≠ '.' := by
    rintro rfl
    rw [image?_dot] at himage
    cases himage
  have htracked := count_tracked hplain h (.inl himage) (by simp [hmarks])
  simpa [himage, hdigit, hdot, hmarks.1, hnothing] using htracked.symm

end Account

/-- **Nothing is dropped in silence.**  Every significant character of a formula without commands,
but for `^` and `_`, is found again in the expressions or in a note. -/
theorem parse_accounts {text : String} {formula : Formula} (hplain : '\\' ∉ text.toList)
    (h : parse text = .ok formula) :
    Accounted (significant text.toList) formula (read text).notes where
  texts _ hdot hprime := count_texts hplain h hdot hprime
  digits _ hd := count_digits hplain h hd
  dots := count_dots hplain h
  spaces := count_spaces hplain h
  primes hnone := sum_apostrophes hplain h hnone
  braces := count_braces hplain h
  others _ himage hdigit hc := count_others hplain h himage hdigit hc
  notes n hn := by
    have hexpected := note_expected hplain h hn
    cases n with
    | skippedCharacter c offset => exact ⟨c, offset, rfl, hexpected⟩
    | _ => exact hexpected.elim

/-- Primes, a script, a number that begins with a dot, a dot of its own, a sign that means nothing,
a comment with a brace and a closing brace too many. -/
theorem parse_accounts_of_primes_and_braces :
    '\\' ∉ "f'' = \x7ba_1 + .5\x7d. #% \x7b\n\x7dx".toList ∧
      parse "f'' = \x7ba_1 + .5\x7d. #% \x7b\n\x7dx"
        = .ok [.super (.identifier "f") (.symbol .ordinary "″"), .symbol .relation "=",
            .group [.sub (.identifier "a") (.number "1"), .symbol .binary "+", .number ".5"],
            .symbol .ordinary ".", .identifier "x"] ∧
      Accounted "f''=\x7ba_1+.5\x7d.#\x7dx".toList
        [.super (.identifier "f") (.symbol .ordinary "″"), .symbol .relation "=",
          .group [.sub (.identifier "a") (.number "1"), .symbol .binary "+", .number ".5"],
          .symbol .ordinary ".", .identifier "x"]
        [.skippedCharacter '#' 18, .skippedCharacter '}' 23] := by
  have hplain : '\\' ∉ "f'' = \x7ba_1 + .5\x7d. #% \x7b\n\x7dx".toList := by decide
  have hread : parse "f'' = \x7ba_1 + .5\x7d. #% \x7b\n\x7dx"
      = .ok [.super (.identifier "f") (.symbol .ordinary "″"), .symbol .relation "=",
          .group [.sub (.identifier "a") (.number "1"), .symbol .binary "+", .number ".5"],
          .symbol .ordinary ".", .identifier "x"] :=
    eq_ok_of_toOption (by decide +kernel)
  have haccount := parse_accounts hplain hread
  have hsignificant : significant "f'' = \x7ba_1 + .5\x7d. #% \x7b\n\x7dx".toList
      = "f''=\x7ba_1+.5\x7d.#\x7dx".toList := by decide
  have hnotes : (read "f'' = \x7ba_1 + .5\x7d. #% \x7b\n\x7dx").notes
      = [.skippedCharacter '#' 18, .skippedCharacter '}' 23] := by decide +kernel
  rw [hsignificant, hnotes] at haccount
  exact ⟨hplain, hread, haccount⟩

end OfficeMath
