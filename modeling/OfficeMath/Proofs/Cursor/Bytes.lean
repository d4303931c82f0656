import Mathlib.Data.List.TakeWhile
import Mathlib.Data.String.Basic
import OfficeMath.Proofs.Cursor.Walk
import OfficeMath.Proofs.Latex.TruthfulNotes

/-!
# Bytes and characters

What a cursor has to know about UTF-8.  A character of ASCII is one byte below 128, and the bytes
of any other character are 128 or more (`bytes_cases`).  So a run of ASCII bytes is a run of ASCII
characters (`runLength_eq`), and the first byte of a line break that is found begins the first line
break (`idxOf_newline`): neither stops inside of a character.

A place of a text is a byte at which a character begins, or its end (`IsPlace`).  Between two places
there is a slice, and it holds the characters between them (`slice?_of_aheadAt`).
-/

namespace OfficeMath

/-! ## The bytes of a character -/

/-- A character is a byte of ASCII, or its bytes are all beyond ASCII. -/
theorem bytes_cases (c : Char) :
    (c.toNat < 128 ∧ String.utf8EncodeChar c = [UInt8.ofNat c.toNat]) ∨
      (128 ≤ c.toNat ∧ ∀ b ∈ String.utf8EncodeChar c, 128 ≤ b.toNat) := by
  have hval : c.val.toNat = c.toNat := rfl
  by_cases hascii : c.toNat < 128
  · left
    refine ⟨hascii, ?_⟩
    rw [String.utf8EncodeChar, hval, if_pos (by omega)]
  · right
    refine ⟨by omega, ?_⟩
    intro b hb
    rw [String.utf8EncodeChar, hval, if_neg (by omega)] at hb
    split at hb
    · simp only [List.mem_cons, List.not_mem_nil, or_false] at hb
      rcases hb with rfl | rfl <;> rw [UInt8.toNat_ofNat'] <;> omega
    · split at hb
      · simp only [List.mem_cons, List.not_mem_nil, or_false] at hb
        rcases hb with rfl | rfl | rfl <;> rw [UInt8.toNat_ofNat'] <;> omega
      · simp only [List.mem_cons, List.not_mem_nil, or_false] at hb
        rcases hb with rfl | rfl | rfl | rfl <;> rw [UInt8.toNat_ofNat'] <;> omega

/-- The bytes of a text are those of its characters in a row. -/
theorem bytes_cons (c : Char) (text : List Char) :
    bytes (c :: text) = String.utf8EncodeChar c ++ bytes text := by
  simp [bytes]

/-- The size of a text is the number of its bytes. -/
theorem length_bytes (text : List Char) : (bytes text).length = utf8Length text := by
  induction text with
  | nil => rfl
  | cons c text ih =>
    rw [bytes_cons, List.length_append, String.length_utf8EncodeChar, ih, utf8Length]

/-- A character of ASCII takes one byte. -/
theorem utf8Size_of_ascii {c : Char} (h : c.toNat < 128) : c.utf8Size = 1 := by
  rcases bytes_cases c with ⟨-, hbyte⟩ | ⟨hlarge, -⟩
  · rw [← String.length_utf8EncodeChar, hbyte]
    rfl
  · omega

/-- Characters of ASCII take one byte each. -/
theorem utf8Length_of_ascii {text : List Char} (h : ∀ c ∈ text, c.toNat < 128) :
    utf8Length text = text.length := by
  induction text with
  | nil => rfl
  | cons c text ih =>
    rw [List.forall_mem_cons] at h
    rw [utf8Length, utf8Size_of_ascii h.1, ih h.2, List.length_cons, Nat.add_comm]

/-! ## Runs -/

/-- Whether a byte counts decides which characters count: those of ASCII whose byte counts. -/
structure Decides (p : UInt8 → Bool) (q : Char → Bool) : Prop where
  ascii : ∀ c, c.toNat < 128 → q c = p (UInt8.ofNat c.toNat)
  byte : ∀ b, 128 ≤ b.toNat → p b = false
  char : ∀ c, q c → c.toNat < 128

/-- **A run of ASCII bytes is a run of ASCII characters.** -/
theorem runLength_eq {p : UInt8 → Bool} {q : Char → Bool} (h : Decides p q) (text : List Char) :
    runLength p text = (text.takeWhile q).length := by
  induction text with
  | nil => rfl
  | cons c text ih =>
    rw [runLength] at ih ⊢
    rcases bytes_cases c with ⟨hascii, hbyte⟩ | ⟨hlarge, hbytes⟩
    · rw [bytes_cons, hbyte, List.singleton_append, List.takeWhile_cons, List.takeWhile_cons,
        h.ascii c hascii]
      split
      · rw [List.length_cons, List.length_cons, ih]
      · rfl
    · have hc : ¬ q c := fun hq => absurd (h.char c hq) (by omega)
      obtain ⟨b, more, hb⟩ := List.exists_cons_of_ne_nil (String.utf8EncodeChar_ne_nil (c := c))
      have hfirst : ¬ p b := by
        rw [h.byte b (hbytes b (hb ▸ List.mem_cons_self))]
        exact Bool.false_ne_true
      rw [bytes_cons, hb, List.cons_append, List.takeWhile_cons_of_neg hfirst,
        List.takeWhile_cons_of_neg hc]
      rfl

/-- The characters of a run take as many bytes as they are. -/
theorem utf8Length_run {p : UInt8 → Bool} {q : Char → Bool} (h : Decides p q) (text : List Char) :
    utf8Length (text.takeWhile q) = (text.takeWhile q).length := by
  apply utf8Length_of_ascii
  intro c hc
  exact h.char c (List.all_eq_true.mp List.all_takeWhile c hc)

/-- It is enough to compare the codes of ASCII. -/
theorem decides_of_codes {p : UInt8 → Bool} {q : Char → Bool}
    (hsame : ∀ n < 128, q (Char.ofNat n) = p (UInt8.ofNat n))
    (hbyte : ∀ b, p b → b.toNat < 128) (hchar : ∀ c, q c → c.toNat < 128) : Decides p q where
  ascii c hc := by
    have := hsame c.toNat hc
    rwa [Char.ofNat_toNat] at this
  byte b hb := by
    by_contra htrue
    have := hbyte b (by simpa using htrue)
    omega
  char := hchar

/-- A letter is told from its byte. -/
theorem decides_letter : Decides isLetterByte Char.isAlpha := by
  refine decides_of_codes (by decide) ?_ ?_
  · intro b hb
    simp only [isLetterByte, Bool.or_eq_true, Bool.and_eq_true, decide_eq_true_eq,
      UInt8.le_iff_toNat_le] at hb
    have hz : (122 : UInt8).toNat = 122 := rfl
    have hZ : (90 : UInt8).toNat = 90 := rfl
    omega
  · intro c hc
    exact toNat_lt_of_isAlphanum (by simp [Char.isAlphanum, hc])

/-- So is a digit. -/
theorem decides_digit : Decides isDigitByte Char.isDigit := by
  refine decides_of_codes (by decide) ?_ ?_
  · intro b hb
    simp only [isDigitByte, Bool.and_eq_true, decide_eq_true_eq, UInt8.le_iff_toNat_le] at hb
    have hnine : (57 : UInt8).toNat = 57 := rfl
    omega
  · intro c hc
    exact toNat_lt_of_isAlphanum (by simp [Char.isAlphanum, hc])

/-- So is an apostrophe. -/
theorem decides_apostrophe : Decides (· = 39) (· = '\x27') := by
  refine decides_of_codes (by decide) ?_ ?_
  · intro b hb
    simp only [decide_eq_true_eq] at hb
    subst hb
    decide
  · intro c hc
    simp only [decide_eq_true_eq] at hc
    subst hc
    decide

/-! ## The end of a line -/

/-- **The first byte of a line break is the first line break.** -/
theorem idxOf_newline (text : List Char) :
    (bytes text).idxOf? 10
      = if '\n' ∈ text then some (utf8Length (text.takeWhile (· ≠ '\n'))) else none := by
  induction text with
  | nil => rfl
  | cons c text ih =>
    by_cases hc : c = '\n'
    · subst hc
      rfl
    have hfirst : 10 ∉ String.utf8EncodeChar c := by
      intro hmem
      rcases bytes_cases c with ⟨hascii, hbyte⟩ | ⟨-, hbytes⟩
      · rw [hbyte, List.mem_singleton] at hmem
        have hcode := congrArg UInt8.toNat hmem
        rw [UInt8.toNat_ofNat', Nat.mod_eq_of_lt (by omega)] at hcode
        exact hc (Char.ext (UInt32.ext hcode.symm))
      · exact absurd (hbytes 10 hmem) (by decide)
    have hnone : (String.utf8EncodeChar c).findIdx? (· == 10) = none := by
      rw [List.findIdx?_eq_none_iff]
      intro b hb
      simpa using ne_of_mem_of_not_mem hb hfirst
    rw [List.idxOf?] at ih ⊢
    rw [bytes_cons, List.findIdx?_append, hnone, Option.none_or, ih,
      String.length_utf8EncodeChar, List.takeWhile_cons_of_pos (by simpa using hc), utf8Length]
    by_cases hmem : '\n' ∈ text
    · rw [if_pos hmem, if_pos (List.mem_cons_of_mem _ hmem), Option.map_some, Nat.add_comm]
    · have hnot : '\n' ∉ c :: text := by
        rw [List.mem_cons, not_or]
        exact ⟨Ne.symm hc, hmem⟩
      rw [if_neg hmem, if_neg hnot, Option.map_none]

/-- The bytes up to the end of a line, or of the text. -/
theorem lineLength_eq (text : List Char) :
    ((bytes text).idxOf? 10).getD (bytes text).length
      = utf8Length (text.takeWhile (· ≠ '\n')) := by
  rw [idxOf_newline]
  by_cases hmem : '\n' ∈ text
  · rw [if_pos hmem, Option.getD_some]
  · have hother : ∀ c ∈ text, decide (c ≠ '\n') = true :=
      fun c hc => decide_eq_true (ne_of_mem_of_not_mem hc hmem)
    have hall : text.takeWhile (· ≠ '\n') = text := by
      exact List.takeWhile_eq_self_iff.mpr hother
    rw [if_neg hmem, Option.getD_none, length_bytes, hall]

/-! ## Places -/

/-- A place of a text: a byte of it at which a character begins, or the end. -/
def IsPlace (text : String) (place : Nat) : Prop := String.Pos.Raw.IsValid text ⟨place⟩

/-- A place is at most the size of the text. -/
theorem IsPlace.le {text : String} {place : Nat} (h : IsPlace text place) :
    place ≤ text.utf8ByteSize := h.le_rawEndPos

/-- Where characters are ahead there is a place. -/
theorem isPlace_of_aheadAt {text : String} {place : Nat} {ahead : List Char}
    (h : AheadAt text.toList place ahead) : IsPlace text place := by
  obtain ⟨front, htext, rfl⟩ := h
  rw [IsPlace, String.Pos.Raw.isValid_iff_exists_append]
  refine ⟨String.ofList front, String.ofList ahead, ?_, ?_⟩
  · rw [← String.ofList_append, ← htext, String.ofList_toList]
  · have hsize := utf8Length_toList (String.ofList front)
    rw [String.toList_ofList] at hsize
    rw [hsize]
    rfl

/-- The bytes ahead reach to the end of the text. -/
theorem size_of_aheadAt {text : String} {place : Nat} {ahead : List Char}
    (h : AheadAt text.toList place ahead) : text.utf8ByteSize = place + utf8Length ahead := by
  obtain ⟨front, htext, rfl⟩ := h
  rw [← utf8Length_toList, htext, utf8Length_append]

/-- The library's count of the bytes of a text. -/
theorem utf8Len_eq (text : List Char) : String.utf8Len text = utf8Length text := by
  induction text with
  | nil => rfl
  | cons c text ih =>
    rw [String.utf8Len_cons, ih, utf8Length, Nat.add_comm]

/-- **Between two places there is a slice**, which holds the characters between them. -/
theorem slice?_of_aheadAt {text : String} {place : Nat} {piece behind : List Char}
    (h : AheadAt text.toList place (piece ++ behind)) :
    slice? text place (place + utf8Length piece) = some piece := by
  have hfirst := isPlace_of_aheadAt h
  have hlast : AheadAt text.toList (place + utf8Length piece) behind := by
    have := h.advance piece.length
    rwa [List.take_left, List.drop_left] at this
  rw [slice?, if_pos ⟨Nat.le_add_right _ _, String.Pos.Raw.isValid_eq_true_iff.mpr hfirst,
    String.Pos.Raw.isValid_eq_true_iff.mpr (isPlace_of_aheadAt hlast)⟩]
  obtain ⟨front, htext, rfl⟩ := h
  have hextract := String.extract_of_valid front piece behind
  rw [List.append_assoc, ← htext, String.ofList_toList, utf8Len_eq, utf8Len_eq] at hextract
  rw [hextract, String.toList_ofList]

end OfficeMath
