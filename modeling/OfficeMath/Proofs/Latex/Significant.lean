import OfficeMath.Latex.Symbols
import OfficeMath.Proofs.Latex.Lexemes

/-!
# The characters that count

A formula without commands is made of characters that each have to go somewhere.  This file says
which of them count, namely all but blanks and comments (`significant`), and what the reader can
make of one of them on its own: a text that it stands for (`image?`), or nothing at all
(`MeansNothing`).

Taking layout takes no significant character (`significant_drop_layout`), and what is taken after
layout counts as it stands (`significant_append`).
-/

namespace OfficeMath

/-! ## Blanks and comments -/

/-- The characters of a text, which begins inside a comment or outside of one, that are neither
blank nor in a comment. -/
def significantFrom : (inComment : Bool) → List Char → List Char
  | _, [] => []
  | true, c :: rest => significantFrom (c ≠ '\n') rest
  | false, c :: rest =>
    if c = '%' then significantFrom true rest
    else if isBlank c then significantFrom false rest
    else c :: significantFrom false rest

/-- The characters of a text that are neither blank nor in a comment.  A comment reaches from `%`
to the end of the line. -/
def significant (text : List Char) : List Char := significantFrom false text

/-- A character that begins no layout. -/
def IsSolid (c : Char) : Prop := isBlank c = false ∧ c ≠ '%'

instance (c : Char) : Decidable (IsSolid c) := inferInstanceAs (Decidable (_ ∧ _))

/-- Layout is not significant. -/
theorem significant_drop_layout (text : List Char) :
    significant (text.drop (layoutLength text)) = significant text := by
  have from_drop (inComment : Bool) :
      significant (text.drop (layoutLengthFrom inComment text))
        = significantFrom inComment text := by
    induction text generalizing inComment with
    | nil => cases inComment <;> rfl
    | cons c rest ih =>
      cases inComment with
      | true =>
        rw [layoutLengthFrom, Nat.add_comm, List.drop_succ_cons, significantFrom]
        exact ih _
      | false =>
        by_cases hblank : isBlank c
        · have hc : c ≠ '%' := by
            rintro rfl
            exact absurd hblank (by decide)
          rw [layoutLengthFrom, if_pos hblank, Nat.add_comm, List.drop_succ_cons, significantFrom,
            if_neg hc, if_pos hblank]
          exact ih _
        · by_cases hpercent : c = '%'
          · rw [layoutLengthFrom, if_neg hblank, if_pos hpercent, Nat.add_comm,
              List.drop_succ_cons, significantFrom, if_pos hpercent]
            exact ih _
          · rw [layoutLengthFrom, if_neg hblank, if_neg hpercent, List.drop_zero, significant]
  exact from_drop false

/-- After layout the text begins with a significant character, or has ended. -/
theorem isSolid_of_layoutLength {c : Char} {after : List Char}
    (h : layoutLength (c :: after) = 0) : IsSolid c := by
  by_cases hblank : isBlank c
  · rw [layoutLength_blank hblank] at h
    omega
  · by_cases hpercent : c = '%'
    · rw [layoutLength, layoutLengthFrom, if_neg hblank, if_pos hpercent] at h
      omega
    · exact ⟨by simpa using hblank, hpercent⟩

/-- The characters of a number begin no layout. -/
theorem isSolid_of_isDigit_or_eq_dot {c : Char} (h : c.isDigit ∨ c = '.') : IsSolid c := by
  rcases h with hdigit | rfl
  · refine ⟨isBlank_eq_false (.inr hdigit), ?_⟩
    rintro rfl
    exact absurd hdigit (by decide)
  · decide

/-- What begins no layout counts. -/
theorem significant_append {taken : List Char} (h : ∀ c ∈ taken, IsSolid c)
    (after : List Char) : significant (taken ++ after) = taken ++ significant after := by
  induction taken with
  | nil => rfl
  | cons c taken ih =>
    obtain ⟨⟨hblank, hpercent⟩, htaken⟩ := List.forall_mem_cons.mp h
    have hmore := ih htaken
    simp only [significant] at hmore ⊢
    simp [significantFrom, hblank, hpercent, hmore]

/-! ## What a character stands for -/

/-- The text that a character stands for on its own: a letter for itself, a sign or a delimiter for
its glyph, and any other character beyond ASCII for itself. -/
def image? (c : Char) : Option String :=
  if isAlphabetic c then some (String.ofList [c])
  else
    match characterSymbol? c, delimiterCharacter? c with
    | some sign, _ => some sign.text
    | none, some delimiter => some delimiter.text
    | none, none => if c.toNat < 0x80 then none else some (String.ofList [c])

/-- A character that stands for nothing on its own and plays no other part in a formula without
commands. -/
def MeansNothing (c : Char) : Prop :=
  image? c = none ∧ c.isDigit = false ∧ c ∉ ['~', '\x27', '{', '^', '_']

instance (c : Char) : Decidable (MeansNothing c) := inferInstanceAs (Decidable (_ ∧ _ ∧ _))

/-- A letter is an identifier of its own text. -/
theorem image?_of_isAlphabetic {c : Char} (h : isAlphabetic c) :
    image? c = some (String.ofList [c]) := if_pos h

/-- The expression that a character stands for shows the text that it stands for. -/
theorem ofChar?_cases {c : Char} {e : Expr} (h : Expr.ofChar? c = some e) :
    (isAlphabetic c ∧ e = .identifier (String.ofList [c])) ∨
      (isAlphabetic c = false ∧ ∃ kind glyph, image? c = some glyph ∧ e = .symbol kind glyph) := by
  unfold Expr.ofChar? at h
  by_cases halphabetic : isAlphabetic c
  · rw [if_pos halphabetic] at h
    cases h
    exact .inl ⟨halphabetic, rfl⟩
  · rw [if_neg halphabetic] at h
    refine .inr ⟨by simpa using halphabetic, ?_⟩
    unfold image?
    rw [if_neg halphabetic]
    cases hsign : characterSymbol? c with
    | some sign =>
      rw [hsign] at h
      cases h
      exact ⟨sign.kind, sign.text, rfl, rfl⟩
    | none =>
      cases hdelimiter : delimiterCharacter? c with
      | some delimiter =>
        rw [hsign, hdelimiter] at h
        cases h
        exact ⟨delimiter.kind, delimiter.text, rfl, rfl⟩
      | none =>
        rw [hsign, hdelimiter] at h
        by_cases hascii : c.toNat < 0x80
        · simp [hascii] at h
        · have hsymbol : Expr.symbol .ordinary (String.ofList [c]) = e := by
            simpa [hascii] using h
          exact ⟨.ordinary, String.ofList [c], if_neg hascii, hsymbol.symm⟩

/-- A character that is no expression has no image. -/
theorem image?_of_ofChar?_none {c : Char} (h : Expr.ofChar? c = none) : image? c = none := by
  unfold Expr.ofChar? at h
  unfold image?
  by_cases halphabetic : isAlphabetic c
  · simp [halphabetic] at h
  · rw [if_neg halphabetic] at h ⊢
    cases hsign : characterSymbol? c with
    | some sign => simp [hsign] at h
    | none =>
      cases hdelimiter : delimiterCharacter? c with
      | some delimiter => simp [hsign, hdelimiter] at h
      | none => simpa [hsign, hdelimiter] using h

/-- What a character stands for: itself, or the glyph of a table. -/
theorem image?_cases {c : Char} {glyph : String} (h : image? c = some glyph) :
    glyph = String.ofList [c] ∨
      ∃ entry ∈ characterSymbols ++ delimiterCharacters, entry.1 = c ∧ entry.2.text = glyph := by
  unfold image? at h
  by_cases halphabetic : isAlphabetic c
  · rw [if_pos halphabetic] at h
    exact .inl (Option.some.inj h).symm
  rw [if_neg halphabetic] at h
  cases hsign : characterSymbol? c with
  | some sign =>
    rw [hsign] at h
    obtain ⟨front, back, hsplit, -⟩ := List.lookup_eq_some_iff.mp hsign
    exact .inr ⟨(c, sign), by simp [hsplit], rfl, Option.some.inj h⟩
  | none =>
    cases hdelimiter : delimiterCharacter? c with
    | some delimiter =>
      rw [hsign, hdelimiter] at h
      obtain ⟨front, back, hsplit, -⟩ := List.lookup_eq_some_iff.mp hdelimiter
      exact .inr ⟨(c, delimiter), by simp [hsplit], rfl, Option.some.inj h⟩
    | none =>
      rw [hsign, hdelimiter] at h
      by_cases hascii : c.toNat < 0x80
      · simp [hascii] at h
      · simp only [hascii, if_false, Option.some.injEq] at h
        exact .inl h.symm

/-- No digit is a symbol. -/
theorem image?_of_isDigit {c : Char} (h : c.isDigit) : image? c = none :=
  forall_isDigit (fun c => image? c = none) (by decide) h

theorem image?_dot : image? '.' = some "." := by decide

theorem image?_apostrophe : image? '\x27' = none := by decide

/-- The dot alone stands for a dot. -/
theorem eq_dot_of_image? {c : Char} (h : image? c = some ".") : c = '.' := by
  rcases image?_cases h with hself | ⟨entry, hentry, rfl, hdot⟩
  · have hchars : ".".toList = [c] := by rw [hself, String.toList_ofList]
    exact (List.cons.inj hchars).1.symm
  · have table : ∀ entry ∈ characterSymbols ++ delimiterCharacters,
        entry.2.text = "." → entry.1 = '.' := by decide
    exact table entry hentry hdot

end OfficeMath
