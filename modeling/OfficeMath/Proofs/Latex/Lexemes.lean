import OfficeMath.Latex.Delimiter
import OfficeMath.Proofs.Text.Characters

/-!
# Where lexemes end

Layout, command names, delimiters and runs of apostrophes, each with what it is made of and with
the fact that tells it from what follows: no layout is ahead after layout has been taken
(`layoutLength_drop`), and a name of letters ends where neither a letter nor a star follows
(`commandName_append`).
-/

namespace OfficeMath

/-- After the layout at the start of a text there is no more of it. -/
theorem layoutLength_drop (text : List Char) :
    layoutLength (text.drop (layoutLength text)) = 0 := by
  have from_drop (inComment : Bool) :
      layoutLength (text.drop (layoutLengthFrom inComment text)) = 0 := by
    induction text generalizing inComment with
    | nil => cases inComment <;> rfl
    | cons c rest ih =>
      cases inComment with
      | true =>
        rw [layoutLengthFrom, Nat.add_comm, List.drop_succ_cons]
        exact ih _
      | false =>
        by_cases hblank : isBlank c
        · rw [layoutLengthFrom, if_pos hblank, Nat.add_comm, List.drop_succ_cons]
          exact ih _
        · by_cases hpercent : c = '%'
          · rw [layoutLengthFrom, if_neg hblank, if_pos hpercent, Nat.add_comm,
              List.drop_succ_cons]
            exact ih _
          · simp [layoutLength, layoutLengthFrom, hblank, hpercent]
  exact from_drop false

/-- A character that is neither blank nor a percent sign is not layout. -/
theorem layoutLength_cons {c : Char} (hblank : isBlank c = false) (hpercent : c ≠ '%')
    (rest : List Char) : layoutLength (c :: rest) = 0 := by
  simp [layoutLength, layoutLengthFrom, hblank, hpercent]

/-- A blank is layout, with whatever layout comes after it. -/
theorem layoutLength_blank {c : Char} (hblank : isBlank c) (rest : List Char) :
    layoutLength (c :: rest) = 1 + layoutLength rest := by
  simp [layoutLength, layoutLengthFrom, hblank]

/-- A comment that ends is layout up to its line end, with whatever layout comes after it. -/
theorem layoutLengthFrom_comment {words : List Char} (hwords : '\n' ∉ words) (rest : List Char) :
    layoutLengthFrom true (words ++ '\n' :: rest) = words.length + 1 + layoutLength rest := by
  induction words with
  | nil => simp [layoutLengthFrom, layoutLength]
  | cons c words ih =>
    obtain ⟨hc, hwords⟩ : '\n' ≠ c ∧ '\n' ∉ words := by simpa using hwords
    have hmore := ih hwords
    simp only [List.cons_append, layoutLengthFrom, decide_eq_true (Ne.symm hc), hmore,
      List.length_cons]
    omega

/-- A comment without a line end reaches to the end of the text. -/
theorem layoutLengthFrom_open {text : List Char} (h : '\n' ∉ text) :
    layoutLengthFrom true text = text.length := by
  induction text with
  | nil => rfl
  | cons c rest ih =>
    obtain ⟨hc, hrest⟩ : '\n' ≠ c ∧ '\n' ∉ rest := by simpa using h
    rw [layoutLengthFrom, decide_eq_true (Ne.symm hc), ih hrest, List.length_cons, Nat.add_comm]

/-- A name of letters ends where neither a letter nor a star follows. -/
theorem commandName_append {name rest : List Char} (hne : name ≠ [])
    (hname : ∀ c ∈ name, c.isAlpha) (hrest : ∀ c ∈ rest.head?, c.isAlpha = false ∧ c ≠ '*') :
    commandName (name ++ rest) = name := by
  have htake : (name ++ rest).takeWhile Char.isAlpha = name := by
    rw [List.takeWhile_append_of_pos hname]
    cases rest with
    | nil => simp
    | cons c rest => simp [(hrest c rfl).1]
  have hdrop : (name ++ rest).drop name.length = rest := List.drop_left
  unfold commandName
  rw [htake]
  cases name with
  | nil => exact absurd rfl hne
  | cons first name =>
    dsimp only
    rw [hdrop]
    split
    · exact absurd rfl (hrest '*' rfl).2
    · rfl

/-- Letters before a star. -/
theorem commandName_star {letters : List Char} (hne : letters ≠ [])
    (hletters : ∀ c ∈ letters, c.isAlpha) (after : List Char) :
    commandName (letters ++ '*' :: after) =
      if (command? (String.ofList (letters ++ ['*']))).isSome then letters ++ ['*']
      else letters := by
  have htake : (letters ++ '*' :: after).takeWhile Char.isAlpha = letters := by
    rw [List.takeWhile_append_of_pos hletters]
    simp
  unfold commandName
  rw [htake]
  cases letters with
  | nil => exact absurd rfl hne
  | cons first letters =>
    dsimp only
    rw [List.drop_left]
    rfl

/-- A run of letters is the name of a command, up to a star that belongs to the name of one. -/
theorem commandName_letters {letters rest : List Char} (hne : letters ≠ [])
    (hletters : ∀ c ∈ letters, c.isAlpha) (hrest : ∀ c ∈ rest.head?, c.isAlpha = false) :
    commandName (letters ++ rest) = letters ∨
      ∃ after, rest = '*' :: after ∧ (command? (String.ofList (letters ++ ['*']))).isSome ∧
        commandName (letters ++ rest) = letters ++ ['*'] := by
  by_cases hstar : rest.head? = some '*'
  · obtain ⟨after, rfl⟩ := List.head?_eq_some_iff.mp hstar
    have hname := commandName_star hne hletters after
    by_cases hcommand : (command? (String.ofList (letters ++ ['*']))).isSome
    · exact .inr ⟨after, rfl, hcommand, by rw [hname, if_pos hcommand]⟩
    · exact .inl (by rw [hname, if_neg hcommand])
  · refine .inl (commandName_append hne hletters fun c hc => ⟨hrest c hc, ?_⟩)
    rintro rfl
    exact hstar hc

/-- A command whose name is a single character that is no letter. -/
theorem commandName_cons {c : Char} (hc : c.isAlpha = false) (rest : List Char) :
    commandName (c :: rest) = [c] := by
  simp [commandName, hc]

/-- A command name is a single character that is no letter, a run of letters, or such a run with a
star that makes it the name of another command. -/
theorem commandName_cases {text : List Char} (hne : text ≠ []) :
    (∃ c, c.isAlpha = false ∧ commandName text = [c]) ∨
      (commandName text ≠ [] ∧ ∀ c ∈ commandName text, c.isAlpha) ∨
      ∃ letters, letters ≠ [] ∧ (∀ c ∈ letters, c.isAlpha) ∧
        (command? (String.ofList (letters ++ ['*']))).isSome ∧
        commandName text = letters ++ ['*'] := by
  obtain ⟨c, rest, rfl⟩ := List.exists_cons_of_ne_nil hne
  by_cases hc : c.isAlpha
  · refine .inr ?_
    have hsplit := List.takeWhile_append_dropWhile (p := Char.isAlpha) (l := c :: rest)
    have hletters : ∀ x ∈ (c :: rest).takeWhile Char.isAlpha, x.isAlpha :=
      fun x hx => List.all_eq_true.mp List.all_takeWhile x hx
    have hfirst : (c :: rest).takeWhile Char.isAlpha ≠ [] := by simp [hc]
    have hhead : ∀ x ∈ ((c :: rest).dropWhile Char.isAlpha).head?, x.isAlpha = false := by
      intro x hx
      have hnot := List.head?_dropWhile_not Char.isAlpha (c :: rest)
      rw [Option.mem_def.mp hx] at hnot
      exact hnot
    rcases commandName_letters hfirst hletters hhead with hname | ⟨-, -, hcommand, hname⟩
    · rw [hsplit] at hname
      rw [hname]
      exact .inl ⟨hfirst, hletters⟩
    · rw [hsplit] at hname
      exact .inr ⟨_, hfirst, hletters, hcommand, hname⟩
  · exact .inl ⟨c, by simpa using hc, commandName_cons (by simpa using hc) rest⟩

/-- After its first character a command name has letters only, and perhaps a star. -/
theorem commandName_cons_cases (c : Char) (rest : List Char) :
    ∃ more, commandName (c :: rest) = c :: more ∧ ∀ x ∈ more, x.isAlpha ∨ x = '*' := by
  by_cases hc : c.isAlpha
  · have hletters : (c :: rest).takeWhile Char.isAlpha = c :: rest.takeWhile Char.isAlpha := by
      rw [List.takeWhile_cons, if_pos hc]
    have hmore : ∀ x ∈ rest.takeWhile Char.isAlpha, x.isAlpha ∨ x = '*' :=
      fun x hx => .inl (List.all_eq_true.mp List.all_takeWhile x hx)
    have hstar : ∀ x ∈ rest.takeWhile Char.isAlpha ++ ['*'], x.isAlpha ∨ x = '*' := by
      intro x hx
      rcases List.mem_append.mp hx with hx | hx
      · exact hmore x hx
      · exact .inr (List.mem_singleton.mp hx)
    unfold commandName
    rw [hletters]
    dsimp only
    split
    · split
      · exact ⟨_, rfl, hstar⟩
      · exact ⟨_, rfl, hmore⟩
    · exact ⟨_, rfl, hmore⟩
  · exact ⟨[], commandName_cons (by simpa using hc) rest, nofun⟩

/-- A command name stands at the start of the text after the backslash. -/
theorem commandName_isPrefix (text : List Char) : commandName text <+: text := by
  have hletters : text.takeWhile Char.isAlpha <+: text := List.takeWhile_prefix _
  unfold commandName
  split
  · exact List.take_prefix _ _
  · obtain ⟨after, hsplit⟩ := hletters
    generalize text.takeWhile Char.isAlpha = letters at hsplit
    subst hsplit
    rw [List.drop_left]
    split
    · dsimp only
      split
      · exact ⟨_, List.append_assoc _ _ _⟩
      · exact List.prefix_append _ _
    · exact List.prefix_append _ _

/-- The command that begins a text, with its name. -/
theorem commandAt?_eq_some {text : List Char} {name : String} (h : commandAt? text = some name) :
    ∃ after, text = '\\' :: after ∧ commandName after = name.toList := by
  unfold commandAt? at h
  split at h
  · next after =>
    cases h
    exact ⟨after, rfl, String.toList_ofList.symm⟩
  · cases h

/-- Only a backslash begins a command. -/
theorem commandAt?_cons_of_ne {c : Char} (hc : c ≠ '\\') (after : List Char) :
    commandAt? (c :: after) = none := by
  unfold commandAt?
  split
  · next heq => exact absurd (List.cons.inj heq).1 hc
  · rfl

/-- A delimiter is a command, or a character that is neither a brace nor a backslash. -/
theorem delimiterAt?_cases {text : List Char} {glyph : Glyph} {length : Nat}
    (h : delimiterAt? text = some (glyph, length)) :
    (∃ after, text = '\\' :: after ∧ length = 1 + (commandName after).length) ∨
      ∃ c after, text = c :: after ∧ length = 1 ∧ c ∉ ['{', '}', '\\'] := by
  cases text with
  | nil => cases h
  | cons c after =>
    simp only [delimiterAt?] at h
    by_cases hdot : c = '.'
    · rw [if_pos hdot] at h
      cases h
      exact .inr ⟨c, after, rfl, rfl, by rw [hdot]; decide⟩
    rw [if_neg hdot] at h
    by_cases hc : c = '\\'
    · rw [if_pos hc] at h
      subst hc
      refine .inl ⟨after, rfl, ?_⟩
      split at h
      · cases h
        rfl
      · cases h
    · rw [if_neg hc] at h
      refine .inr ⟨c, after, rfl, ?_⟩
      have braces : ∀ c ∈ ['{', '}'],
          (delimiterCharacter? c <|> characterSymbol? c) = none := by decide
      split at h
      · next found hfound =>
        cases h
        refine ⟨rfl, fun hmem => ?_⟩
        have hbrace : c ∈ ['{', '}'] := by simpa [hc] using hmem
        rw [braces c hbrace] at hfound
        cases hfound
      · cases h

/-- What is taken for primes are apostrophes. -/
theorem take_primeCount (text : List Char) :
    text.take (primeCount text) = List.replicate (primeCount text) '\x27' := by
  have hsplit : text.takeWhile (· = '\x27') ++ text.dropWhile (· = '\x27') = text :=
    List.takeWhile_append_dropWhile
  have htake : text.take (primeCount text) = text.takeWhile (· = '\x27') := by
    calc text.take (primeCount text)
        = (text.takeWhile (· = '\x27') ++ text.dropWhile (· = '\x27')).take
            (text.takeWhile (· = '\x27')).length := by rw [hsplit, primeCount]
      _ = text.takeWhile (· = '\x27') := List.take_left
  rw [htake]
  refine List.eq_replicate_iff.mpr ⟨rfl, fun c hc => ?_⟩
  simpa using List.all_eq_true.mp List.all_takeWhile c hc

end OfficeMath
