import OfficeMath.Proofs.Latex.Numeral
import OfficeMath.Proofs.Latex.Tokens

/-!
# Texts with the same tokens

Two texts may have the same tokens and differ in the layout between them (`SameTokens`).  Then they
cannot be told apart by what the reader looks at: neither by a character, a command, a number or a
run of apostrophes at their beginning, nor by what comes after it.

The texts have none of the commands after which layout does mean something (`verbatimCommands`).
-/

namespace OfficeMath

/-- The commands that take text as it stands, in which layout may mean something. -/
def verbatimCommands : List String :=
  ["begin", "end", "operatorname", "operatorname*"] ++ textCommands

/-- Two texts that differ in layout alone, and have none of the commands that take text as it
stands. -/
structure SameTokens (a b : List Char) : Prop where
  tokens_eq : tokens a = tokens b
  avoids : Avoids verbatimCommands a

namespace SameTokens

variable {a b : List Char}

/-- Sameness of tokens does not depend on the order. -/
theorem symm (h : SameTokens a b) : SameTokens b a := by
  refine ⟨h.tokens_eq.symm, fun name hname => ?_⟩
  rw [← h.tokens_eq]
  exact h.avoids name hname

/-- Layout makes no difference … -/
theorem layout (h : SameTokens a b) :
    SameTokens (a.drop (layoutLength a)) (b.drop (layoutLength b)) := by
  refine ⟨?_, h.avoids.layout⟩
  rw [tokens_drop_layout, tokens_drop_layout, h.tokens_eq]

/-- … and neither does what is taken before it. -/
theorem nil (h : SameTokens [] b) (hlayout : layoutLength b = 0) : b = [] :=
  eq_nil_of_tokens_nil h.tokens_eq.symm hlayout

/-- The same character begins both texts. -/
theorem char {c : Char} {x : List Char} (h : SameTokens (c :: x) b) (hsolid : IsSolid c)
    (hc : c ≠ '\\') : ∃ y, b = c :: y ∧ SameTokens x y := by
  have htokens := h.tokens_eq
  rw [tokens_char hsolid hc] at htokens
  obtain ⟨y, rfl, -, -, hrest⟩ := exists_of_tokens_char htokens.symm
  exact ⟨y, rfl, hrest.symm, h.avoids.char hsolid hc⟩

/-- The same command begins both texts, with the same name for the reader, and it does not take
text as it stands. -/
theorem command {x : List Char} (h : SameTokens ('\\' :: x) b) :
    ∃ y, b = '\\' :: y ∧ commandName y = commandName x ∧
      SameTokens (x.drop (commandName x).length) (y.drop (commandName x).length) := by
  have htokens := h.tokens_eq
  rw [tokens_backslash] at htokens
  obtain ⟨y, rfl, hword, hrest⟩ := exists_of_tokens_command htokens.symm
  have hx : commandName x = wordAt x := h.avoids.commandName_eq (by decide)
  have hy : commandName y = wordAt y := h.symm.avoids.commandName_eq (by decide)
  refine ⟨y, rfl, by rw [hx, hy, hword], ?_⟩
  rw [hx]
  exact ⟨hrest.symm, h.avoids.command⟩

/-- What the command at the beginning is not. -/
theorem not_verbatim {x : List Char} (h : SameTokens ('\\' :: x) b) :
    String.ofList (commandName x) ∉ verbatimCommands ∧
      takesText (String.ofList (commandName x)) = false := by
  rw [h.avoids.commandName_eq (by decide)]
  exact ⟨h.avoids.word, h.avoids.takesText_eq_false (by decide) (List.subset_append_right _ _)⟩

/-- What begins both texts, if it is no layout. -/
theorem cases (h : SameTokens a b) (ha : layoutLength a = 0) (hb : layoutLength b = 0) :
    (a = [] ∧ b = []) ∨
      (∃ x y, a = '\\' :: x ∧ b = '\\' :: y ∧ commandName y = commandName x ∧
        SameTokens (x.drop (commandName x).length) (y.drop (commandName x).length)) ∨
      ∃ c x y, a = c :: x ∧ b = c :: y ∧ IsSolid c ∧ c ≠ '\\' ∧ SameTokens x y := by
  rcases layout_or_token a with rfl | hlayout | ⟨x, rfl⟩ | ⟨c, x, rfl, hsolid, hc⟩
  · exact .inl ⟨rfl, h.nil hb⟩
  · exact absurd ha hlayout
  · obtain ⟨y, rfl, hname, hrest⟩ := h.command
    exact .inr (.inl ⟨x, y, rfl, rfl, hname, hrest⟩)
  · obtain ⟨y, rfl, hrest⟩ := h.char hsolid hc
    exact .inr (.inr ⟨c, x, y, rfl, rfl, hsolid, hc, hrest⟩)

/-- Both texts have ended, or begin with the same character. -/
theorem heads (h : SameTokens a b) (ha : layoutLength a = 0) (hb : layoutLength b = 0) :
    (a = [] ∧ b = []) ∨
      ∃ c x y, a = c :: x ∧ b = c :: y ∧ (c ≠ '\\' → SameTokens x y) := by
  rcases h.cases ha hb with hnil | ⟨x, y, rfl, rfl, -, -⟩ | ⟨c, x, y, rfl, rfl, -, -, hafter⟩
  · exact .inl hnil
  · exact .inr ⟨'\\', x, y, rfl, rfl, fun hc => absurd rfl hc⟩
  · exact .inr ⟨c, x, y, rfl, rfl, fun _ => hafter⟩

/-- The same command begins both texts, or none does. -/
theorem commandAt (h : SameTokens a b) (ha : layoutLength a = 0) (hb : layoutLength b = 0) :
    commandAt? b = commandAt? a := by
  rcases h.cases ha hb with ⟨rfl, rfl⟩ | ⟨x, y, rfl, rfl, hname, -⟩ | ⟨c, x, y, rfl, rfl, -, hc, -⟩
  · rfl
  · rw [commandAt?, commandAt?, hname]
  · rw [commandAt?_cons_of_ne hc, commandAt?_cons_of_ne hc]

/-- The same delimiter begins both texts, or none does. -/
theorem delimiterAt (h : SameTokens a b) (ha : layoutLength a = 0) (hb : layoutLength b = 0) :
    delimiterAt? b = delimiterAt? a ∧ ∀ glyph length, delimiterAt? a = some (glyph, length) →
      SameTokens (a.drop length) (b.drop length) := by
  rcases h.cases ha hb with ⟨rfl, rfl⟩ | ⟨x, y, rfl, rfl, hname, hafter⟩ |
    ⟨c, x, y, rfl, rfl, -, hc, hafter⟩
  · exact ⟨rfl, nofun⟩
  · constructor
    · simp only [delimiterAt?, hname]
    · intro glyph length hfound
      rcases delimiterAt?_cases hfound with ⟨after, heq, rfl⟩ | ⟨c, after, heq, rfl, hc⟩
      · cases heq
        rw [Nat.add_comm]
        exact hafter
      · cases heq
        exact absurd hc (by decide)
  · constructor
    · simp only [delimiterAt?, if_neg hc]
    · intro glyph length hfound
      rcases delimiterAt?_cases hfound with ⟨after, heq, -⟩ | ⟨d, after, heq, rfl, -⟩
      · cases heq
        exact absurd rfl hc
      · exact hafter

/-! ## Runs of characters -/

/-- Both texts begin with the same characters, and go on with the same tokens. -/
structure Shares (count : Nat) (a b : List Char) : Prop where
  take_eq : b.take count = a.take count
  rest : SameTokens (a.drop count) (b.drop count)

/-- What is shared at first and what is shared behind it are shared in a row. -/
theorem Shares.add {count more : Nat} (h : Shares count a b)
    (h' : Shares more (a.drop count) (b.drop count)) : Shares (count + more) a b := by
  constructor
  · rw [List.take_add, List.take_add, h.take_eq, h'.take_eq]
  · have hrest := h'.rest
    rwa [List.drop_drop, List.drop_drop] at hrest

/-- Both texts begin with the same run of characters, if none of them begins layout or a
command. -/
theorem takeWhile {p : Char → Bool} (hp : ∀ c, p c → IsSolid c ∧ c ≠ '\\') (h : SameTokens a b) :
    b.takeWhile p = a.takeWhile p ∧ Shares (a.takeWhile p).length a b := by
  -- Where one of the texts has such a character, so has the other one.
  have hhead {a b : List Char} (h : SameTokens a b) (ha : a.takeWhile p = []) :
      b.takeWhile p = [] := by
    cases b with
    | nil => rfl
    | cons d y =>
      refine List.takeWhile_cons_of_neg fun hd => ?_
      obtain ⟨hsolid, hbackslash⟩ := hp d hd
      obtain ⟨x, rfl, -⟩ := h.symm.char hsolid hbackslash
      rw [List.takeWhile_cons_of_pos hd] at ha
      cases ha
  induction a generalizing b with
  | nil => exact ⟨hhead h rfl, rfl, h⟩
  | cons c x ih =>
    by_cases hc : p c
    · obtain ⟨hsolid, hbackslash⟩ := hp c hc
      obtain ⟨y, rfl, hrest⟩ := h.char hsolid hbackslash
      obtain ⟨htake, hshares⟩ := ih hrest
      rw [List.takeWhile_cons_of_pos hc, List.takeWhile_cons_of_pos hc, htake]
      exact ⟨rfl, congrArg (c :: ·) hshares.take_eq, hshares.rest⟩
    · have hnone : (c :: x).takeWhile p = [] := List.takeWhile_cons_of_neg hc
      rw [hhead h hnone, hnone]
      exact ⟨rfl, rfl, h⟩

/-- Both texts begin with the same number of apostrophes. -/
theorem primes (h : SameTokens a b) : primeCount b = primeCount a ∧ Shares (primeCount a) a b := by
  have hprime : ∀ c, decide (c = '\x27') → IsSolid c ∧ c ≠ '\\' := by
    intro c hc
    rw [of_decide_eq_true hc]
    decide
  obtain ⟨htake, hshares⟩ := h.takeWhile hprime
  exact ⟨congrArg List.length htake, hshares⟩

/-- Both texts begin with the same digits. -/
theorem digits (h : SameTokens a b) : digitCount b = digitCount a ∧ Shares (digitCount a) a b := by
  have hdigit : ∀ c, c.isDigit → IsSolid c ∧ c ≠ '\\' := by
    intro c hc
    refine ⟨isSolid_of_isDigit_or_eq_dot (.inl hc), ?_⟩
    rintro rfl
    cases hc
  obtain ⟨htake, hshares⟩ := h.takeWhile hdigit
  exact ⟨congrArg List.length htake, hshares⟩

/-- Both texts begin with the same number. -/
theorem number (h : SameTokens a b) :
    numberLength b = numberLength a ∧ Shares (numberLength a) a b := by
  obtain ⟨hwhole, hshares⟩ := h.digits
  have hrest := hshares.rest
  by_cases hdot : (a.drop (digitCount a)).head? = some '.'
  · obtain ⟨x, hx⟩ := List.head?_eq_some_iff.mp hdot
    rw [hx] at hrest
    obtain ⟨y, hy, hafter⟩ := hrest.char (by decide) (by decide)
    obtain ⟨hplaces, hshares'⟩ := hafter.digits
    rw [numberLength_of_dot hx, numberLength_of_dot (hwhole ▸ hy), hwhole, hplaces]
    refine ⟨rfl, ?_⟩
    by_cases hnone : digitCount x = 0
    · rw [if_pos hnone]
      exact hshares
    · have hone : Shares 1 (a.drop (digitCount a)) (b.drop (digitCount a)) := by
        rw [hx, hy]
        exact ⟨rfl, hafter⟩
      have hafter' : Shares (digitCount x) ((a.drop (digitCount a)).drop 1)
          ((b.drop (digitCount a)).drop 1) := by
        rw [hx, hy]
        exact hshares'
      rw [if_neg hnone, Nat.add_assoc]
      exact hshares.add (hone.add hafter')
  · have hdot' : (b.drop (digitCount b)).head? ≠ some '.' := by
      intro hdot'
      obtain ⟨y, hy⟩ := List.head?_eq_some_iff.mp hdot'
      rw [hwhole] at hy
      rw [hy] at hrest
      obtain ⟨x, hx, -⟩ := hrest.symm.char (by decide) (by decide)
      exact hdot (by rw [hx, List.head?_cons])
    rw [numberLength_of_not_dot hdot, numberLength_of_not_dot hdot']
    exact ⟨hwhole, hshares⟩

end SameTokens

end OfficeMath
