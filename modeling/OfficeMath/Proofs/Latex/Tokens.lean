import OfficeMath.Proofs.Latex.CommandNames
import OfficeMath.Proofs.Latex.Significant

/-!
# Tokens

A formula is made of tokens with layout between them.  A backslash and the word after it are one
token, whatever the word is; layout is a gap; and every other character is a token of its own.
This is a view of the text that knows nothing of the grammar: it is read from left to right, and
no token depends on what stands before it.

* `tokens` — the tokens of a text and the gaps between them;
* `exists_of_tokens_char`, `exists_of_tokens_command` — from the first token back to the text;
* `Avoids` — the text has none of these commands;
* `commandName_eq_word` — the reader and this view agree on where a command ends, apart from the
  one command whose name may end in a star.

A gap at the end of a text separates nothing and is left out.
-/

namespace OfficeMath

/-- The word after a backslash: a run of ASCII letters, or else the next character. -/
def wordAt (text : List Char) : List Char :=
  match text.takeWhile Char.isAlpha with
  | [] => text.take 1
  | letters => letters

/-- A piece of a formula, or layout between two pieces. -/
inductive Token where
  | command (word : List Char)
  | char (c : Char)
  | gap
  deriving DecidableEq, Repr

/-- The tokens of a text, the first `taken` characters of which belong to a token before it. -/
def tokensFrom : (taken : Nat) → List Char → List Token
  | _, [] => []
  | taken + 1, _ :: rest => tokensFrom taken rest
  | 0, c :: rest =>
    if c = '\\' then .command (wordAt rest) :: tokensFrom (wordAt rest).length rest
    else
      match layoutLength (c :: rest) with
      | 0 => .char c :: tokensFrom 0 rest
      | more + 1 => if rest.drop more = [] then [] else .gap :: tokensFrom more rest

/-- The tokens of a text. -/
def tokens (text : List Char) : List Token := tokensFrom 0 text

/-- None of the commands of a text has one of these names. -/
def Avoids (names : List String) (text : List Char) : Prop :=
  ∀ name ∈ names, Token.command name.toList ∉ tokens text

instance (names : List String) (text : List Char) : Decidable (Avoids names text) :=
  inferInstanceAs (Decidable (∀ name ∈ names, _))

/-! ## One token at a time -/

/-- The tokens behind some characters are the tokens of what is behind them. -/
theorem tokensFrom_eq (taken : Nat) (text : List Char) :
    tokensFrom taken text = tokens (text.drop taken) := by
  induction text generalizing taken with
  | nil => cases taken <;> rfl
  | cons c rest ih =>
    cases taken with
    | zero => rfl
    | succ taken => exact ih taken

@[simp] theorem tokens_nil : tokens [] = [] := rfl

/-- A backslash and the word after it are one token. -/
theorem tokens_backslash (after : List Char) :
    tokens ('\\' :: after)
      = .command (wordAt after) :: tokens (after.drop (wordAt after).length) := by
  rw [tokens, tokensFrom, if_pos rfl, tokensFrom_eq]

/-- A character that begins neither layout nor a command is a token. -/
theorem tokens_char {c : Char} (hsolid : IsSolid c) (hc : c ≠ '\\') (after : List Char) :
    tokens (c :: after) = .char c :: tokens after := by
  rw [tokens, tokensFrom, if_neg hc, layoutLength_cons hsolid.1 hsolid.2, tokensFrom_eq,
    List.drop_zero]

/-- A backslash begins no layout. -/
theorem layoutLength_backslash (after : List Char) : layoutLength ('\\' :: after) = 0 :=
  layoutLength_cons (by decide) (by decide) after

/-- Layout is a gap, unless nothing comes after it. -/
theorem tokens_layout {text : List Char} (h : layoutLength text ≠ 0) :
    tokens text = if text.drop (layoutLength text) = [] then []
      else .gap :: tokens (text.drop (layoutLength text)) := by
  cases text with
  | nil => exact absurd rfl h
  | cons c rest =>
    have hc : c ≠ '\\' := by
      rintro rfl
      exact h (layoutLength_backslash rest)
    obtain ⟨more, hmore⟩ := Nat.exists_eq_succ_of_ne_zero h
    rw [tokens, tokensFrom, if_neg hc, hmore]
    show (if rest.drop more = [] then [] else .gap :: tokensFrom more rest) = _
    rw [tokensFrom_eq]
    rfl

/-- Every text begins with layout, with a command or with a character that is a token. -/
theorem layout_or_token (text : List Char) :
    text = [] ∨ layoutLength text ≠ 0 ∨ (∃ after, text = '\\' :: after) ∨
      ∃ c after, text = c :: after ∧ IsSolid c ∧ c ≠ '\\' := by
  cases text with
  | nil => exact .inl rfl
  | cons c after =>
    by_cases hlayout : layoutLength (c :: after) = 0
    · by_cases hc : c = '\\'
      · exact .inr (.inr (.inl ⟨after, by rw [hc]⟩))
      · exact .inr (.inr (.inr ⟨c, after, rfl, isSolid_of_layoutLength hlayout, hc⟩))
    · exact .inr (.inl hlayout)

/-- The tokens after a gap, if they begin with one. -/
def afterGap : List Token → List Token
  | .gap :: rest => rest
  | rest => rest

/-- Taking layout takes at most a gap. -/
theorem tokens_drop_layout (text : List Char) :
    tokens (text.drop (layoutLength text)) = afterGap (tokens text) := by
  by_cases hlayout : layoutLength text = 0
  · rw [hlayout, List.drop_zero]
    rcases layout_or_token text with rfl | hne | ⟨after, rfl⟩ | ⟨c, after, rfl, hsolid, hc⟩
    · rfl
    · exact absurd hlayout hne
    · rw [tokens_backslash, afterGap]
      exact nofun
    · rw [tokens_char hsolid hc, afterGap]
      exact nofun
  · rw [tokens_layout hlayout]
    split
    · next hend =>
      rw [hend]
      rfl
    · rfl

/-! ## The text of a token -/

/-- A text whose first token is a character begins with it. -/
theorem exists_of_tokens_char {text : List Char} {c : Char} {rest : List Token}
    (h : tokens text = .char c :: rest) :
    ∃ after, text = c :: after ∧ IsSolid c ∧ c ≠ '\\' ∧ tokens after = rest := by
  rcases layout_or_token text with rfl | hlayout | ⟨after, rfl⟩ | ⟨d, after, rfl, hsolid, hd⟩
  · cases h
  · rw [tokens_layout hlayout] at h
    split at h
    · cases h
    · cases h
  · rw [tokens_backslash] at h
    cases h
  · rw [tokens_char hsolid hd] at h
    cases h
    exact ⟨after, rfl, hsolid, hd, rfl⟩

/-- A text whose first token is a command begins with it. -/
theorem exists_of_tokens_command {text word : List Char} {rest : List Token}
    (h : tokens text = .command word :: rest) :
    ∃ after, text = '\\' :: after ∧ wordAt after = word ∧
      tokens (after.drop word.length) = rest := by
  rcases layout_or_token text with rfl | hlayout | ⟨after, rfl⟩ | ⟨d, after, rfl, hsolid, hd⟩
  · cases h
  · rw [tokens_layout hlayout] at h
    split at h
    · cases h
    · cases h
  · rw [tokens_backslash] at h
    cases h
    exact ⟨after, rfl, rfl, rfl⟩
  · rw [tokens_char hsolid hd] at h
    cases h

/-- A text without tokens is layout. -/
theorem eq_nil_of_tokens_nil {text : List Char} (h : tokens text = [])
    (hlayout : layoutLength text = 0) : text = [] := by
  rcases layout_or_token text with hnil | hne | ⟨after, rfl⟩ | ⟨c, after, rfl, hsolid, hc⟩
  · exact hnil
  · exact absurd hlayout hne
  · rw [tokens_backslash] at h
    cases h
  · rw [tokens_char hsolid hc] at h
    cases h

/-! ## Writing tokens -/

/-- The text of some tokens, with a space for every gap. -/
def render : List Token → List Char
  | [] => []
  | .command word :: rest => '\\' :: word ++ render rest
  | .char c :: rest => c :: render rest
  | .gap :: rest => ' ' :: render rest

/-- The tokens of a text are written with a space or with the character that the text begins
with. -/
theorem head_render {text : List Char} {c : Char} (h : (render (tokens text)).head? = some c) :
    (layoutLength text ≠ 0 ∧ c = ' ') ∨ (layoutLength text = 0 ∧ text.head? = some c) := by
  rcases layout_or_token text with rfl | hlayout | ⟨after, rfl⟩ | ⟨d, after, rfl, hsolid, hd⟩
  · cases h
  · rw [tokens_layout hlayout] at h
    split at h
    · cases h
    · exact .inl ⟨hlayout, (Option.some.inj h).symm⟩
  · rw [tokens_backslash] at h
    exact .inr ⟨layoutLength_backslash after, h⟩
  · rw [tokens_char hsolid hd] at h
    exact .inr ⟨layoutLength_cons hsolid.1 hsolid.2 after, h⟩

/-- Where the text begins with no layout, neither do its tokens. -/
theorem layoutLength_render {text : List Char} (h : layoutLength text = 0) :
    layoutLength (render (tokens text)) = 0 := by
  cases hrender : render (tokens text) with
  | nil => rfl
  | cons c after =>
    rcases head_render (by rw [hrender, List.head?_cons]) with ⟨hne, -⟩ | ⟨-, hhead⟩
    · exact absurd h hne
    · obtain ⟨rest, rfl⟩ := List.head?_eq_some_iff.mp hhead
      obtain ⟨hblank, hpercent⟩ := isSolid_of_layoutLength h
      exact layoutLength_cons hblank hpercent after

/-- A word that is written ends where it ended in the text. -/
theorem wordAt_render (text : List Char) :
    wordAt (wordAt text ++ render (tokens (text.drop (wordAt text).length))) = wordAt text := by
  cases hletters : text.takeWhile Char.isAlpha with
  | nil =>
    have hword : wordAt text = text.take 1 := by simp only [wordAt, hletters]
    rw [hword]
    cases text with
    | nil => rfl
    | cons c after =>
      have hc : ¬ c.isAlpha := by
        intro hc
        rw [List.takeWhile_cons_of_pos hc] at hletters
        cases hletters
      simp [wordAt, hc]
  | cons first more =>
    have hword : wordAt text = text.takeWhile Char.isAlpha := by simp only [wordAt, hletters]
    have hsplit : text.takeWhile Char.isAlpha ++ text.dropWhile Char.isAlpha = text :=
      List.takeWhile_append_dropWhile
    have hdrop : text.drop (wordAt text).length = text.dropWhile Char.isAlpha := by
      calc text.drop (wordAt text).length
          = (text.takeWhile Char.isAlpha ++ text.dropWhile Char.isAlpha).drop
              (text.takeWhile Char.isAlpha).length := by rw [hsplit, hword]
        _ = text.dropWhile Char.isAlpha := List.drop_left
    rw [hdrop]
    have hend : (render (tokens (text.dropWhile Char.isAlpha))).takeWhile Char.isAlpha = [] := by
      cases hrender : render (tokens (text.dropWhile Char.isAlpha)) with
      | nil => rfl
      | cons c after =>
        refine List.takeWhile_cons_of_neg ?_
        rcases head_render (by rw [hrender, List.head?_cons]) with ⟨-, rfl⟩ | ⟨-, hhead⟩
        · decide
        · simpa [hhead] using List.head?_dropWhile_not Char.isAlpha text
    have hwhole : (wordAt text ++ render (tokens (text.dropWhile Char.isAlpha))).takeWhile
        Char.isAlpha = wordAt text := by
      have hall : ∀ c ∈ text.takeWhile Char.isAlpha, c.isAlpha :=
        fun c hc => List.all_eq_true.mp List.all_takeWhile c hc
      rw [hword, List.takeWhile_append_of_pos hall, hend, List.append_nil]
    rw [wordAt, hwhole, hword, hletters]

/-- **Tokens can be read back** from the text that they are written as. -/
theorem tokens_render (text : List Char) : tokens (render (tokens text)) = tokens text := by
  rcases layout_or_token text with rfl | hlayout | ⟨after, rfl⟩ | ⟨c, after, rfl, hsolid, hc⟩
  · rfl
  · have hshorter : (text.drop (layoutLength text)).length < text.length := by
      have hne : text ≠ [] := by
        rintro rfl
        exact hlayout rfl
      have hpos := List.length_pos_iff.mpr hne
      rw [List.length_drop]
      omega
    have ih := tokens_render (text.drop (layoutLength text))
    rw [tokens_layout hlayout]
    by_cases hend : text.drop (layoutLength text) = []
    · rw [if_pos hend]
      rfl
    · rw [if_neg hend, render]
      have hnone := layoutLength_render (layoutLength_drop text)
      generalize hafter : render (tokens (text.drop (layoutLength text))) = after at ih hnone
      have hgap : layoutLength (' ' :: after) = 1 := by
        rw [layoutLength_blank (by decide), hnone]
      have hmore : (' ' :: after).drop (layoutLength (' ' :: after)) = after := by rw [hgap]; rfl
      have hne : after ≠ [] := by
        rintro rfl
        exact hend (eq_nil_of_tokens_nil ih.symm (layoutLength_drop text))
      rw [tokens_layout (by rw [hgap]; exact Nat.one_ne_zero), hmore, if_neg hne, ih]
  · have hshorter : (after.drop (wordAt after).length).length < ('\\' :: after).length := by
      rw [List.length_drop, List.length_cons]
      omega
    rw [tokens_backslash, render, List.cons_append, tokens_backslash, wordAt_render,
      List.drop_left, tokens_render (after.drop (wordAt after).length)]
  · rw [tokens_char hsolid hc, render, tokens_char hsolid hc, tokens_render after]
termination_by text.length

/-! ## Names of commands -/

/-- A command name is the word after the backslash, unless it is the one with a star. -/
theorem commandName_eq_word {after : List Char} (h : wordAt after ≠ "operatorname".toList) :
    commandName after = wordAt after := by
  cases hletters : after.takeWhile Char.isAlpha with
  | nil => simp only [commandName, wordAt, hletters]
  | cons first more =>
    simp only [wordAt, hletters] at h
    simp only [commandName, wordAt, hletters]
    split
    · split
      · next hstar => exact absurd (eq_operatorname_of_starred hstar) h
      · rfl
    · rfl

/-- A word is a run of letters or a single character. -/
theorem wordAt_ne_starred (after : List Char) : wordAt after ≠ "operatorname*".toList := by
  intro h
  cases hletters : after.takeWhile Char.isAlpha with
  | nil =>
    simp only [wordAt, hletters] at h
    have hlength := congrArg List.length h
    rw [List.length_take] at hlength
    have hstarred : "operatorname*".toList.length = 13 := rfl
    omega
  | cons first more =>
    simp only [wordAt, hletters] at h
    have hstar : '*' ∈ after.takeWhile Char.isAlpha := by
      rw [hletters, h]
      decide
    exact absurd (List.all_eq_true.mp List.all_takeWhile _ hstar) (by decide)

namespace Avoids

variable {names : List String} {after : List Char}

/-- What stands after layout avoids what the whole text avoids. -/
theorem layout {text : List Char} (h : Avoids names text) :
    Avoids names (text.drop (layoutLength text)) := by
  intro name hname hword
  apply h name hname
  rw [tokens_drop_layout] at hword
  unfold afterGap at hword
  split at hword
  · next heq =>
    rw [heq]
    exact List.mem_cons_of_mem _ hword
  · exact hword

/-- Behind a character of its own the names are avoided as before. -/
theorem char {c : Char} (hsolid : IsSolid c) (hc : c ≠ '\\') (h : Avoids names (c :: after)) :
    Avoids names after := by
  intro name hname hword
  apply h name hname
  rw [tokens_char hsolid hc]
  exact List.mem_cons_of_mem _ hword

/-- So they are behind a command. -/
theorem command (h : Avoids names ('\\' :: after)) :
    Avoids names (after.drop (wordAt after).length) := by
  intro name hname hword
  apply h name hname
  rw [tokens_backslash]
  exact List.mem_cons_of_mem _ hword

/-- The first command is avoided too. -/
theorem word (h : Avoids names ('\\' :: after)) : String.ofList (wordAt after) ∉ names := by
  intro hname
  apply h _ hname
  rw [tokens_backslash, String.toList_ofList]
  exact List.mem_cons_self

/-- A text that avoids `\operatorname` has the reader's command names for words … -/
theorem commandName_eq (hname : "operatorname" ∈ names) (h : Avoids names ('\\' :: after)) :
    commandName after = wordAt after := by
  apply commandName_eq_word
  intro hword
  apply h.word
  rwa [hword, String.ofList_toList]

/-- … and if it avoids the text commands too, nothing in it is taken as plain text. -/
theorem takesText_eq_false (hname : "operatorname" ∈ names) (htext : textCommands ⊆ names)
    (h : Avoids names ('\\' :: after)) : takesText (String.ofList (wordAt after)) = false := by
  rw [Bool.eq_false_iff]
  intro htakes
  rcases List.mem_cons.mp (mem_of_takesText htakes) with hoperator | hmore
  · exact h.word (hoperator ▸ hname)
  rcases List.mem_cons.mp hmore with hstarred | hstyle
  · apply wordAt_ne_starred after
    rw [← hstarred, String.toList_ofList]
  · exact h.word (htext hstyle)

end Avoids

end OfficeMath
