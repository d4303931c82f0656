import OfficeMath.Proofs.Latex.GroupInvariant
import OfficeMath.Proofs.Latex.Tokens

/-!
# Acceptance by counting braces

Whether a formula can be read is a question about its braces alone, as long as it has none of the
commands that take text as it stands or a group in brackets (`rawCommands`).  Cut the formula into
tokens and count: an opening brace opens a group, and a closing brace closes the innermost one or,
where none is open, nothing (`braceDepth`).  The formula can be read if and only if no group is
left open.

* `bracesLeft` — the number of groups that will be left open at the end does not change while the
  formula is read;
* `parse_error_iff_braceDepth` — the statement about formulas.

So nothing that the reader makes of the tokens in between matters: a missing argument, a delimiter
that is a brace, a region that is never closed or a command that nobody knows.
-/

namespace OfficeMath

/-- The number of open groups after some tokens, before which `depth` groups were open. -/
def braceDepth : (depth : Nat) → List Token → Nat
  | depth, [] => depth
  | depth, .char c :: rest =>
    if c = '{' then braceDepth (depth + 1) rest
    else if c = '}' then braceDepth (depth - 1) rest
    else braceDepth depth rest
  | depth, .command _ :: rest => braceDepth depth rest
  | depth, .gap :: rest => braceDepth depth rest

/-- The commands that take text as it stands, or a group in brackets. -/
def rawCommands : List String := ["begin", "end", "sqrt", "operatorname"] ++ textCommands

/-! ## Counting on -/

section
variable {depth : Nat} {after : List Char}

/-- Layout is not counted. -/
theorem braceDepth_layout (depth : Nat) (text : List Char) :
    braceDepth depth (tokens (text.drop (layoutLength text))) = braceDepth depth (tokens text) := by
  rw [tokens_drop_layout]
  unfold afterGap
  split
  · next heq => rw [heq, braceDepth]
  · rfl

/-- An opening brace outside of commands is counted up. -/
theorem braceDepth_opening :
    braceDepth depth (tokens ('{' :: after)) = braceDepth (depth + 1) (tokens after) := by
  rw [tokens_char (by decide) (by decide), braceDepth, if_pos rfl]

/-- A closing one is counted down, and not below zero. -/
theorem braceDepth_closing :
    braceDepth depth (tokens ('}' :: after)) = braceDepth (depth - 1) (tokens after) := by
  rw [tokens_char (by decide) (by decide), braceDepth, if_neg (by decide), if_pos rfl]

/-- Other characters are not counted … -/
theorem braceDepth_char {c : Char} (hsolid : IsSolid c) (hc : c ∉ ['{', '}', '\\']) :
    braceDepth depth (tokens (c :: after)) = braceDepth depth (tokens after) := by
  obtain ⟨hopening, hclosing, hbackslash⟩ : c ≠ '{' ∧ c ≠ '}' ∧ c ≠ '\\' := by simpa using hc
  rw [tokens_char hsolid hbackslash, braceDepth, if_neg hopening, if_neg hclosing]

/-- … and neither are commands, although some of them are braces after a backslash. -/
theorem braceDepth_command :
    braceDepth depth (tokens ('\\' :: after))
      = braceDepth depth (tokens (after.drop (wordAt after).length)) := by
  rw [tokens_backslash, braceDepth]

end

/-! ## The invariant -/

/-- Without these commands, no name that the reader finds is one of them. -/
theorem Avoids.not_raw {after : List Char} (h : Avoids rawCommands ('\\' :: after)) :
    commandName after = wordAt after ∧ String.ofList (commandName after) ∉ rawCommands ∧
      takesText (String.ofList (commandName after)) = false := by
  have hname : commandName after = wordAt after := h.commandName_eq (by decide)
  rw [hname]
  exact ⟨rfl, h.word, h.takesText_eq_false (by decide) (List.subset_append_right _ _)⟩

/-- The number of groups that the tokens ahead leave open, without the commands that take text as
it stands. -/
def bracesLeft (left : Nat) : GroupInvariant where
  Holds count text := Avoids rawCommands text ∧ braceDepth count (tokens text) = left
  layout h := ⟨h.1.layout, (braceDepth_layout _ _).trans h.2⟩
  opening h := ⟨h.1.char (by decide) (by decide), braceDepth_opening.symm.trans h.2⟩
  closing h := ⟨h.1.char (by decide) (by decide), braceDepth_closing.symm.trans h.2⟩
  stray h := ⟨h.1.char (by decide) (by decide), braceDepth_closing.symm.trans h.2⟩
  char hsolid hc h := by
    obtain ⟨-, -, hbackslash⟩ : _ ≠ '{' ∧ _ ≠ '}' ∧ _ ≠ '\\' := by simpa using hc
    exact ⟨h.1.char hsolid hbackslash, (braceDepth_char hsolid hc).symm.trans h.2⟩
  command h := by
    obtain ⟨hname, -, -⟩ := h.1.not_raw
    rw [hname]
    exact ⟨h.1.command, braceDepth_command.symm.trans h.2⟩
  text h htext := by
    obtain ⟨-, -, hplain⟩ := h.1.not_raw
    exact absurd htext (by simp [hplain])
  name h hname := by
    obtain ⟨-, hraw, -⟩ := h.1.not_raw
    rcases hname with hname | hname
    · exact absurd (by rw [hname]; decide) hraw
    · exact absurd (by rw [hname]; decide) hraw
  environment h hname := by
    obtain ⟨-, hraw, -⟩ := h.1.not_raw
    exact absurd (by rw [hname]; decide) hraw
  height h hname := by
    obtain ⟨-, hraw, -⟩ := h.1.not_raw
    exact absurd (by rw [hname]; decide) hraw
  index h hname := by
    obtain ⟨-, hraw, -⟩ := h.1.not_raw
    exact absurd (by rw [hname]; decide) hraw

/-- **A formula can be read if and only if its braces leave no group open**, where it has none of
the commands that take text as it stands or a group in brackets.  If a group is left open, its
brace is missing at the end of the formula. -/
theorem parse_error_iff_braceDepth {text : String} (h : Avoids rawCommands text.toList) :
    ((∃ e, parse text = .error e) ↔ 0 < braceDepth 0 (tokens text.toList)) ∧
      ∀ e, parse text = .error e → e = ⟨text.utf8ByteSize, .brace⟩ := by
  obtain ⟨hok, herror⟩ :=
    (bracesLeft (braceDepth 0 (tokens text.toList))).parse_cases ⟨h, rfl⟩
  refine ⟨⟨?_, ?_⟩, fun e he => (herror e he).1⟩
  · intro ⟨e, he⟩
    obtain ⟨-, count, -, hleft⟩ := herror e he
    rw [← hleft]
    exact Nat.succ_pos count
  · intro hopen
    cases hparse : parse text with
    | ok formula =>
      obtain ⟨-, hleft⟩ := hok formula hparse
      rw [← hleft] at hopen
      exact absurd hopen (Nat.lt_irrefl 0)
    | error e => exact ⟨e, rfl⟩

/-- The first brace closes nothing, one more is in a comment and two are commands; of the other
three groups one is left open. -/
theorem parse_error_iff_braceDepth_left_region :
    let text := "\x7d\\left\\\x7b \\frac{}\x7ba^ %\x7d\n\\big\\\x7d {b}\\unknown"
    Avoids rawCommands text.toList ∧ braceDepth 0 (tokens text.toList) = 1 ∧
      parse text = .error ⟨41, .brace⟩ := by
  intro text
  have havoids : Avoids rawCommands text.toList := by decide +kernel
  have hdepth : braceDepth 0 (tokens text.toList) = 1 := by decide +kernel
  obtain ⟨hfails, hends⟩ := parse_error_iff_braceDepth havoids
  obtain ⟨e, he⟩ := hfails.mpr (by rw [hdepth]; exact Nat.one_pos)
  refine ⟨havoids, hdepth, ?_⟩
  rw [he, hends e he]
  rfl

end OfficeMath
