import OfficeMath.Proofs.Latex.Items
import OfficeMath.Proofs.Latex.Rounds

/-!
# An unsupported environment ends at its own end

An environment that is not supported is passed over as a text: the reader goes on to an `\end` of
the same name and counts the environments of that name in between.  Other environments are not
counted, whether they match or not, and neither is what only looks like a command: after a double
backslash, `end` is a word.

The bodies for which this works are put together from pieces that can be told from left to right
(`SkippedBody`).  Each of them leaves the count as it is (`SkippedBody.passes`): the pieces of one
round do so at once, and an environment of the same name because its own end undoes its beginning.
So the loop comes to the `\end` behind the body with the count that it began with.

There is one place where a round takes more than its piece.  The star behind `\operatorname` belongs
to the name of the command.  Nothing is lost by that, since the star alone would be passed over, too
(`Reading.passes_word`).
-/

namespace OfficeMath

/-- A text that can stand in braces for the name of an environment, with blanks around it or
without. -/
def Names (name : String) (text : List Char) : Prop :=
  '}' ∉ text ∧ String.ofList (trimBlank text) = name

instance (name : String) (text : List Char) : Decidable (Names name text) :=
  inferInstanceAs (Decidable (_ ∧ _))

/-- The text inside of an environment that does not end it. -/
inductive SkippedBody (name : String) : List Char → Prop
  | nil : SkippedBody name []
  | char {c : Char} {text : List Char} (hc : c ≠ '\\') (more : SkippedBody name text) :
    SkippedBody name (c :: text)
  | symbol {c : Char} {text : List Char} (hc : c.isAlpha = false)
      (more : SkippedBody name text) : SkippedBody name ('\\' :: c :: text)
  | word {letters text : List Char} (hne : letters ≠ []) (hletters : ∀ c ∈ letters, c.isAlpha)
      (hother : letters ≠ "begin".toList ∧ letters ≠ "end".toList)
      (hlongest : ∀ c ∈ text.head?, c.isAlpha = false) (more : SkippedBody name text) :
    SkippedBody name ('\\' :: (letters ++ text))
  | other {command : String} {inBraces text : List Char}
      (hcommand : command = "begin" ∨ command = "end") (hclosing : '}' ∉ inBraces)
      (hname : ¬ Names name inBraces) (more : SkippedBody name text) :
    SkippedBody name (control command ++ '{' :: (inBraces ++ '}' :: text))
  | nested {opening inner closing text : List Char} (hopening : Names name opening)
      (hinner : SkippedBody name inner) (hclosing : Names name closing)
      (more : SkippedBody name text) :
    SkippedBody name (control "begin" ++ '{' :: (opening ++ '}' ::
      (inner ++ (control "end" ++ '{' :: (closing ++ '}' :: text)))))

/-- No word goes on into a command. -/
theorem head_control (name : String) (text tail : List Char) :
    ∀ c ∈ (control name ++ text ++ tail).head?, c.isAlpha = false := by
  intro c hc
  obtain rfl : '\\' = c := by simpa [control] using hc
  decide

/-- What stands before the first mark. -/
theorem before?_append {mark : Char} {text : List Char} (h : mark ∉ text) (tail : List Char) :
    before? mark (text ++ mark :: tail) = some text := by
  induction text with
  | nil => simp [before?]
  | cons c text ih =>
    obtain ⟨hc, htext⟩ : mark ≠ c ∧ mark ∉ text := by simpa using h
    rw [List.cons_append, before?, if_neg (Ne.symm hc), ih htext]
    rfl

namespace Reading

variable {name : String} {depth middle next : Nat} {front back text tail : List Char}

/-! ## One round -/

/-- A name in braces. -/
theorem takes_name {inBraces : List Char} (h : '}' ∉ inBraces) (tail : List Char) :
    environmentName?.Takes ('{' :: (inBraces ++ ['}']))
      (some (String.ofList (trimBlank inBraces))) tail := by
  have hbraces : (through? '}').Takes (inBraces ++ ['}']) (some inBraces) tail := by
    apply Takes.rest
    rw [List.append_assoc, List.singleton_append, before?_append h]
    exact .advanceLast (by simp) (.pure _ _)
  refine .layout (layoutLength_cons (by decide) (by decide) _) (.rest ?_)
  exact .cons (.last hbraces (.pure _ _))

/-- Any character but a backslash. -/
theorem takes_skipRound_char {c : Char} (hc : c ≠ '\\') (name : String) (depth : Nat)
    (tail : List Char) : (skipRound name depth).Takes [c] (.again depth) tail := by
  refine .rest (.cons ?_)
  rw [if_neg hc]
  exact .pure _ _

/-- A command other than `\begin` and `\end`. -/
theorem takes_skipRound_command {command : List Char}
    (hname : commandName (command ++ tail) = command)
    (hother : command ≠ "begin".toList ∧ command ≠ "end".toList) (name : String) (depth : Nat) :
    (skipRound name depth).Takes ('\\' :: command) (.again depth) tail := by
  have hname' : commandName (command.append tail) = command := hname
  refine .rest (.cons ?_)
  rw [if_pos rfl]
  dsimp only
  rw [hname']
  refine .advanceLast rfl ?_
  rw [if_neg hother.1, if_neg hother.2]
  exact .pure _ _

/-- The name of a command with braces after it. -/
theorem commandName_braces {command : String} (hcommand : IsWord command)
    (inBraces tail : List Char) :
    commandName ((command.toList.append ('{' :: (inBraces ++ ['}']))).append tail)
      = command.toList := by
  have hsplit : (command.toList.append ('{' :: (inBraces ++ ['}']))).append tail
      = command.toList ++ '{' :: (inBraces ++ ['}'] ++ tail) := by
    simp
  rw [hsplit]
  exact commandName_word hcommand (endsName_brace _)

/-- A `\begin` of the same name opens one more environment. -/
theorem takes_skipRound_begin {opening : List Char} (h : Names name opening) (depth : Nat)
    (tail : List Char) :
    (skipRound name depth).Takes (control "begin" ++ '{' :: (opening ++ ['}'])) (.again (depth + 1))
      tail := by
  refine .rest (.cons ?_)
  rw [if_pos rfl]
  dsimp only
  rw [commandName_braces (by decide)]
  refine .advance rfl ?_
  rw [if_pos rfl]
  refine .last (takes_name h.1 tail) ?_
  rw [if_pos (congrArg some h.2)]
  exact .pure _ _

/-- An `\end` of the same name closes one that is open … -/
theorem takes_skipRound_end {closing : List Char} (h : Names name closing) (depth : Nat)
    (tail : List Char) :
    (skipRound name (depth + 1)).Takes (control "end" ++ '{' :: (closing ++ ['}'])) (.again depth)
      tail := by
  refine .rest (.cons ?_)
  rw [if_pos rfl]
  dsimp only
  rw [commandName_braces (by decide)]
  refine .advance rfl ?_
  rw [if_neg (by decide), if_pos rfl]
  refine .last (takes_name h.1 tail) ?_
  rw [if_pos (congrArg some h.2)]
  exact .pure _ _

/-- … or else the one that is passed over. -/
theorem takes_skipRound_last {closing : List Char} (h : Names name closing) (tail : List Char) :
    (skipRound name 0).Takes (control "end" ++ '{' :: (closing ++ ['}'])) (.leave ()) tail := by
  refine .rest (.cons ?_)
  rw [if_pos rfl]
  dsimp only
  rw [commandName_braces (by decide)]
  refine .advance rfl ?_
  rw [if_neg (by decide), if_pos rfl]
  refine .last (takes_name h.1 tail) ?_
  rw [if_pos (congrArg some h.2)]
  exact .pure _ _

/-- Neither of them counts if it has another name. -/
theorem takes_skipRound_other {command : String} (hcommand : command = "begin" ∨ command = "end")
    {inBraces : List Char} (h : '}' ∉ inBraces) (hname : ¬ Names name inBraces) (depth : Nat)
    (tail : List Char) :
    (skipRound name depth).Takes (control command ++ '{' :: (inBraces ++ ['}'])) (.again depth)
      tail := by
  have hfound : some (String.ofList (trimBlank inBraces)) ≠ some name :=
    fun heq => hname ⟨h, Option.some.inj heq⟩
  refine .rest (.cons ?_)
  rw [if_pos rfl]
  dsimp only
  rcases hcommand with rfl | rfl
  · rw [commandName_braces (by decide)]
    refine .advance rfl ?_
    rw [if_pos rfl]
    refine .last (takes_name h tail) ?_
    rw [if_neg hfound]
    exact .pure _ _
  · rw [commandName_braces (by decide)]
    refine .advance rfl ?_
    rw [if_neg (by decide), if_pos rfl]
    refine .last (takes_name h tail) ?_
    rw [if_neg hfound]
    exact .pure _ _

/-! ## Several rounds -/

/-- The loop passes over a text, and the number of open environments changes as given. -/
def Passes (name : String) (depth : Nat) (text tail : List Char) (next : Nat) : Prop :=
  ∀ s : Scan, s.rest = text ++ tail →
    skipLoop name depth s = skipLoop name next (s.advance text.length)

namespace Passes

theorem nil : Passes name depth [] tail depth := by
  intro s _
  rw [List.length_nil, Scan.advance_zero]

/-- One round that is followed by another one. -/
theorem round (h : (skipRound name depth).Takes text (.again next) tail) :
    Passes name depth text tail next := by
  intro s hs
  have hrounds := congrFun ((movesOn_skip name).rounds depth) s
  rw [hrounds, run_bind_ok (h s hs)]
  rfl

/-- One text after the other. -/
theorem append (first : Passes name depth front (back ++ tail) middle)
    (second : Passes name middle back tail next) : Passes name depth (front ++ back) tail next := by
  intro s hs
  have hfront : s.rest = front ++ (back ++ tail) := by rw [hs, List.append_assoc]
  rw [first s hfront, second _ (Takes.rest_advance hfront), Scan.advance_add, List.length_append]

end Passes

/-- A word is passed over, although the round may take a star behind it, too. -/
theorem passes_word {letters rest : List Char} (hne : letters ≠ [])
    (hletters : ∀ c ∈ letters, c.isAlpha)
    (hother : letters ≠ "begin".toList ∧ letters ≠ "end".toList)
    (hlongest : ∀ c ∈ rest.head?, c.isAlpha = false) :
    Passes name depth ('\\' :: letters) rest depth := by
  rcases commandName_letters hne hletters hlongest with hname | ⟨after, rfl, -, hname⟩
  · exact .round (takes_skipRound_command hname hother name depth)
  · have hstarred : letters ++ ['*'] ≠ "begin".toList ∧ letters ++ ['*'] ≠ "end".toList := by
      constructor
      · intro heq
        exact absurd (congrArg List.getLast? heq) (by simp)
      · intro heq
        exact absurd (congrArg List.getLast? heq) (by simp)
    have hname' : commandName (letters ++ ['*'] ++ after) = letters ++ ['*'] := by
      rw [List.append_assoc]
      exact hname
    have htaken := Passes.round (takes_skipRound_command hname' hstarred name depth)
    have hstar := Passes.round (takes_skipRound_char (show '*' ≠ '\\' by decide) name depth after)
    intro s hs
    -- both ways lead behind the star
    have hrest : (s.advance ('\\' :: letters).length).rest = ['*'] ++ after :=
      Takes.rest_advance hs
    rw [htaken s (by rw [hs]; simp), hstar _ hrest, Scan.advance_add]
    simp

end Reading

open Reading in
/-- **The count is the same behind the body.**  Whatever follows it does not go on with a word. -/
theorem SkippedBody.passes {name : String} {body : List Char} (h : SkippedBody name body)
    (depth : Nat) {tail : List Char} (htail : ∀ c ∈ tail.head?, c.isAlpha = false) :
    Passes name depth body tail depth := by
  induction h generalizing depth tail with
  | nil => exact .nil
  | @char c text hc more ih =>
    exact .append (.round (takes_skipRound_char hc name depth (text ++ tail))) (ih depth htail)
  | @symbol c text hc more ih =>
    have hname : commandName ([c] ++ (text ++ tail)) = [c] := commandName_cons hc _
    have hother : [c] ≠ "begin".toList ∧ [c] ≠ "end".toList := by simp
    exact .append (.round (takes_skipRound_command hname hother name depth)) (ih depth htail)
  | @word letters text hne hletters hother hlongest more ih =>
    have hrest : ∀ c ∈ (text ++ tail).head?, c.isAlpha = false := by
      cases text with
      | nil => exact htail
      | cons c text => exact hlongest
    exact .append (passes_word hne hletters hother hrest) (ih depth htail)
  | @other command inBraces text hcommand hclosing hname more ih =>
    have hround := takes_skipRound_other hcommand hclosing hname depth (text ++ tail)
    have hsplit : control command ++ '{' :: (inBraces ++ '}' :: text)
        = control command ++ '{' :: (inBraces ++ ['}']) ++ text := by simp
    rw [hsplit]
    exact .append (.round hround) (ih depth htail)
  | @nested opening inner closing text hopening hinner hclosing more ihinner ihmore =>
    let finish := control "end" ++ '{' :: (closing ++ ['}'])
    have hend : ∀ c ∈ (finish ++ (text ++ tail)).head?, c.isAlpha = false := head_control _ _ _
    have hbegin := takes_skipRound_begin hopening depth (inner ++ (finish ++ (text ++ tail)))
    have hclose := takes_skipRound_end hclosing depth (text ++ tail)
    have hsplit : control "begin" ++ '{' :: (opening ++ '}' ::
        (inner ++ (control "end" ++ '{' :: (closing ++ '}' :: text))))
        = control "begin" ++ '{' :: (opening ++ ['}']) ++ (inner ++ (finish ++ text)) := by
      simp [finish]
    rw [hsplit]
    have hrest : inner ++ (finish ++ text) ++ tail = inner ++ (finish ++ (text ++ tail)) := by simp
    have hrest' : finish ++ text ++ tail = finish ++ (text ++ tail) := by simp
    have hopened : Passes name depth (control "begin" ++ '{' :: (opening ++ ['}']))
        (inner ++ (finish ++ text) ++ tail) (depth + 1) := .round (hrest ▸ hbegin)
    have hbody : Passes name (depth + 1) inner (finish ++ text ++ tail) (depth + 1) :=
      hrest' ▸ ihinner (depth + 1) hend
    exact .append hopened (.append hbody (.append (.round hclose) (ihmore depth htail)))

/-- **An unsupported environment is dropped up to its own end.**  The reader takes its name, its body
and the `\end` behind it, and stops right there, whatever comes next.  There is no expression, and
the one note says that the environment is not supported. -/
theorem Reading.environment_skips {name : String} {opening body closing : List Char}
    (hopening : Names name opening) (hunsupported : Environment.ofName? name = none)
    (hbody : SkippedBody name body) (hclosing : Names name closing) (rest : List Char) {s : Scan}
    (hs : s.rest = '{' :: (opening ++ '}' ::
      (body ++ (control "end" ++ '{' :: (closing ++ '}' :: rest))))) :
    ∃ t, Reading.alone Reading.environment s = .ok none t ∧ t.rest = rest ∧
      t.notes = .unsupportedEnvironment name :: s.notes := by
  let finish := control "end" ++ '{' :: (closing ++ ['}'])
  have hsplit : s.rest = '{' :: (opening ++ ['}']) ++ (body ++ (finish ++ rest)) := by
    rw [hs]
    simp [finish]
  let named := s.advance ('{' :: (opening ++ ['}'])).length
  let noted : Scan := { named with notes := .unsupportedEnvironment name :: s.notes }
  have hname : environmentName? s = .ok (some name) named := by
    rw [← hopening.2]
    exact takes_name hopening.1 _ s hsplit
  have hnoted : noted.rest = body ++ (finish ++ rest) := Takes.rest_advance hsplit
  have hend : ∀ c ∈ (finish ++ rest).head?, c.isAlpha = false := head_control _ _ _
  let behind := noted.advance body.length
  have hbehind : behind.rest = finish ++ rest := Takes.rest_advance hnoted
  have hskip : skipEnvironment name noted = .ok () (behind.advance finish.length) := by
    have hrounds := congrFun ((movesOn_skip name).rounds 0) behind
    calc skipEnvironment name noted
        = skipLoop name 0 noted := rfl
      _ = skipLoop name 0 behind := hbody.passes 0 hend noted hnoted
      _ = (skipRound name 0 >>= after (skipLoop name)) behind := hrounds
      _ = .ok () (behind.advance finish.length) := by
        rw [run_bind_ok (takes_skipRound_last hclosing rest behind hbehind)]
        rfl
  refine ⟨behind.advance finish.length, ?_, Takes.rest_advance hbehind, rfl⟩
  rw [Nested.run_alone]
  unfold environment
  rw [run_bind_ok hname]
  dsimp only
  rw [hunsupported]
  exact (run_bind_ok (run_note _ _)).trans (run_bind_ok hskip)

/-- After a double backslash `end` is a word, and the name of the inner end has blanks around it. -/
theorem Reading.environment_skips_inner_end :
    ∃ t, Reading.alone Reading.environment (Scan.start
        "\x7by\x7d\\\\end\x7by\x7d\\begin\x7by\x7d\\operatorname*\\end\x7b y \x7d\\end\x7by\x7d+1")
        = .ok none t ∧
      t.rest = "+1".toList ∧ t.notes = [.unsupportedEnvironment "y"] := by
  have hname : Names "y" ['y'] := by decide
  have hpadded : Names "y" [' ', 'y', ' '] := by decide
  have hstar : SkippedBody "y" ['*'] := .char (by decide) .nil
  have hword : IsWord "operatorname" := by decide
  have hlongest : ∀ c ∈ ['*'].head?, c.isAlpha = false := by simp
  have hinner : SkippedBody "y" (control "operatorname" ++ ['*']) :=
    .word (by decide) hword.2 (by decide) hlongest hstar
  have hbody : SkippedBody "y"
      "\\\\end\x7by\x7d\\begin\x7by\x7d\\operatorname*\\end\x7b y \x7d".toList := by
    refine .symbol (by decide) ?_
    iterate 6 refine .char (by decide) ?_
    exact .nested hname hinner hpadded .nil
  exact environment_skips hname (by decide) hbody hname "+1".toList rfl

end OfficeMath
