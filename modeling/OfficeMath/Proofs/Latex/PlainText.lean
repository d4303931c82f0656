import OfficeMath.Proofs.Latex.Rounds
import OfficeMath.Proofs.Latex.Takes

/-!
# What plain text says

The argument of `\text` and its kin is collected by a loop that looks at braces, backslashes, ties
and blanks.  Here it is described without the loop, in the two ways in which a text may be written.

* With a backslash before each of its characters but the letters (`escaped`), a text is taken
  literally, whatever it consists of: no character means anything but itself.
* Without any backslash it is what remains when the braces are deleted, each run of blanks becomes
  one space and each tie becomes a no-break space, in this order (`plainText`).  So blanks on both
  sides of a brace are one run, and the no-break space of a tie is no blank of any run, whereas one
  that stands in the text is.

The second way falls into two parts that have nothing to do with each other.  The braces only
decide where the text ends (`BracesBalanced`), and the other characters are collected one by one
(`collect`).  The collected text shows all that matters about the last character: it ends in a
space if and only if this character was a blank.
-/

namespace OfficeMath

/-! ## The text that is meant -/

/-- A text with a backslash before each character but the letters. -/
def escaped (text : List Char) : List Char :=
  text.flatMap fun c => if c.isAlpha then [c] else ['\\', c]

/-- A text in which each run of blanks has become one space. -/
def collapseBlanks : List Char → List Char
  | [] => []
  | c :: rest =>
    if isBlank c then ' ' :: collapseBlanks (rest.dropWhile isBlank) else c :: collapseBlanks rest
termination_by text => text.length
decreasing_by
  · have hle := (List.dropWhile_suffix (p := isBlank) (l := rest)).length_le
    simp only [List.length_cons]
    omega
  · simp

/-- A tie is a no-break space. -/
def untie (c : Char) : Char := if c = '~' then '\u00a0' else c

/-- A text without its braces, with single spaces and with its ties untied. -/
def plainText (text : List Char) : List Char :=
  (collapseBlanks (text.filter fun c => c ≠ '{' && c ≠ '}')).map untie

/-- The braces of a text that stands inside of `depth` braces are balanced. -/
structure BracesBalanced (depth : Nat) (text : List Char) : Prop where
  /-- No part at the start of the text closes more braces than are open. -/
  sane : ∀ front, front <+: text → front.count '}' ≤ front.count '{' + depth
  /-- In the end all braces are closed. -/
  settled : text.count '}' = text.count '{' + depth

/-- It is enough to look at as many beginnings of a text as it has characters. -/
instance (depth : Nat) (text : List Char) : Decidable (BracesBalanced depth text) :=
  decidable_of_iff
    ((∀ n < text.length + 1, (text.take n).count '}' ≤ (text.take n).count '{' + depth) ∧
      text.count '}' = text.count '{' + depth)
    ⟨fun h => ⟨fun front hfront => by
        rw [List.prefix_iff_eq_take.mp hfront]
        exact h.1 _ (Nat.lt_succ_of_le hfront.length_le), h.2⟩,
      fun h => ⟨fun n _ => h.sane _ (List.take_prefix n text), h.settled⟩⟩

namespace BracesBalanced

variable {depth : Nat} {text : List Char}

/-- What begins a text begins it with one more character before it. -/
theorem sane_cons {c : Char} (h : BracesBalanced depth (c :: text)) {front : List Char}
    (hfront : front <+: text) : (c :: front).count '}' ≤ (c :: front).count '{' + depth :=
  h.sane (c :: front) (List.cons_prefix_cons.mpr ⟨rfl, hfront⟩)

/-- Behind an opening brace one more brace is open. -/
theorem opening (h : BracesBalanced depth ('{' :: text)) : BracesBalanced (depth + 1) text where
  sane front hfront := by
    have hsane := h.sane_cons hfront
    simp only [List.count_cons_self, List.count_cons_of_ne (show '{' ≠ '}' by decide)] at hsane
    omega
  settled := by
    have hsettled := h.settled
    simp only [List.count_cons_self, List.count_cons_of_ne (show '{' ≠ '}' by decide)] at hsettled
    omega

/-- A closing brace closes one that is open. -/
theorem closing (h : BracesBalanced depth ('}' :: text)) :
    ∃ outer, depth = outer + 1 ∧ BracesBalanced outer text := by
  have hpositive := h.sane_cons (List.nil_prefix)
  simp only [List.count_cons_self, List.count_cons_of_ne (show '}' ≠ '{' by decide),
    List.count_nil] at hpositive
  obtain ⟨outer, rfl⟩ : ∃ outer, depth = outer + 1 := ⟨depth - 1, by omega⟩
  refine ⟨outer, rfl, fun front hfront => ?_, ?_⟩
  · have hsane := h.sane_cons hfront
    simp only [List.count_cons_self, List.count_cons_of_ne (show '}' ≠ '{' by decide)] at hsane
    omega
  · have hsettled := h.settled
    simp only [List.count_cons_self, List.count_cons_of_ne (show '}' ≠ '{' by decide)] at hsettled
    omega

/-- A character that is no brace does not count. -/
theorem char {c : Char} (hopening : c ≠ '{') (hclosing : c ≠ '}')
    (h : BracesBalanced depth (c :: text)) : BracesBalanced depth text where
  sane front hfront := by
    have hsane := h.sane_cons hfront
    rwa [List.count_cons_of_ne hclosing, List.count_cons_of_ne hopening] at hsane
  settled := by
    have hsettled := h.settled
    rwa [List.count_cons_of_ne hclosing, List.count_cons_of_ne hopening] at hsettled

/-- A text without braces is balanced. -/
theorem of_not_mem (hopening : '{' ∉ text) (hclosing : '}' ∉ text) : BracesBalanced 0 text where
  sane front hfront := by
    rw [List.count_eq_zero.mpr fun hmem => hclosing (hfront.subset hmem)]
    exact Nat.zero_le _
  settled := by
    rw [List.count_eq_zero.mpr hclosing, List.count_eq_zero.mpr hopening]

/-- At the end of the text no brace is open. -/
theorem depth_eq_zero (h : BracesBalanced depth []) : depth = 0 := by
  have hsettled := h.settled
  simp only [List.count_nil] at hsettled
  omega

end BracesBalanced

/-! ## Characters that are neither braces nor backslashes -/

/-- Add a character to what has been collected, the last character first. -/
def collect (text : List Char) (c : Char) : List Char :=
  if c = '~' then '\u00a0' :: text
  else if isBlank c then if text.head? = some ' ' then text else ' ' :: text
  else c :: text

/-- A letter is neither a brace nor a backslash. -/
theorem plain_of_isAlpha {c : Char} (h : c.isAlpha) : c ∉ ['{', '}', '\\'] := by
  intro hmem
  have hmarks : ∀ c ∈ ['{', '}', '\\'], c.isAlpha = false := by decide
  rw [hmarks c hmem] at h
  cases h

/-- A letter is collected as it is. -/
theorem collect_of_isAlpha {c : Char} (h : c.isAlpha) (text : List Char) :
    collect text c = c :: text := by
  have htie : c ≠ '~' := by
    rintro rfl
    exact absurd h (by decide)
  have hblank : isBlank c = false := isBlank_eq_false (.inl (isAlphabetic_of_isAlpha h))
  rw [collect, if_neg htie, if_neg (by simp [hblank])]

/-- Any character but the blanks is collected as it is, and a tie as a no-break space. -/
theorem collect_of_not_blank {c : Char} (hblank : isBlank c = false) (text : List Char) :
    collect text c = untie c :: text := by
  unfold collect untie
  split
  · rfl
  · rw [if_neg (by simp [hblank])]

/-- What is still to be collected.  Behind a space the blanks ahead belong to its run. -/
def remaining (text ahead : List Char) : List Char :=
  collapseBlanks (if text.head? = some ' ' then ahead.dropWhile isBlank else ahead)

/-- A blank begins a run or goes on with one. -/
theorem remaining_blank {c : Char} (hblank : isBlank c) (text ahead : List Char) :
    ((remaining (collect text c) ahead).map untie).reverse ++ collect text c
      = ((remaining text (c :: ahead)).map untie).reverse ++ text := by
  have htie : c ≠ '~' := by
    rintro rfl
    exact absurd hblank (by decide)
  by_cases hspace : text.head? = some ' '
  · have hcollect : collect text c = text := by
      rw [collect, if_neg htie, if_pos hblank, if_pos hspace]
    rw [hcollect, remaining, remaining, if_pos hspace, if_pos hspace,
      List.dropWhile_cons_of_pos hblank]
  · have hcollect : collect text c = ' ' :: text := by
      rw [collect, if_neg htie, if_pos hblank, if_neg hspace]
    have hrun : (' ' :: text).head? = some ' ' := rfl
    rw [hcollect, remaining, remaining, if_pos hrun, if_neg hspace, collapseBlanks, if_pos hblank]
    simp [untie]

/-- Any other character is added, and it ends the run before it. -/
theorem remaining_char {c : Char} (hblank : isBlank c = false) (text ahead : List Char) :
    ((remaining (collect text c) ahead).map untie).reverse ++ collect text c
      = ((remaining text (c :: ahead)).map untie).reverse ++ text := by
  have hcollect : collect text c = untie c :: text := collect_of_not_blank hblank text
  have hspace : (collect text c).head? ≠ some ' ' := by
    have hne : c ≠ ' ' := by
      rintro rfl
      exact absurd hblank (by decide)
    rw [hcollect]
    unfold untie
    split
    · simp
    · simpa using hne
  have hrun : (if text.head? = some ' ' then (c :: ahead).dropWhile isBlank else c :: ahead)
      = c :: ahead := by
    rw [List.dropWhile_cons_of_neg (by simp [hblank]), ite_self]
  rw [remaining, if_neg hspace, hcollect, remaining, hrun, collapseBlanks,
    if_neg (by simp [hblank])]
  simp

/-- All that is collected, one character after the other. -/
theorem foldl_collect (ahead text : List Char) :
    ahead.foldl collect text = ((remaining text ahead).map untie).reverse ++ text := by
  induction ahead generalizing text with
  | nil =>
    have hnil : remaining text [] = [] := by simp [remaining, collapseBlanks]
    rw [hnil]
    rfl
  | cons c ahead ih =>
    rw [List.foldl_cons, ih]
    by_cases hblank : isBlank c
    · exact remaining_blank hblank text ahead
    · exact remaining_char (by simpa using hblank) text ahead

namespace Reading

/-! ## Rounds -/

variable {depth : Nat} {text tail : List Char}

/-- A round that is followed by another one. -/
theorem takes_textLoop {state next : OpenText} {front back : List Char} {result : String}
    (hround : (textRound state).Takes front (.again next) (back ++ tail))
    (hmore : (textLoop next).Takes back result tail) :
    (textLoop state).Takes (front ++ back) result tail := by
  rw [movesOn_text.rounds]
  exact .bind hround hmore

/-- A round that takes one character and is followed by another one. -/
theorem takes_textLoop_cons {state next : OpenText} {c : Char} {back : List Char} {result : String}
    (hround : (textRound state).Takes [c] (.again next) (back ++ tail))
    (hmore : (textLoop next).Takes back result tail) :
    (textLoop state).Takes (c :: back) result tail :=
  takes_textLoop hround hmore

/-- The brace that closes the argument. -/
theorem takes_textLoop_end (text tail : List Char) :
    (textLoop ⟨0, text⟩).Takes ['}'] (String.ofList text.reverse) tail := by
  rw [movesOn_text.rounds]
  have hround : (textRound ⟨0, text⟩).Takes ['}'] (.leave (String.ofList text.reverse)) tail := by
    refine .rest (.offset fun _ => .cons ?_)
    rw [if_pos rfl]
    exact .pure _ _
  exact .last hround (.pure _ _)

/-- A brace that closes an inner one is dropped. -/
theorem takes_textRound_closing (depth : Nat) (text tail : List Char) :
    (textRound ⟨depth + 1, text⟩).Takes ['}'] (.again ⟨depth, text⟩) tail := by
  refine .rest (.offset fun _ => .cons ?_)
  rw [if_pos rfl]
  exact .pure _ _

/-- An opening brace is dropped and counted. -/
theorem takes_textRound_opening (depth : Nat) (text tail : List Char) :
    (textRound ⟨depth, text⟩).Takes ['{'] (.again ⟨depth + 1, text⟩) tail := by
  refine .rest (.offset fun _ => .cons ?_)
  rw [if_neg (by decide), if_pos rfl]
  exact .pure _ _

/-- A character after a backslash stands for itself unless it is a letter. -/
theorem takes_textRound_escaped {c : Char} (hletter : c.isAlpha = false) (depth : Nat)
    (text tail : List Char) :
    (textRound ⟨depth, text⟩).Takes ['\\', c] (.again ⟨depth, c :: text⟩) tail := by
  have hname : commandName ([c].append tail) = [c] := commandName_cons hletter tail
  refine .rest (.offset fun _ => .cons ?_)
  rw [if_neg (by decide), if_neg (by decide), if_neg (by decide), if_pos rfl]
  dsimp only
  rw [hname]
  refine .cons ?_
  dsimp only
  rw [if_neg (by simp [hletter])]
  exact .pure _ _

/-- Any other character is collected. -/
theorem takes_textRound_collect {c : Char} (hc : c ∉ ['{', '}', '\\']) (depth : Nat)
    (text tail : List Char) :
    (textRound ⟨depth, text⟩).Takes [c] (.again ⟨depth, collect text c⟩) tail := by
  obtain ⟨hopening, hclosing, hbackslash⟩ : c ≠ '{' ∧ c ≠ '}' ∧ c ≠ '\\' := by simpa using hc
  refine .rest (.offset fun _ => .cons ?_)
  rw [if_neg hclosing, if_neg hopening]
  by_cases htie : c = '~'
  · rw [if_pos htie, collect, if_pos htie]
    exact .pure _ _
  rw [if_neg htie, if_neg hbackslash, collect, if_neg htie]
  split
  · exact .pure _ _
  · exact .pure _ _

/-! ## The loop -/

/-- A text with its backslashes is collected as it is. -/
theorem takes_textLoop_escaped (word text tail : List Char) :
    (textLoop ⟨0, text⟩).Takes (escaped word ++ ['}']) (String.ofList (text.reverse ++ word))
      tail := by
  induction word generalizing text with
  | nil =>
    rw [List.append_nil]
    exact takes_textLoop_end text tail
  | cons c word ih =>
    have hmore := ih (c :: text)
    rw [List.reverse_cons, List.append_assoc, List.singleton_append] at hmore
    by_cases hletter : c.isAlpha
    · have hescaped : escaped (c :: word) = c :: escaped word := by simp [escaped, hletter]
      have hround := takes_textRound_collect (plain_of_isAlpha hletter) 0 text
        (escaped word ++ ['}'] ++ tail)
      rw [collect_of_isAlpha hletter] at hround
      rw [hescaped]
      exact takes_textLoop_cons hround hmore
    · have hescaped : escaped (c :: word) = ['\\', c] ++ escaped word := by
        simp [escaped, hletter]
      rw [hescaped, List.append_assoc]
      exact takes_textLoop (takes_textRound_escaped (by simpa using hletter) 0 text _) hmore

/-- A text without backslashes is collected up to the brace that closes it, without its braces. -/
theorem takes_textLoop_balanced {inside : List Char} (hbackslash : '\\' ∉ inside)
    (hbraces : BracesBalanced depth inside) (text tail : List Char) :
    (textLoop ⟨depth, text⟩).Takes (inside ++ ['}'])
      (String.ofList ((inside.filter fun c => c ≠ '{' && c ≠ '}').foldl collect text).reverse)
      tail := by
  induction inside generalizing depth text with
  | nil =>
    obtain rfl := hbraces.depth_eq_zero
    exact takes_textLoop_end text tail
  | cons c inside ih =>
    obtain ⟨hc, hinside⟩ : '\\' ≠ c ∧ '\\' ∉ inside := by simpa using hbackslash
    by_cases hopening : c = '{'
    · subst hopening
      exact takes_textLoop_cons (takes_textRound_opening depth text _)
        (ih hinside hbraces.opening text)
    by_cases hclosing : c = '}'
    · subst hclosing
      obtain ⟨outer, rfl, houter⟩ := hbraces.closing
      exact takes_textLoop_cons (takes_textRound_closing outer text _) (ih hinside houter text)
    · have hplain : c ∉ ['{', '}', '\\'] := by simp [hopening, hclosing, Ne.symm hc]
      have hkept : (c :: inside).filter (fun c => c ≠ '{' && c ≠ '}')
          = c :: inside.filter fun c => c ≠ '{' && c ≠ '}' := by simp [hopening, hclosing]
      rw [hkept, List.foldl_cons]
      exact takes_textLoop_cons (takes_textRound_collect hplain depth text _)
        (ih hinside (hbraces.char hopening hclosing) (collect text c))

/-- An argument in braces is the loop from its opening brace on. -/
theorem takes_textArgument {inside : List Char} {result : String}
    (h : (textLoop ⟨0, []⟩).Takes inside result tail) :
    textArgument.Takes ('{' :: inside) result tail := by
  have hloop : (textFrom (inside ++ tail).length 0 []).Takes inside result tail := by
    intro s hs
    rw [← hs]
    exact h s hs
  refine .layout (layoutLength_cons (by decide) (by decide) _) (.rest (.cons ?_))
  rw [if_pos rfl]
  exact hloop

/-- **Plain text says what is written.**  With a backslash before each character but the letters,
any text is returned as it is.  A text without backslashes in which the braces are balanced is
returned without its braces, then with one space for each run of blanks, and then with a no-break
space for each tie.  Either way the argument ends at its closing brace, whatever comes after it,
and nothing is noted. -/
theorem textArgument_captures (word text : String) (rest : List Char) :
    textArgument.Takes ('{' :: (escaped word.toList ++ ['}'])) word rest ∧
      ('\\' ∉ text.toList → BracesBalanced 0 text.toList →
        textArgument.Takes ('{' :: (text.toList ++ ['}'])) (String.ofList (plainText text.toList))
          rest) := by
  constructor
  · have hloop := takes_textLoop_escaped word.toList [] rest
    rw [List.reverse_nil, List.nil_append, String.ofList_toList] at hloop
    exact takes_textArgument hloop
  · intro hbackslash hbraces
    have hloop := takes_textLoop_balanced hbackslash hbraces [] rest
    rw [foldl_collect, List.append_nil, List.reverse_reverse] at hloop
    exact takes_textArgument hloop

/-- Blanks around a brace and around a tie, a percent sign, and a text that is all marks. -/
theorem textArgument_captures_marks :
    '\\' ∉ "50 %\t\x7b of\x7d ~ \x7b\x7b\x7d\x7da".toList ∧
      BracesBalanced 0 "50 %\t\x7b of\x7d ~ \x7b\x7b\x7d\x7da".toList ∧
      textArgument.Takes "\x7b\\\x7b\\~\\ \\\\x\\\x7d\x7d".toList "\x7b~ \\x\x7d" ['}'] ∧
      textArgument.Takes "\x7b50 %\t\x7b of\x7d ~ \x7b\x7b\x7d\x7da\x7d".toList
        "50 % of \u00a0 a" ['}'] := by
  have hbackslash : '\\' ∉ "50 %\t\x7b of\x7d ~ \x7b\x7b\x7d\x7da".toList := by decide
  have hbraces : BracesBalanced 0 "50 %\t\x7b of\x7d ~ \x7b\x7b\x7d\x7da".toList := by decide
  have hplain : String.ofList (plainText "50 %\t\x7b of\x7d ~ \x7b\x7b\x7d\x7da".toList)
      = "50 % of \u00a0 a" := by decide +kernel
  obtain ⟨hword, hcaptured⟩ := textArgument_captures "\x7b~ \\x\x7d"
    "50 %\t\x7b of\x7d ~ \x7b\x7b\x7d\x7da" ['}']
  have htext := hcaptured hbackslash hbraces
  rw [hplain] at htext
  exact ⟨hbackslash, hbraces, hword, htext⟩

end Reading

end OfficeMath
