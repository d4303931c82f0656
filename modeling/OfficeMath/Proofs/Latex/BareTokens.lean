import OfficeMath.Proofs.Latex.CommandNames
import OfficeMath.Proofs.Latex.Constructions
import OfficeMath.Proofs.Latex.ScriptOrder

/-!
# Tokens as arguments

An argument is a group in braces or a single token.  Without braces it is read as a base alone, or
as a single digit; within them it is an item of a sequence, with layout, scripts and a number in
full.  So the two readings have little in common, and for a token they agree because nothing but
the closing brace follows it in the group.

* `IsToken` — the tokens, by their spelling alone;
* `EndsToken` — what follows a token and does not go on with it;
* `exists_base_of_token` — what a token stands for, as a base, as an argument and as a superscript;
* `takes_token` — it stands for the same in braces.
-/

namespace OfficeMath

open Nested (unbounded)

/-! ## Tokens -/

/-- What a command without arguments stands for. -/
def Command.leaf? : Command → Option Base
  | .symbol kind glyph => some ⟨.symbol kind glyph, kind.limits glyph⟩
  | .identifier text => some (.side (.identifier text))
  | .operatorName name place => some ⟨.operatorName name, place⟩
  | .space width => some (.side (.space width))
  | _ => none

/-- A token: a digit, a letter, a tie, a run of apostrophes, a sign, any other character beyond
ASCII, or a command without arguments. -/
inductive IsToken : List Char → Prop
  | digit {c : Char} (h : c.isDigit) : IsToken [c]
  | letter {c : Char} (h : isAlphabetic c) : IsToken [c]
  | tie : IsToken ['~']
  | primes {count : Nat} (h : count ≠ 0) : IsToken (List.replicate count '\x27')
  | sign {c : Char} (h : (characterSymbol? c).isSome ∨ (delimiterCharacter? c).isSome) :
    IsToken [c]
  | other {c : Char} (h : 0x80 ≤ c.toNat) (hblank : isBlank c = false) : IsToken [c]
  | command {name : String} {found : Command} (h : command? name = some found)
      (hleaf : found.leaf?.isSome) : IsToken (control name)
  | delimiter {name : String} (h : (delimiterCommand? name).isSome) : IsToken (control name)

/-- What follows a token and does not go on with it. -/
structure EndsToken (token rest : List Char) : Prop where
  /-- No letter follows the name of a command that consists of letters. -/
  name : ∀ {letter more}, token = '\\' :: letter :: more → letter.isAlpha →
    ∀ c ∈ rest.head?, c.isAlpha = false
  primes : token.head? = some '\x27' → rest.head? ≠ some '\x27'
  /-- No digit follows a dot. -/
  dot : token = ['.'] → ∀ c ∈ rest.head?, c.isDigit = false

/-- A closing brace ends every token. -/
theorem endsToken_brace (token rest : List Char) : EndsToken token ('}' :: rest) := by
  have hbrace {p : Char → Prop} (h : p '}') : ∀ c ∈ ('}' :: rest).head?, p c := by
    intro c hc
    obtain rfl : '}' = c := by simpa using hc
    exact h
  exact ⟨fun _ _ => hbrace (by decide), fun _ => by simp, fun _ => hbrace (by decide)⟩

/-- A token in braces. -/
def inBraces (token : List Char) : List Char := '{' :: (token ++ ['}'])

/-! ## Names of commands -/

/-- A name that ends where no letter follows: letters that do not go on with a star, or a single
other character. -/
def IsPlainName (name : String) : Prop :=
  (IsWord name ∧ name ≠ "operatorname") ∨
    (name.toList.length = 1 ∧ ∀ c ∈ name.toList, c.isAlpha = false)

instance (name : String) : Decidable (IsPlainName name) :=
  inferInstanceAs (Decidable (_ ∨ _))

/-- No command is without a name. -/
theorem IsPlainName.toList_ne_nil {name : String} (h : IsPlainName name) : name.toList ≠ [] := by
  rcases h with ⟨⟨hne, -⟩, -⟩ | ⟨hone, -⟩
  · exact fun hnil => hne (String.toList_eq_nil_iff.mp hnil)
  · exact List.ne_nil_of_length_eq_add_one hone

/-- A plain name is read as a whole where nothing goes on with it. -/
theorem commandName_plain {name : String} (h : IsPlainName name) {rest : List Char}
    (hend : EndsToken (control name) rest) :
    commandName (name.toList ++ rest) = name.toList := by
  rcases h with ⟨⟨hne, hword⟩, hstar⟩ | ⟨hone, hother⟩
  · obtain ⟨letter, more, hname⟩ :=
      List.exists_cons_of_ne_nil fun h => hne (String.toList_eq_nil_iff.mp h)
    have hletter : letter.isAlpha := hword letter (by simp [hname])
    have hcontrol : control name = '\\' :: letter :: more := by rw [control, hname]
    obtain hplain | ⟨-, -, hstarred, -⟩ :=
      commandName_letters (by simp [hname]) hword (hend.name hcontrol hletter)
    · exact hplain
    · exact absurd (String.toList_inj.mp (eq_operatorname_of_starred hstarred)) hstar
  · obtain ⟨c, hname⟩ := List.length_eq_one_iff.mp hone
    rw [hname]
    exact commandName_cons (hother c (by simp [hname])) rest

/-- Commands without arguments have plain names. -/
theorem isPlainName_of_leaf {name : String} {found : Command} (h : command? name = some found)
    (hleaf : found.leaf?.isSome) : IsPlainName name := by
  have table : ∀ entry ∈ commands, entry.2.leaf?.isSome → IsPlainName entry.1 := by
    decide +kernel
  exact table _ (mem_commands h) hleaf

/-- So do delimiters, and no command has the name of one. -/
theorem isPlainName_of_delimiter {name : String} {glyph : Glyph}
    (h : delimiterCommand? name = some glyph) :
    IsPlainName name ∧ Meaning.ofName? name = some (.delimiter glyph) := by
  have table : ∀ entry ∈ delimiterCommands, IsPlainName entry.1 ∧ command? entry.1 = none := by
    decide +kernel
  obtain ⟨hname, hnone⟩ := table _ (mem_of_lookup h)
  exact ⟨hname, by rw [Meaning.ofName?, hnone, h]⟩

/-! ## Tokens as bases -/

/-- A character of its own: it stands for something, and it is neither blank nor a digit. -/
def IsOwnCharacter (c : Char) : Prop :=
  (Expr.ofChar? c).isSome ∧ isBlank c = false ∧ c.isDigit = false

/-- A character of its own means nothing else to the reader. -/
theorem IsOwnCharacter.not_mark {c : Char} (h : IsOwnCharacter c) :
    c ∉ ['%', '{', '}', '\\', '^', '_', '\x27', '~'] := by
  have hnone : ∀ d ∈ ['%', '{', '}', '\\', '^', '_', '\x27', '~'], Expr.ofChar? d = none := by
    decide
  intro hmem
  have hsome := h.1
  rw [hnone c hmem] at hsome
  cases hsome

/-- Letters are characters of their own. -/
theorem isOwnCharacter_letter {c : Char} (h : isAlphabetic c) : IsOwnCharacter c :=
  ⟨by rw [Expr.ofChar?, if_pos h]; rfl, isBlank_eq_false (.inl h), isDigit_eq_false h⟩

/-- So are signs, as the tables show. -/
theorem isOwnCharacter_sign {c : Char}
    (h : (characterSymbol? c).isSome ∨ (delimiterCharacter? c).isSome) : IsOwnCharacter c := by
  have table : ∀ entry ∈ characterSymbols ++ delimiterCharacters, IsOwnCharacter entry.1 := by
    unfold IsOwnCharacter
    decide +kernel
  rcases h with h | h
  · obtain ⟨glyph, hglyph⟩ := Option.isSome_iff_exists.mp h
    exact table _ (List.mem_append_left _ (mem_of_lookup hglyph))
  · obtain ⟨glyph, hglyph⟩ := Option.isSome_iff_exists.mp h
    exact table _ (List.mem_append_right _ (mem_of_lookup hglyph))

/-- So is any other character beyond ASCII that is not blank. -/
theorem isOwnCharacter_other {c : Char} (h : 0x80 ≤ c.toNat) (hblank : isBlank c = false) :
    IsOwnCharacter c := by
  refine ⟨?_, hblank, ?_⟩
  · unfold Expr.ofChar?
    split
    · rfl
    · split
      · rfl
      · rw [if_neg (by omega)]
        rfl
  · by_cases hdigit : c.isDigit
    · have hsmall := toNat_lt_of_isAlphanum (c := c) (by simp [Char.isAlphanum, hdigit])
      omega
    · simpa using hdigit

/-- A number begins with a digit, or with a dot before a digit. -/
theorem numberLength_eq_zero {c : Char} {rest : List Char} (hdigit : c.isDigit = false)
    (hdot : c = '.' → ∀ d ∈ rest.head?, d.isDigit = false) : numberLength (c :: rest) = 0 := by
  have hnone : digitCount (c :: rest) = 0 := by simp [digitCount, hdigit]
  have hrest : c = '.' → digitCount rest = 0 := by
    intro hc
    cases rest with
    | nil => rfl
    | cons d rest => simp [digitCount, hdot hc d rfl]
  unfold numberLength
  dsimp only
  rw [hnone, List.drop_zero]
  split
  · next heq =>
    obtain ⟨hc, rfl⟩ := List.cons.inj heq
    rw [if_pos (hrest hc)]
  · rfl

namespace Reading

variable {rest : List Char}

/-- A character of its own is a base. -/
theorem takes_base_char {c : Char} {e : Expr} (h : Expr.ofChar? c = some e)
    (hc : IsOwnCharacter c) (hend : EndsToken [c] rest) :
    unbounded.base.Takes [c] (some (.side e)) rest := by
  have hmarks := hc.not_mark
  simp only [List.mem_cons, List.not_mem_nil, or_false, not_or] at hmarks
  obtain ⟨hpercent, hbrace, -, hbackslash, hupper, hlower, hprime, htie⟩ := hmarks
  have hnumber : numberLength (c :: rest) = 0 :=
    numberLength_eq_zero hc.2.2 fun hdot => hend.dot (by rw [hdot])
  rw [Nested.base_unbounded]
  refine .layout (layoutLength_cons hc.2.1 hpercent _) (.rest ?_)
  have hscript : ¬ (c = '^' || c = '_') = true := by simp [hupper, hlower]
  dsimp only [List.cons_append, List.nil_append]
  rw [if_neg hbrace, if_neg (not_not_intro hnumber), if_neg hbackslash, if_neg hscript,
    if_neg hprime, if_neg htie, h]
  exact .cons (.pure _ _)

/-- A tie is a space. -/
theorem takes_base_tie (rest : List Char) :
    unbounded.base.Takes ['~'] (some (.side (.space 0.333))) rest := by
  rw [Nested.base_unbounded]
  exact .layout (layoutLength_cons (by decide) (by decide) _) (.rest (.cons (.pure _ _)))

/-- Apostrophes are taken all at once. -/
theorem takes_primes (count : Nat) (hrest : rest.head? ≠ some '\x27') :
    primes.Takes (List.replicate count '\x27') count rest := by
  intro s hs
  rw [run_primes, hs, primeCount_run hrest, List.length_replicate]

/-- A run of apostrophes is a base if it is not followed by another one. -/
theorem takes_base_primes {count : Nat} (hcount : count ≠ 0)
    (hrest : rest.head? ≠ some '\x27') :
    unbounded.base.Takes (List.replicate count '\x27') (some (.side (.primes count))) rest := by
  have hprimes := takes_primes count hrest
  obtain ⟨count, rfl⟩ := Nat.exists_eq_succ_of_ne_zero hcount
  rw [Nested.base_unbounded]
  exact .layout (layoutLength_cons (by decide) (by decide) _) (.rest (.map hprimes))

/-- A digit is a number where no longer one begins with it. -/
theorem takes_base_digit {c : Char} (h : c.isDigit) (hnumber : numberLength (c :: rest) = 1) :
    unbounded.base.Takes [c] (some (.side (.number (String.ofList [c])))) rest := by
  have hrun : DigitRun [c] := ⟨by simp, by simpa using h⟩
  exact takes_base_number (.whole hrun) hnumber

/-- A command without arguments is a base. -/
theorem takes_base_leaf {name : String} {found : Command} {b : Base}
    (h : command? name = some found) (hleaf : found.leaf? = some b)
    (hend : EndsToken (control name) rest) :
    unbounded.base.Takes (control name) (some b) rest := by
  have hname := commandName_plain (isPlainName_of_leaf h (by rw [hleaf]; rfl)) hend
  have hmeaning : Meaning.ofName? name = some (.command found) := by rw [Meaning.ofName?, h]
  have hread : isPartOfSurroundings found = false ∧
      ∀ start, command unbounded start found = pure (some b) := by
    cases found <;> cases hleaf <;> exact ⟨rfl, fun _ => rfl⟩
  have hbase : (commandBase unbounded (name.toList ++ ([] ++ rest))).Takes (control name ++ [])
      (some b) rest := by
    unfold commandBase
    simp only [List.nil_append, List.append_nil, hname, String.ofList_toList, hmeaning, hread,
      Bool.false_eq_true]
    refine .offset fun start => .advanceLast ?_ (.pure _ _)
    simp [control, Nat.add_comm]
  have htaken := takes_backslash hbase
  rwa [List.append_nil] at htaken

/-- A delimiter that is written as a command is a base. -/
theorem takes_base_delimiter {name : String} {glyph : Glyph}
    (h : delimiterCommand? name = some glyph) (hend : EndsToken (control name) rest) :
    unbounded.base.Takes (control name) (some (.side glyph.expr)) rest := by
  obtain ⟨hplain, hmeaning⟩ := isPlainName_of_delimiter h
  have hname := commandName_plain hplain hend
  have hbase : (commandBase unbounded (name.toList ++ ([] ++ rest))).Takes (control name ++ [])
      (some (.side glyph.expr)) rest := by
    unfold commandBase
    simp only [List.nil_append, List.append_nil, hname, String.ofList_toList, hmeaning]
    refine .advanceLast ?_ (.pure _ _)
    simp [control, Nat.add_comm]
  have htaken := takes_backslash hbase
  rwa [List.append_nil] at htaken

end Reading

/-! ## Tokens as arguments -/

/-- The first character of a token means nothing to what is around the token. -/
theorem IsToken.begins {token : List Char} (h : IsToken token) :
    ∃ c more, token = c :: more ∧ isBlank c = false ∧ c ∉ ['%', '{', '}'] := by
  have hown {c : Char} (h : IsOwnCharacter c) :
      ∃ d more, [c] = d :: more ∧ isBlank d = false ∧ d ∉ ['%', '{', '}'] := by
    have hmarks := h.not_mark
    simp only [List.mem_cons, List.not_mem_nil, or_false, not_or] at hmarks
    exact ⟨c, [], rfl, h.2.1, by simp [hmarks]⟩
  cases h with
  | @digit c h =>
    have hc : isBlank c = false ∧ c ∉ ['%', '{', '}'] :=
      forall_isDigit (fun c => isBlank c = false ∧ c ∉ ['%', '{', '}']) (by decide) h
    exact ⟨c, [], rfl, hc⟩
  | letter h => exact hown (isOwnCharacter_letter h)
  | tie => exact ⟨'~', [], rfl, by decide, by decide⟩
  | primes h =>
    obtain ⟨count, rfl⟩ := Nat.exists_eq_succ_of_ne_zero h
    exact ⟨'\x27', List.replicate count '\x27', rfl, by decide, by decide⟩
  | sign h => exact hown (isOwnCharacter_sign h)
  | other h hblank => exact hown (isOwnCharacter_other h hblank)
  | command | delimiter => exact ⟨'\\', _, rfl, by decide, by decide⟩

/-- The only token that begins with a bracket is the bracket. -/
theorem IsToken.eq_bracket {token : List Char} (h : IsToken token)
    (hhead : token.head? = some '[') : token = ['['] := by
  have hone {c : Char} (hc : [c].head? = some '[') : [c] = ['['] := by simpa using hc
  cases h with
  | digit | letter | tie | sign | other => exact hone hhead
  | primes h =>
    obtain ⟨count, rfl⟩ := Nat.exists_eq_succ_of_ne_zero h
    cases hhead
  | command | delimiter => cases hhead

/-- A number begins with a token only if the token is a digit. -/
theorem IsToken.isDigit_or {token : List Char} (h : IsToken token) :
    (∃ c, c.isDigit ∧ token = [c]) ∨
      ∀ rest, EndsToken token rest → numberLength (token ++ rest) = 0 := by
  have hown {c : Char} (hc : IsOwnCharacter c) (rest : List Char) (hend : EndsToken [c] rest) :
      numberLength ([c] ++ rest) = 0 :=
    numberLength_eq_zero hc.2.2 fun hdot => hend.dot (by rw [hdot])
  have hmark {c : Char} {more : List Char} (hdigit : c.isDigit = false) (hdot : c ≠ '.')
      (rest : List Char) (_ : EndsToken (c :: more) rest) :
      numberLength (c :: more ++ rest) = 0 :=
    numberLength_eq_zero hdigit fun heq => absurd heq hdot
  cases h with
  | digit h => exact .inl ⟨_, h, rfl⟩
  | letter h => exact .inr (hown (isOwnCharacter_letter h))
  | tie => exact .inr (hmark (by decide) (by decide))
  | primes h =>
    obtain ⟨count, rfl⟩ := Nat.exists_eq_succ_of_ne_zero h
    exact .inr (hmark (by decide) (by decide))
  | sign h => exact .inr (hown (isOwnCharacter_sign h))
  | other h hblank => exact .inr (hown (isOwnCharacter_other h hblank))
  | command | delimiter => exact .inr (hmark (by decide) (by decide))

/-- A token is a command, or it consists of characters that are collected as they are. -/
theorem IsToken.plain_or_control {token : List Char} (h : IsToken token) :
    (∀ c ∈ token, c ∉ ['{', '}', '\\']) ∨ ∃ name, IsPlainName name ∧ token = control name := by
  have hone {c : Char} (hc : c ∉ ['{', '}', '\\']) : ∀ d ∈ [c], d ∉ ['{', '}', '\\'] := by
    simpa using hc
  have hown {c : Char} (hc : IsOwnCharacter c) : ∀ d ∈ [c], d ∉ ['{', '}', '\\'] := by
    have hmarks := hc.not_mark
    simp only [List.mem_cons, List.not_mem_nil, or_false, not_or] at hmarks
    exact hone (by simp [hmarks])
  cases h with
  | digit h =>
    exact .inl (hone (forall_isDigit (· ∉ ['{', '}', '\\']) (by decide) h))
  | letter h => exact .inl (hown (isOwnCharacter_letter h))
  | tie => exact .inl (by decide)
  | primes h =>
    refine .inl fun c hc => ?_
    rw [List.eq_of_mem_replicate hc]
    decide
  | sign h => exact .inl (hown (isOwnCharacter_sign h))
  | other h hblank => exact .inl (hown (isOwnCharacter_other h hblank))
  | command h hleaf => exact .inr ⟨_, isPlainName_of_leaf h hleaf, rfl⟩
  | delimiter h =>
    obtain ⟨glyph, hglyph⟩ := Option.isSome_iff_exists.mp h
    exact .inr ⟨_, (isPlainName_of_delimiter hglyph).1, rfl⟩

/-- In front of a closing brace no longer number begins with a token. -/
theorem IsToken.numberLength_brace {token : List Char} (h : IsToken token) (rest : List Char) :
    numberLength (token ++ '}' :: rest) ≤ 1 := by
  rcases h.isDigit_or with ⟨c, hdigit, rfl⟩ | hnone
  · simp [numberLength, digitCount, hdigit]
  · rw [hnone _ (endsToken_brace token rest)]
    exact Nat.zero_le 1

/-- No layout is ahead where a token is. -/
theorem IsToken.layoutLength_append {token : List Char} (h : IsToken token) (rest : List Char) :
    layoutLength (token ++ rest) = 0 := by
  obtain ⟨c, more, rfl, hblank, hmarks⟩ := h.begins
  simp only [List.mem_cons, not_or] at hmarks
  exact layoutLength_cons hblank hmarks.1 _

namespace Reading

variable {rest : List Char}

/-- What a token stands for. -/
structure StandsFor (token : List Char) (b : Base) : Prop where
  /-- As a base a digit goes on into the number that it begins. -/
  base : ∀ rest, EndsToken token rest → numberLength (token ++ rest) ≤ 1 →
    unbounded.base.Takes token (some b) rest
  argument : ∀ rest, EndsToken token rest → (argument unbounded).Takes token b.expr rest
  superscript : ∀ rest, EndsToken token rest → (superscript unbounded).Takes token b.expr rest

/-- An argument that is a base. -/
theorem takes_argument_base {c : Char} {more : List Char} {b : Base}
    (hlayout : layoutLength (c :: more ++ rest) = 0) (hbrace : c ≠ '{')
    (hdigit : c.isDigit = false) (h : unbounded.base.Takes (c :: more) (some b) rest) :
    (argument unbounded).Takes (c :: more) b.expr rest := by
  refine .layout hlayout (.rest ?_)
  dsimp only [List.cons_append]
  rw [if_neg hbrace, if_neg (by simp [hdigit])]
  exact .last h (.pure _ _)

/-- A superscript without primes is an argument. -/
theorem takes_superscript_argument {c : Char} {more : List Char} {e : Expr}
    (hlayout : layoutLength (c :: more ++ rest) = 0) (hprime : c ≠ '\x27')
    (h : (argument unbounded).Takes (c :: more) e rest) :
    (superscript unbounded).Takes (c :: more) e rest :=
  .layout hlayout (.noPrimes (by simp [primeCount, hprime]) h)

/-- A base that is neither a number nor a run of apostrophes is an argument and a superscript. -/
theorem standsFor_of_base {c : Char} {more : List Char} {b : Base} (htoken : IsToken (c :: more))
    (hdigit : c.isDigit = false) (hprime : c ≠ '\x27')
    (h : ∀ rest, EndsToken (c :: more) rest → unbounded.base.Takes (c :: more) (some b) rest) :
    StandsFor (c :: more) b := by
  have hbrace : c ≠ '{' := by
    obtain ⟨c', more', heq, -, hmarks⟩ := htoken.begins
    obtain ⟨rfl, rfl⟩ := List.cons.inj heq
    rintro rfl
    exact hmarks (by decide)
  have hargument (rest : List Char) (hend : EndsToken (c :: more) rest) :
      (Reading.argument unbounded).Takes (c :: more) b.expr rest :=
    takes_argument_base (htoken.layoutLength_append rest) hbrace hdigit (h rest hend)
  refine ⟨fun rest hend _ => h rest hend, hargument, fun rest hend => ?_⟩
  exact takes_superscript_argument (htoken.layoutLength_append rest) hprime (hargument rest hend)

/-- **Every token stands for something**, and for the same with braces and without. -/
theorem exists_base_of_token {token : List Char} (h : IsToken token) :
    ∃ b, StandsFor token b := by
  have hown {c : Char} (htoken : IsToken [c]) (hc : IsOwnCharacter c) :
      ∃ b, StandsFor [c] b := by
    obtain ⟨e, he⟩ := Option.isSome_iff_exists.mp hc.1
    have hprime : c ≠ '\x27' := by
      have hmarks := hc.not_mark
      simp only [List.mem_cons, not_or] at hmarks
      exact hmarks.2.2.2.2.2.2.1
    exact ⟨.side e, standsFor_of_base htoken hc.2.2 hprime fun rest hend =>
      takes_base_char he hc hend⟩
  cases h with
  | @digit c h =>
    have hc : c ∉ ['{', '\x27'] := forall_isDigit (· ∉ ['{', '\x27']) (by decide) h
    simp only [List.mem_cons, List.not_mem_nil, or_false, not_or] at hc
    have hargument (rest : List Char) :
        (argument unbounded).Takes [c] (.number (String.ofList [c])) rest := by
      refine .layout ((IsToken.digit h).layoutLength_append rest) (.rest ?_)
      dsimp only [List.cons_append]
      rw [if_neg hc.1, if_pos h]
      exact .cons (.pure _ _)
    refine ⟨.side (.number (String.ofList [c])), fun rest _ hnumber => ?_,
      fun rest _ => hargument rest, fun rest _ => ?_⟩
    · have hpositive := Nat.one_le_iff_ne_zero.mpr (numberLength_ne_zero h rest)
      exact takes_base_digit h (Nat.le_antisymm hnumber hpositive)
    · exact takes_superscript_argument ((IsToken.digit h).layoutLength_append rest) hc.2
        (hargument rest)
  | letter h => exact hown (.letter h) (isOwnCharacter_letter h)
  | tie =>
    exact ⟨_, standsFor_of_base .tie (by decide) (by decide) fun rest _ => takes_base_tie rest⟩
  | @primes count h =>
    obtain ⟨count, rfl⟩ := Nat.exists_eq_succ_of_ne_zero h
    have hbase (rest : List Char) (hend : rest.head? ≠ some '\x27') :
        unbounded.base.Takes (List.replicate (count + 1) '\x27')
          (some (.side (.primes (count + 1)))) rest := takes_base_primes h hend
    refine ⟨.side (.primes (count + 1)), fun rest hend _ => hbase rest (hend.primes rfl),
      fun rest hend => ?_, fun rest hend => ?_⟩
    · exact takes_argument_base ((IsToken.primes h).layoutLength_append rest) (by decide)
        (by decide) (hbase rest (hend.primes rfl))
    · exact .layout ((IsToken.primes h).layoutLength_append rest)
        (.last (takes_primes (count + 1) (hend.primes rfl)) (.pure _ _))
  | sign h => exact hown (.sign h) (isOwnCharacter_sign h)
  | other h hblank => exact hown (.other h hblank) (isOwnCharacter_other h hblank)
  | command h hleaf =>
    obtain ⟨b, hb⟩ := Option.isSome_iff_exists.mp hleaf
    exact ⟨b, standsFor_of_base (.command h hleaf) (by decide) (by decide) fun rest hend =>
      takes_base_leaf h hb hend⟩
  | delimiter h =>
    obtain ⟨glyph, hglyph⟩ := Option.isSome_iff_exists.mp h
    exact ⟨_, standsFor_of_base (.delimiter h) (by decide) (by decide) fun rest hend =>
      takes_base_delimiter hglyph hend⟩

/-- A token in front of a closing brace is the only item of a group. -/
theorem StandsFor.takes_sequence {token : List Char} {b : Base} (htoken : IsToken token)
    (h : StandsFor token b) (rest : List Char) :
    (unbounded.sequence (some .brace)).Takes (token ++ ['}']) [b.expr] rest := by
  have hends : EndsItem ('}' :: rest) := endsItem_cons (by decide) (by decide) rest
  have hbase := h.base _ (endsToken_brace token rest) (htoken.numberLength_brace rest)
  have hscripts : (scripts unbounded b).Takes ([] ++ [])
      (b.expr.withScripts b.limits none none) ('}' :: rest) :=
    takes_scripts [] (takes_limits b.limits hends.layout hends.limits).1 hends.primes
      (takes_scriptsFrom_end 2 ⟨none, none, false⟩ hends).1
  have hitem : (item unbounded).Takes token (some b.expr) ('}' :: rest) :=
    .layout (htoken.layoutLength_append _) (.offset fun _ => .last hbase (.map hscripts))
  have hclose : (unbounded.sequence (some .brace)).Takes ['}'] [] rest := by
    rw [Nested.sequence_unbounded]
    exact .layout hends.layout (.rest (.ite_pos rfl (.cons (.pure _ _))))
  have hnext : (sequence.next unbounded (some .brace)).Takes (token ++ ['}']) [b.expr] rest :=
    .bind hitem (.map hclose)
  obtain ⟨c, more, rfl, hblank, hmarks⟩ := htoken.begins
  simp only [List.mem_cons, List.not_mem_nil, or_false, not_or] at hmarks
  rw [Nested.sequence_unbounded]
  exact .layout (layoutLength_cons hblank hmarks.1 _) (.rest (.ite_neg hmarks.2.2 hnext))

/-- In braces a token is an argument. -/
theorem StandsFor.takes_inBraces {token : List Char} {b : Base} (htoken : IsToken token)
    (h : StandsFor token b) (rest : List Char) :
    (Reading.argument unbounded).Takes (inBraces token) b.expr rest := by
  refine .layout (layoutLength_cons (by decide) (by decide) _) (.rest (.ite_pos rfl ?_))
  exact .cons (.map (h.takes_sequence htoken rest))

/-- Layout may stand before a text that begins with none, if layout is skipped at first. -/
theorem takes_gap {α : Type} {f : Unit → Reading α} {a : α} {gap text : List Char}
    (hgap : IsLayout gap) (hlayout : layoutLength (text ++ rest) = 0)
    (h : (skipLayout >>= f).Takes text a rest) : (skipLayout >>= f).Takes (gap ++ text) a rest := by
  refine .bind (m := skipLayout) (a := ()) ?_ ?_
  · intro s hs
    rw [run_skipLayout, hs, OfficeMath.layoutLength_append hgap, hlayout, Nat.add_zero]
  · intro s hs
    have hskip : skipLayout s = .ok () s := by rw [run_skipLayout, hs, hlayout, Scan.advance_zero]
    have hrun := h s hs
    rwa [run_bind_ok hskip] at hrun

/-- **A token is the same argument with braces and without**, with any layout before it. -/
theorem takes_token {token : List Char} (h : IsToken token) (hend : EndsToken token rest) :
    ∃ e, ∀ gap, IsLayout gap →
      ((argument unbounded).Takes (gap ++ token) e rest ∧
        (argument unbounded).Takes (gap ++ inBraces token) e rest) ∧
      (superscript unbounded).Takes (gap ++ token) e rest ∧
        (superscript unbounded).Takes (gap ++ inBraces token) e rest := by
  obtain ⟨b, hb⟩ := exists_base_of_token h
  have hbrace : layoutLength (inBraces token ++ rest) = 0 :=
    layoutLength_cons (by decide) (by decide) _
  have hinBraces := hb.takes_inBraces h rest
  have hbare := h.layoutLength_append rest
  refine ⟨b.expr, fun gap hgap => ⟨⟨takes_gap hgap hbare (hb.argument rest hend),
    takes_gap hgap hbrace hinBraces⟩, takes_gap hgap hbare (hb.superscript rest hend),
    takes_gap hgap hbrace ?_⟩⟩
  exact takes_superscript_argument hbrace (by decide) hinBraces

end Reading

end OfficeMath
