import Mathlib.Data.Option.Basic
import OfficeMath.Latex.Parse
import OfficeMath.Proofs.Formula.Nodes
import OfficeMath.Proofs.Latex.CommandNames
import OfficeMath.Proofs.Latex.Lexemes
import OfficeMath.Proofs.Latex.Numeral
import OfficeMath.Proofs.Latex.Progress
import OfficeMath.Proofs.Xml.Allowed

/-!
# What the texts of a formula are spelled with

The texts that an expression shows come from the tables of the reader or from the formula.  The
tables have only characters that XML allows.  A character of the formula that stands for itself is
a letter or beyond ASCII, and so it is no control character of ASCII.  The reader takes plain text
as it stands, though, and there any character may come through (`Expr.SpelledFrom`).

The proof goes through the rules of the grammar.  A rule sees nothing but what is ahead of it, which
is a part of the formula (`Reading.Spells`), and passes on the spelling of its parts
(`Nested.Spells`).
-/

namespace OfficeMath

open Xml (isAllowed)

/-! ## Spelling -/

namespace Expr

/-- An expression that shows a plain text, which has been taken as it stands. -/
def ShowsPlainText : Expr → Prop
  | .text _ _ | .operatorName _ => True
  | _ => False

/-- The texts that an expression shows itself have allowed characters, and of the others of `source`
those beyond ASCII; a plain text may have all characters of `source`. -/
def OwnTextsFrom (source : List Char) (node : Expr) : Prop :=
  ∀ shown ∈ node.ownTexts, ∀ c ∈ shown.toList,
    isAllowed c ∨ c ∈ source ∧ (0x80 ≤ c.toNat ∨ node.ShowsPlainText)

/-- The texts that an expression shows at any depth are spelled in this way. -/
def SpelledFrom (source : List Char) (e : Expr) : Prop := e.Throughout (OwnTextsFrom source)

section

variable {source : List Char} {e part first second third : Expr}

/-- A node without texts of its own. -/
theorem ownTextsFrom_of_nil (h : e.ownTexts = []) : e.OwnTextsFrom source := by
  simp [OwnTextsFrom, h]

/-- A leaf with a text of allowed characters. -/
theorem spelled_allowed (hnodes : e.nodes = [e]) {shown : String} (hown : e.ownTexts = [shown])
    (h : ∀ c ∈ shown.toList, isAllowed c) : e.SpelledFrom source := by
  rw [SpelledFrom, throughout_leaf hnodes, OwnTextsFrom, hown, List.forall_mem_singleton]
  exact fun c hc => .inl (h c hc)

/-- A construction shows the texts of its parts. -/
theorem spelled_part (hnodes : e.nodes = e :: part.nodes) (hown : e.ownTexts = [])
    (h : part.SpelledFrom source) : e.SpelledFrom source :=
  (throughout_part hnodes).mpr ⟨ownTextsFrom_of_nil hown, h⟩

/-- A node over two parts without a text of its own. -/
theorem spelled_parts (hnodes : e.nodes = e :: (first.nodes ++ second.nodes))
    (hown : e.ownTexts = []) (hfirst : first.SpelledFrom source)
    (hsecond : second.SpelledFrom source) : e.SpelledFrom source :=
  (throughout_parts hnodes).mpr ⟨ownTextsFrom_of_nil hown, hfirst, hsecond⟩

/-- A node over three parts without a text of its own. -/
theorem spelled_three (hnodes : e.nodes = e :: (first.nodes ++ second.nodes ++ third.nodes))
    (hown : e.ownTexts = []) (hfirst : first.SpelledFrom source)
    (hsecond : second.SpelledFrom source) (hthird : third.SpelledFrom source) :
    e.SpelledFrom source :=
  (throughout_three hnodes).mpr ⟨ownTextsFrom_of_nil hown, hfirst, hsecond, hthird⟩

/-- A node over a list without a text of its own. -/
theorem spelled_members {members : List Expr} (hnodes : e.nodes = e :: nodesOf members)
    (hown : e.ownTexts = []) (h : ∀ member ∈ members, member.SpelledFrom source) :
    e.SpelledFrom source :=
  (throughout_members hnodes).mpr ⟨ownTextsFrom_of_nil hown, h⟩

/-- A list as one expression spells what its members spell. -/
theorem spelled_ofList {members : List Expr} (h : ∀ member ∈ members, member.SpelledFrom source) :
    (ofList members).SpelledFrom source := by
  unfold ofList
  split
  · exact h _ (List.mem_singleton_self _)
  · exact spelled_members rfl rfl h

/-- The empty group spells nothing. -/
theorem spelled_empty : empty.SpelledFrom source := spelled_members rfl rfl (by simp)

/-- Scripts are shown beside their base, wherever they go. -/
theorem spelled_withScripts (place : Limits) {base : Expr} {lower upper : Option Expr}
    (hbase : base.SpelledFrom source) (hlower : ∀ e ∈ lower, e.SpelledFrom source)
    (hupper : ∀ e ∈ upper, e.SpelledFrom source) :
    (base.withScripts place lower upper).SpelledFrom source := by
  cases lower with
  | none =>
    cases upper with
    | none => exact hbase
    | some upper => cases place <;> exact spelled_parts rfl rfl hbase (hupper upper rfl)
  | some lower =>
    have hlower := hlower lower rfl
    cases upper with
    | none => cases place <;> exact spelled_parts rfl rfl hbase hlower
    | some upper => cases place <;> exact spelled_three rfl rfl hbase hlower (hupper upper rfl)

end

end Expr

/-! ## The tables -/

/-- The texts that a command brings with it. -/
def Command.texts : Command → List String
  | .symbol _ shown | .identifier shown | .operatorName shown _ | .decoration _ shown _ => [shown]
  | _ => []

/-- The texts of the commands consist of allowed characters. -/
theorem allowed_of_command? {name : String} {found : Command} (h : command? name = some found) :
    ∀ shown ∈ found.texts, ∀ c ∈ shown.toList, isAllowed c := by
  have table : ∀ entry ∈ commands, ∀ shown ∈ entry.2.texts, ∀ c ∈ shown.toList, isAllowed c := by
    decide +kernel
  exact table _ (mem_commands h)

/-- So do those of the delimiters that are commands. -/
theorem allowed_of_delimiterCommand? {name : String} {found : Glyph}
    (h : delimiterCommand? name = some found) : ∀ c ∈ found.text.toList, isAllowed c := by
  have table : ∀ entry ∈ delimiterCommands, ∀ c ∈ entry.2.text.toList, isAllowed c := by
    decide
  exact table _ (mem_of_lookup h)

/-- So do those of the characters that are symbols. -/
theorem allowed_of_characterSymbol? {c : Char} {found : Glyph}
    (h : characterSymbol? c = some found) : ∀ c ∈ found.text.toList, isAllowed c := by
  have table : ∀ entry ∈ characterSymbols, ∀ c ∈ entry.2.text.toList, isAllowed c := by
    decide
  exact table _ (mem_of_lookup h)

/-- So do those of the characters that are delimiters. -/
theorem allowed_of_delimiterCharacter? {c : Char} {found : Glyph}
    (h : delimiterCharacter? c = some found) : ∀ c ∈ found.text.toList, isAllowed c := by
  have table : ∀ entry ∈ delimiterCharacters, ∀ c ∈ entry.2.text.toList, isAllowed c := by
    decide
  exact table _ (mem_of_lookup h)

/-- A delimiter is taken from the tables. -/
theorem allowed_of_delimiterAt? {ahead : List Char} {found : Glyph} {length : Nat}
    (h : delimiterAt? ahead = some (found, length)) : ∀ c ∈ found.text.toList, isAllowed c := by
  cases ahead with
  | nil => cases h
  | cons c after =>
    simp only [delimiterAt?] at h
    split at h
    · cases h
      simp
    · split at h
      · split at h
        · next glyph hglyph =>
          cases h
          rcases (Option.orElse_eq_some _ _ _).mp hglyph with hdelimiter | ⟨-, hcommand⟩
          · exact allowed_of_delimiterCommand? hdelimiter
          · obtain ⟨command, hfound, hsymbol⟩ := Option.bind_eq_some_iff.mp hcommand
            have hallowed := allowed_of_command? hfound
            cases command with
            | symbol kind shown =>
              cases hsymbol
              exact hallowed shown List.mem_cons_self
            | _ => cases hsymbol
        · cases h
      · split at h
        · next glyph hglyph =>
          cases h
          rcases (Option.orElse_eq_some _ _ _).mp hglyph with hdelimiter | ⟨-, hsymbol⟩
          · exact allowed_of_delimiterCharacter? hdelimiter
          · exact allowed_of_characterSymbol? hsymbol
        · cases h

/-- The delimiters that an environment brings along are allowed characters. -/
theorem allowed_of_delimiters? {environment : Environment} {opening closing : String}
    (h : environment.delimiters? = some (opening, closing)) :
    (∀ c ∈ opening.toList, isAllowed c) ∧ ∀ c ∈ closing.toList, isAllowed c := by
  cases environment <;> cases h <;> decide

/-- Apostrophes become primes, which are allowed. -/
theorem allowed_primeGlyph (count : Nat) : ∀ c ∈ (primeGlyph count).toList, isAllowed c := by
  unfold primeGlyph
  split
  case h_5 =>
    intro c hc
    rw [String.toList_ofList] at hc
    rw [List.eq_of_mem_replicate hc]
    decide
  all_goals decide

/-- A character that stands for itself is a letter or beyond ASCII. -/
theorem spelled_character {source : List Char} {c : Char} (hc : c ∈ source)
    (h : isAlphabetic c ∨ 0x80 ≤ c.toNat) :
    ∀ d ∈ (String.ofList [c]).toList, isAllowed d ∨ d ∈ source ∧ 0x80 ≤ d.toNat := by
  intro d hd
  obtain rfl : d = c := by simpa using hd
  by_cases hascii : d.toNat < 0x80
  · rcases h with hletter | hbeyond
    · have hall : isAlphabetic d → isAllowed d :=
        forall_ascii (fun c => isAlphabetic c → isAllowed c) (by decide +kernel) hascii
      exact .inl (hall hletter)
    · omega
  · exact .inr ⟨hc, Nat.le_of_not_lt hascii⟩

/-- A character that stands for an expression is spelled by itself or by an allowed symbol. -/
theorem spelled_ofChar? {source : List Char} {c : Char} {e : Expr} (hc : c ∈ source)
    (h : Expr.ofChar? c = some e) : e.SpelledFrom source := by
  have leaf {e : Expr} (hnodes : e.nodes = [e]) (hown : e.ownTexts = [String.ofList [c]])
      (hshown : isAlphabetic c ∨ 0x80 ≤ c.toNat) : e.SpelledFrom source := by
    rw [Expr.SpelledFrom, Expr.throughout_leaf hnodes, Expr.OwnTextsFrom, hown,
      List.forall_mem_singleton]
    intro d hd
    exact (spelled_character hc hshown d hd).imp_right fun ⟨hmem, hbeyond⟩ => ⟨hmem, .inl hbeyond⟩
  unfold Expr.ofChar? at h
  split at h
  · next hletter =>
    cases h
    exact leaf rfl rfl (.inl hletter)
  · split at h
    · next glyph hglyph =>
      cases h
      refine Expr.spelled_allowed rfl rfl ?_
      rcases (Option.orElse_eq_some _ _ _).mp hglyph with hsymbol | ⟨-, hdelimiter⟩
      · exact allowed_of_characterSymbol? hsymbol
      · exact allowed_of_delimiterCharacter? hdelimiter
    · split at h
      · cases h
      · next hbeyond =>
        cases h
        exact leaf rfl rfl (.inr (Nat.le_of_not_lt hbeyond))

/-! ## Steps -/

namespace Reading

/-- Where only characters of `source` are ahead, a step leaves no others, and its value is right. -/
def Spells {α : Type} (source : List Char) (m : Reading α) (post : α → Prop) : Prop :=
  ∀ s a t, s.rest ⊆ source → m s = .ok a t → post a ∧ t.rest ⊆ source

namespace Spells

variable {α β : Type} {source : List Char} {m : Reading α} {f : α → Reading β} {post : α → Prop}
  {post' : β → Prop}

theorem pure {a : α} (h : post a) : Spells source (Pure.pure a : Reading α) post := by
  intro s b t hrest hrun
  cases hrun
  exact ⟨h, hrest⟩

theorem unclosed (closer : Closer) : Spells source (Reading.unclosed closer : Reading α) post := by
  intro s b t _ hrun
  cases hrun

/-- What is known of the first value may be used for the second step. -/
theorem bind (first : Spells source m post) (second : ∀ a, post a → Spells source (f a) post') :
    Spells source (m >>= f) post' := by
  intro s b u hrest hrun
  obtain ⟨a, t, ha, hb⟩ := bind_eq_ok.mp hrun
  obtain ⟨hpost, hrest'⟩ := first s a t hrest ha
  exact second a hpost t b u hrest' hb

/-- A step that only moves on. -/
theorem any (hm : m.Forward) : Spells source m fun _ => True := by
  intro s a t hrest hrun
  exact ⟨trivial, fun c hc => hrest ((hm.leads hrun).rest_suffix.subset hc)⟩

/-- A first step of which nothing but its going forward matters. -/
theorem seq (hm : m.Forward) (second : ∀ a, Spells source (f a) post') :
    Spells source (m >>= f) post' :=
  bind (any hm) fun a _ => second a

/-- Looking ahead. -/
theorem rest {f : List Char → Reading β}
    (h : ∀ ahead, ahead ⊆ source → Spells source (f ahead) post') :
    Spells source (Reading.rest >>= f) post' := by
  intro s b t hrest hrun
  exact h s.rest hrest s b t hrest hrun

/-- A choice between two steps. -/
theorem ite {c : Prop} [Decidable c] {m' : Reading α} (yes : c → Spells source m post)
    (no : ¬ c → Spells source m' post) : Spells source (if c then m else m') post := by
  by_cases h : c
  · rw [if_pos h]
    exact yes h
  · rw [if_neg h]
    exact no h

/-- A choice between two first steps with the same second step. -/
theorem iteBind {c : Prop} [Decidable c] {m' : Reading α} (hm : m.Forward) (hm' : m'.Forward)
    (second : ∀ a, Spells source (f a) post') :
    Spells source (if c then m >>= f else m' >>= f) post' :=
  ite (fun _ => seq hm second) fun _ => seq hm' second

end Spells

variable {source : List Char}

/-! ## Delimiters and plain text -/

/-- A delimiter that is found has an allowed text. -/
theorem spells_delimiter :
    Spells source delimiter? fun found =>
      ∀ glyph ∈ found, ∀ c ∈ glyph.text.toList, isAllowed c := by
  refine .seq forward_skipLayout fun _ => .rest fun ahead _ => ?_
  split
  · next glyph length hfound =>
    refine .seq (.advance _) fun _ => .pure ?_
    simpa using allowed_of_delimiterAt? hfound
  · exact .pure (by simp)

/-- A missing delimiter has the empty text. -/
theorem spells_delimiterAfter (command : String) :
    Spells source (delimiterAfter command) fun shown => ∀ c ∈ shown.toList, isAllowed c := by
  refine .bind spells_delimiter fun found hfound => ?_
  split
  · next glyph => exact .pure (hfound glyph rfl)
  · exact .seq .offset fun _ => .seq (.note _) fun _ => .pure (by simp)

/-- A text has blanks of its own, and characters of the formula. -/
theorem spells_textFrom (bound depth : Nat) {text : List Char}
    (htext : ∀ c ∈ text, isAllowed c ∨ c ∈ source) :
    Spells source (textFrom bound depth text) fun shown =>
      ∀ c ∈ shown.toList, isAllowed c ∨ c ∈ source := by
  induction bound generalizing depth text with
  | zero => exact .unclosed _
  | succ bound ih =>
    refine .rest fun ahead hahead => ?_
    split
    · exact .unclosed _
    rename_i c after
    have hnext {d : Char} (hd : isAllowed d ∨ d ∈ source) :
        ∀ c ∈ d :: text, isAllowed c ∨ c ∈ source := List.forall_mem_cons.mpr ⟨hd, htext⟩
    refine .seq .offset fun start => .seq (.advance _) fun _ => ?_
    split
    · cases depth with
      | zero => exact .pure (by simpa using htext)
      | succ depth => exact ih depth htext
    split
    · exact ih _ htext
    split
    · exact ih _ (hnext (.inl (by decide)))
    split
    · refine .seq (.advance _) fun _ => ?_
      split
      · exact ih _ htext
      rename_i escaped name hname
      have hescaped : escaped ∈ after :=
        (commandName_isPrefix after).subset (hname ▸ List.mem_cons_self)
      have hmem : escaped ∈ source := hahead (List.mem_cons_of_mem _ hescaped)
      split
      · exact .seq (.note _) fun _ => ih _ htext
      · exact ih _ (hnext (.inr hmem))
    split
    · split
      · exact ih _ htext
      · exact ih _ (hnext (.inl (by decide)))
    · exact ih _ (hnext (.inr (hahead List.mem_cons_self)))

/-- A plain text is spelled with the characters of the formula. -/
theorem spells_textArgument :
    Spells source textArgument fun shown => ∀ c ∈ shown.toList, isAllowed c ∨ c ∈ source := by
  refine .seq forward_skipLayout fun _ => .rest fun ahead hahead => ?_
  split
  · exact .pure (by simp)
  · next c after =>
    have hc : c ∈ source := hahead List.mem_cons_self
    refine .seq (.advance _) fun _ => ?_
    split
    · exact spells_textFrom _ _ (by simp)
    · exact .pure (by simpa using .inr hc)

end Reading

/-! ## The rules of the grammar -/

/-- The items of a delimited region are spelled in this way, and its separators are allowed. -/
structure SpelledItems (source : List Char) (content : List Item) : Prop where
  exprs : ∀ e, Item.expr e ∈ content → e.SpelledFrom source
  separators : ∀ glyph ∈ separatorsOf content, ∀ c ∈ glyph.toList, isAllowed c

/-- All cells of an array are spelled in this way. -/
def SpelledRows (source : List Char) (rows : List Row) : Prop :=
  ∀ row ∈ rows, ∀ cell ∈ row, ∀ e ∈ cell, e.SpelledFrom source

/-- A delimited region shows its delimiters and separators, which are from the tables. -/
theorem Expr.spelled_delimited {source : List Char} {opening closing : String}
    {content : List Item} (hopening : ∀ c ∈ opening.toList, isAllowed c)
    (hclosing : ∀ c ∈ closing.toList, isAllowed c) (hcontent : SpelledItems source content) :
    (Expr.delimited opening closing content).SpelledFrom source := by
  refine (throughout_items rfl).mpr ⟨?_, hcontent.exprs⟩
  intro shown hshown c hc
  simp only [ownTexts, List.mem_cons] at hshown
  rcases hshown with rfl | rfl | hseparator
  · exact .inl (hopening c hc)
  · exact .inl (hclosing c hc)
  · exact .inl (hcontent.separators shown hseparator c hc)

/-- The nested parts of an expression are spelled in this way. -/
structure Nested.Spells (source : List Char) (nested : Nested) : Prop where
  base : nested.base.Spells source fun found => ∀ b ∈ found, b.expr.SpelledFrom source
  limits : ∀ place, (nested.limits place).Forward
  sequence : ∀ closer,
    (nested.sequence closer).Spells source fun members => ∀ e ∈ members, e.SpelledFrom source
  region : nested.region.Spells source fun found =>
    SpelledItems source found.1 ∧ ∀ c ∈ found.2.toList, isAllowed c
  rows : ∀ row cell, (∀ cell ∈ row, ∀ e ∈ cell, e.SpelledFrom source) →
    (∀ e ∈ cell, e.SpelledFrom source) →
    (nested.rows row cell).Spells source (SpelledRows source)

/-- Scripts that are spelled in this way, as far as they have been read. -/
structure Scripts.SpelledFrom (source : List Char) (scripts : Scripts) : Prop where
  lower : ∀ e ∈ scripts.lower, e.SpelledFrom source
  upper : ∀ e ∈ scripts.upper, e.SpelledFrom source

namespace Reading

open OfficeMath.Expr

variable {source : List Char} {nested : Nested}

/-- A run of apostrophes is spelled by primes. -/
theorem spelled_primes (count : Nat) : (Expr.primes count).SpelledFrom source :=
  spelled_allowed rfl rfl (allowed_primeGlyph count)

/-- An argument is spelled from its group, its digit or its base. -/
theorem spells_argument (hn : nested.Spells source) :
    Spells source (argument nested) (·.SpelledFrom source) := by
  refine .seq forward_skipLayout fun _ => .rest fun ahead hahead => ?_
  split
  · exact .pure spelled_empty
  rename_i c after
  split
  · refine .seq (.advance _) fun _ => ?_
    exact .bind (hn.sequence _) fun members h => .pure (spelled_ofList h)
  split
  · next hdigit =>
    have hallowed : isAllowed c := forall_isDigit (fun c => isAllowed c) (by decide) hdigit
    exact .seq (.advance _) fun _ => .pure (spelled_allowed rfl rfl (by simpa using hallowed))
  · refine .bind hn.base fun found h => ?_
    cases found with
    | none => exact .pure spelled_empty
    | some b => exact .pure (h b rfl)

/-- What moves scripts has no text, and goes forward. -/
theorem forward_limits_of_spells (hn : nested.Spells source) (place : Limits) :
    (limits nested place).Forward := by
  refine .bind forward_skipLayout fun _ => .bind .rest fun ahead => ?_
  split
  · exact .bind (.advance _) fun _ => hn.limits _
  · exact .bind (.advance _) fun _ => hn.limits _
  · exact .pure _

/-- A superscript is spelled by primes or from its argument. -/
theorem spells_superscript (hn : nested.Spells source) :
    Spells source (superscript nested) (·.SpelledFrom source) := by
  refine .seq forward_skipLayout fun _ => .seq forward_primes fun count => ?_
  split
  · exact spells_argument hn
  · exact .pure (spelled_primes _)

/-- The loop adds scripts that are spelled from the formula to such scripts. -/
theorem spells_scriptsFrom (hn : nested.Spells source) (bound : Nat) {scripts : Scripts}
    (h : scripts.SpelledFrom source) :
    Spells source (scriptsFrom nested bound scripts) (·.SpelledFrom source) := by
  induction bound generalizing scripts with
  | zero => exact .pure h
  | succ bound ih =>
    refine .seq forward_skipLayout fun _ => .rest fun ahead _ => ?_
    split
    · split
      · exact .pure h
      · refine .seq (.advance _) fun _ => .bind (spells_argument hn) fun lower hlower => ih ?_
        exact ⟨by simpa using hlower, h.upper⟩
    · split
      · refine .seq (.advance _) fun _ => .bind (spells_superscript hn) fun upper hupper => ih ?_
        exact ⟨h.lower, by simpa using hupper⟩
      rename_i primes hprimes
      split
      · refine .seq (.advance _) fun _ => .bind (spells_superscript hn) fun upper hupper => ih ?_
        have both : (Expr.group [primes, upper]).SpelledFrom source := by
          refine spelled_members rfl rfl ?_
          simpa using ⟨h.upper primes hprimes, hupper⟩
        exact ⟨h.lower, by simpa using both⟩
      · exact .pure h
    · exact .pure h

/-- Scripts around a base that is spelled from the formula. -/
theorem spells_scripts (hn : nested.Spells source) {b : Base} (hb : b.expr.SpelledFrom source) :
    Spells source (scripts nested b) (·.SpelledFrom source) := by
  refine .seq (forward_limits_of_spells hn _) fun place => .seq forward_primes fun count => ?_
  refine .bind (spells_scriptsFrom hn 3 ⟨by simp, ?_⟩) fun scripts hscripts => ?_
  · intro e he
    simp only [Option.mem_def, Option.ite_none_left_eq_some, Option.some.injEq] at he
    obtain ⟨-, rfl⟩ := he
    exact spelled_primes count
  · exact .pure (spelled_withScripts place hb hscripts.lower hscripts.upper)

/-- An item is spelled from its base and its scripts. -/
theorem spells_item (hn : nested.Spells source) :
    Spells source (item nested) fun found => ∀ e ∈ found, e.SpelledFrom source := by
  refine .seq forward_skipLayout fun _ => .seq .offset fun start => .bind hn.base fun found h => ?_
  split
  · next b =>
    refine .bind (spells_scripts hn (h b rfl)) fun e he => .pure ?_
    simpa using he
  · refine .seq .offset fun now => ?_
    split
    · exact .seq forward_skipToken fun _ => .pure (by simp)
    · exact .pure (by simp)

/-- A sequence is spelled item by item. -/
theorem spells_sequence (hn : nested.Spells source) (closer : Option Closer) :
    Spells source (sequence nested closer) fun members => ∀ e ∈ members, e.SpelledFrom source := by
  have hnext : Spells source (sequence.next nested closer) fun members =>
      ∀ e ∈ members, e.SpelledFrom source := by
    refine .bind (spells_item hn) fun first hfirst =>
      .bind (hn.sequence closer) fun others hothers => .pure ?_
    exact List.forall_mem_append.mpr ⟨by simpa using hfirst, hothers⟩
  refine .seq forward_skipLayout fun _ => .rest fun ahead _ => ?_
  split
  · exact .pure (by simp)
  · exact .unclosed _
  · split
    · exact .seq (.advance _) fun _ => .pure (by simp)
    · exact hnext
  · exact hnext

/-- A region is closed by nothing or by a delimiter. -/
theorem spells_region (hn : nested.Spells source) :
    Spells source (region nested) fun found =>
      SpelledItems source found.1 ∧ ∀ c ∈ found.2.toList, isAllowed c := by
  have hnone : SpelledItems source [] := ⟨by simp, by simp [separatorsOf]⟩
  have hmissing : Spells source region.missing fun found =>
      SpelledItems source found.1 ∧ ∀ c ∈ found.2.toList, isAllowed c :=
    .seq .offset fun _ => .seq (.note _) fun _ => .pure ⟨hnone, by simp⟩
  have hnext : Spells source (region.next nested) fun found =>
      SpelledItems source found.1 ∧ ∀ c ∈ found.2.toList, isAllowed c := by
    refine .bind (spells_item hn) fun first hfirst => .bind hn.region fun others hothers => .pure ?_
    obtain ⟨⟨hexprs, hseparators⟩, hclosing⟩ := hothers
    refine ⟨⟨fun e he => ?_, ?_⟩, hclosing⟩
    · rcases List.mem_append.mp he with he | he
      · exact hfirst e (by simpa using he)
      · exact hexprs e he
    · cases first <;> exact hseparators
  refine .seq forward_skipLayout fun _ => .rest fun ahead _ => ?_
  split
  · exact hmissing
  split
  · exact hmissing
  split
  · dsimp only
    split
    · exact hmissing
    split
    · refine .seq (.advance _) fun _ => ?_
      exact .bind (spells_delimiterAfter _) fun closing hclosing => .pure ⟨hnone, hclosing⟩
    split
    · refine .seq (.advance _) fun _ => ?_
      refine .bind (spells_delimiterAfter _) fun separator hseparator => ?_
      refine .bind hn.region fun others hothers => .pure ?_
      obtain ⟨⟨hexprs, hseparators⟩, hclosing⟩ := hothers
      refine ⟨⟨fun e he => hexprs e (by simpa using he), ?_⟩, hclosing⟩
      exact List.forall_mem_cons.mpr ⟨hseparator, hseparators⟩
    · exact hnext
  · exact hnext

/-- Rows are spelled cell by cell, those that have been collected before included. -/
theorem spells_rows (hn : nested.Spells source) {row : Row} {cell : Cell}
    (hrow : ∀ cell ∈ row, ∀ e ∈ cell, e.SpelledFrom source)
    (hcell : ∀ e ∈ cell, e.SpelledFrom source) :
    Spells source (rows nested row cell) (SpelledRows source) := by
  have hclosed : ∀ closed ∈ row ++ [cell], ∀ e ∈ closed, e.SpelledFrom source := by
    simpa [or_imp, forall_and] using ⟨hrow, hcell⟩
  have hlast : SpelledRows source (rows.last row cell) := by
    unfold rows.last
    split
    · simp [SpelledRows]
    · simpa [SpelledRows] using hclosed
  have hmissing : Spells source (rows.missing row cell) (SpelledRows source) :=
    .seq .offset fun _ => .seq (.note _) fun _ => .pure hlast
  have hnext : Spells source (rows.next nested row cell) (SpelledRows source) := by
    refine .bind (spells_item hn) fun first hfirst => hn.rows _ _ hrow ?_
    exact List.forall_mem_append.mpr ⟨hcell, by simpa using hfirst⟩
  have hothers : Spells source (do
      let others ← nested.rows [] []
      return (row ++ [cell]) :: others : Reading (List Row)) (SpelledRows source) := by
    refine .bind (hn.rows [] [] (by simp) (by simp)) fun others h => .pure ?_
    exact List.forall_mem_cons.mpr ⟨hclosed, h⟩
  refine .seq forward_skipLayout fun _ => .rest fun ahead _ => ?_
  split
  · exact hmissing
  split
  · exact hmissing
  split
  · exact .seq (.advance _) fun _ => hn.rows _ _ hclosed (by simp)
  split
  · dsimp only
    split
    · refine .seq (.advance _) fun _ => .seq .rest fun now => ?_
      split
      · exact .seq (forward_through _) fun _ => hothers
      · exact hothers
    split
    · exact .seq (.advance _) fun _ => .seq forward_environmentName fun _ => .pure hlast
    · exact hnext
  · exact hnext

/-- An environment is spelled from its rows and by the delimiters that it brings along. -/
theorem spells_environment (hn : nested.Spells source) :
    Spells source (environment nested) fun found => ∀ e ∈ found, e.SpelledFrom source := by
  refine .seq forward_environmentName fun name => ?_
  split
  · exact .seq .offset fun _ => .seq (.note _) fun _ => .pure (by simp)
  split
  · exact .seq (.note _) fun _ => .seq (forward_skipEnvironment _) fun _ => .pure (by simp)
  rename_i environment _
  refine .iteBind forward_columnSpecification (.pure _) fun specification => ?_
  refine .bind (hn.rows [] [] (by simp) (by simp)) fun rows hrows => ?_
  have harray (alignments : List Alignment) : (Expr.array alignments rows).SpelledFrom source :=
    (throughout_rows rfl).mpr ⟨ownTextsFrom_of_nil rfl, hrows⟩
  dsimp only
  split
  · next opening closing hdelimiters =>
    obtain ⟨hopening, hclosing⟩ := allowed_of_delimiters? hdelimiters
    refine .pure fun e he => ?_
    cases he
    refine spelled_delimited hopening hclosing ⟨?_, by simp [separatorsOf]⟩
    simpa using harray _
  · refine .pure fun e he => ?_
    cases he
    exact harray _

/-- A delimited region is spelled from its content and by its delimiters. -/
theorem spells_delimited (hn : nested.Spells source) :
    Spells source (delimited nested) (·.SpelledFrom source) := by
  refine .bind (spells_delimiterAfter _) fun opening hopening =>
    .bind hn.region fun (content, closing) hcontent => .pure ?_
  exact spelled_delimited hopening hcontent.2 hcontent.1

/-- Finding a base. -/
theorem spells_found {b : Base} (h : b.expr.SpelledFrom source) :
    Spells source (Pure.pure (some b)) fun found => ∀ b ∈ found, b.expr.SpelledFrom source :=
  .pure (by simpa using h)

/-- A construction over one argument. -/
theorem spells_overArgument (hn : nested.Spells source) {f : Expr → Expr}
    (hf : ∀ e, e.SpelledFrom source → (f e).SpelledFrom source) :
    Spells source (do return some (.side (f (← argument nested))) : Reading (Option Base))
      fun found => ∀ b ∈ found, b.expr.SpelledFrom source :=
  .bind (spells_argument hn) fun e he => spells_found (hf e he)

/-- A construction over two arguments. -/
theorem spells_overArguments (hn : nested.Spells source) {f : Expr → Expr → Expr}
    (hf : ∀ e, e.SpelledFrom source → ∀ e', e'.SpelledFrom source → (f e e').SpelledFrom source) :
    Spells source (do
      let first ← argument nested
      let second ← argument nested
      return some (.side (f first second)) : Reading (Option Base))
      fun found => ∀ b ∈ found, b.expr.SpelledFrom source :=
  .bind (spells_argument hn) fun e he => .bind (spells_argument hn) fun e' he' =>
    spells_found (hf e he e' he')

/-- A plain text is spelled as it stands. -/
theorem spelled_plainText {e : Expr} {shown : String} (hnodes : e.nodes = [e])
    (hown : e.ownTexts = [shown]) (hplain : e.ShowsPlainText)
    (h : ∀ c ∈ shown.toList, isAllowed c ∨ c ∈ source) : e.SpelledFrom source := by
  rw [SpelledFrom, throughout_leaf hnodes, OwnTextsFrom, hown, List.forall_mem_singleton]
  intro c hc
  exact (h c hc).imp_right fun hmem => ⟨hmem, .inr hplain⟩

/-- A command with allowed texts is spelled by them and from its arguments. -/
theorem spells_command (hn : nested.Spells source) (start : Nat) {found : Command}
    (h : ∀ shown ∈ found.texts, ∀ c ∈ shown.toList, isAllowed c) :
    Spells source (command nested start found) fun found =>
      ∀ b ∈ found, b.expr.SpelledFrom source := by
  cases found with
  | symbol kind glyph =>
    exact spells_found (spelled_allowed rfl rfl (h glyph List.mem_cons_self))
  | identifier shown =>
    exact spells_found (spelled_allowed rfl rfl (h shown List.mem_cons_self))
  | operatorName name limits =>
    exact spells_found (spelled_allowed rfl rfl (h name List.mem_cons_self))
  | space width =>
    exact spells_found ((throughout_leaf rfl).mpr (ownTextsFrom_of_nil rfl))
  | sized factor =>
    refine .bind spells_delimiter fun found hfound => ?_
    split
    · next glyph =>
      have hglyph : glyph.expr.SpelledFrom source := spelled_allowed rfl rfl (hfound glyph rfl)
      exact spells_found (spelled_part rfl rfl hglyph)
    · exact .seq (.note _) fun _ => .pure (by simp)
  | decoration kind mark side =>
    refine .bind (spells_argument hn) fun base hbase => spells_found ?_
    have hmark : (Expr.symbol kind mark).SpelledFrom source :=
      spelled_allowed rfl rfl (h mark List.mem_cons_self)
    cases side with
    | above => exact spelled_parts rfl rfl hbase hmark
    | below => exact spelled_parts rfl rfl hbase hmark
  | fraction style =>
    exact spells_overArguments hn fun numerator hnumerator denominator hdenominator =>
      spelled_parts rfl rfl hnumerator hdenominator
  | sqrt =>
    refine .seq forward_skipLayout fun _ => .rest fun ahead _ => ?_
    split
    · refine .seq (.advance _) fun _ => .bind (hn.sequence _) fun index hindex =>
        .bind (spells_argument hn) fun base hbase => spells_found ?_
      exact spelled_parts rfl rfl (spelled_ofList hindex) hbase
    · exact spells_overArgument hn fun e he => spelled_part rfl rfl he
  | left => exact .bind (spells_delimited hn) fun e he => spells_found he
  | beginEnvironment =>
    refine .bind (spells_environment hn) fun found hfound => .pure ?_
    simpa [Base.side] using hfound
  | overset =>
    exact spells_overArguments hn fun above habove base hbase => spelled_parts rfl rfl hbase habove
  | underset =>
    exact spells_overArguments hn fun below hbelow base hbase => spelled_parts rfl rfl hbase hbelow
  | boxed | phantom | cancel =>
    exact spells_overArgument hn fun e he => spelled_part rfl rfl he
  | namedOperator limits =>
    exact .bind spells_textArgument fun name hname =>
      spells_found (spelled_plainText rfl rfl trivial hname)
  | limits | ignored | right | middle | endEnvironment => exact .pure (by simp)

/-- A style command is spelled from its argument, be it a formula or plain text. -/
theorem spells_styled (hn : nested.Spells source) (style : StyleCommand) :
    Spells source (styled nested style) (·.SpelledFrom source) := by
  cases style with
  | text style =>
    exact .bind spells_textArgument fun shown hshown =>
      .pure (spelled_plainText rfl rfl trivial hshown)
  | formula style =>
    refine .seq forward_skipLayout fun _ => .rest fun ahead _ => ?_
    split
    · exact .seq (.advance _) fun _ => .bind (hn.sequence _) fun members hmembers =>
        .pure (spelled_members rfl rfl hmembers)
    · refine .bind hn.base fun found hfound => .pure (spelled_members rfl rfl ?_)
      simpa using hfound

/-- A command is spelled by what the tables say of its name. -/
theorem spells_commandBase (hn : nested.Spells source) (after : List Char) :
    Spells source (commandBase nested after) fun found =>
      ∀ b ∈ found, b.expr.SpelledFrom source := by
  unfold commandBase
  dsimp only
  split
  · exact .pure (by simp)
  rename_i meaning hmeaning
  split
  · next found =>
    split
    · exact .pure (by simp)
    · refine .seq .offset fun start => .seq (.advance _) fun _ => ?_
      exact spells_command hn start (allowed_of_command? (command?_of_ofName? hmeaning))
  · next glyph =>
    have hfound : delimiterCommand? _ = some glyph := delimiterCommand?_of_ofName? hmeaning
    refine .seq (.advance _) fun _ => spells_found ?_
    exact spelled_allowed rfl rfl (allowed_of_delimiterCommand? hfound)
  · exact .seq (.advance _) fun _ => .bind (spells_styled hn _) fun e he => spells_found he

/-- A base is spelled from its group, its number, its command or its character. -/
theorem spells_base (hn : nested.Spells source) :
    Spells source (Reading.base nested) fun found => ∀ b ∈ found, b.expr.SpelledFrom source := by
  refine .seq forward_skipLayout fun _ => .rest fun ahead hahead => ?_
  split
  · exact .pure (by simp)
  rename_i c after
  split
  · refine .seq (.advance _) fun _ => .bind (hn.sequence _) fun members hmembers => ?_
    exact spells_found (spelled_members rfl rfl hmembers)
  split
  · next hnumber =>
    refine .seq (.advance _) fun _ => spells_found (spelled_allowed rfl rfl fun c hc => ?_)
    rw [String.toList_ofList] at hc
    rcases (numeral_take_numberLength hnumber).isDigit_or_eq_dot hc with hdigit | rfl
    · exact forall_isDigit (fun c => isAllowed c) (by decide) hdigit
    · decide
  split
  · exact spells_commandBase hn after
  split
  · exact spells_found spelled_empty
  split
  · exact .seq forward_primes fun count => spells_found (spelled_primes count)
  split
  · refine .seq (.advance _) fun _ => spells_found ?_
    exact (throughout_leaf rfl).mpr (ownTextsFrom_of_nil rfl)
  split
  · exact .pure (by simp)
  · next e he =>
    have hspelled := spelled_ofChar? (hahead List.mem_cons_self) he
    exact .seq (.advance _) fun _ => spells_found hspelled

end Reading

/-- The rules spell in this way at every depth. -/
theorem Nested.spells_ofDepth (source : List Char) (depth : Nat) :
    (Nested.ofDepth depth).Spells source := by
  induction depth with
  | zero =>
    exact {
      base := .pure (by simp)
      limits := fun place => .pure place
      sequence := fun closer => .pure (by simp)
      region := .pure ⟨⟨by simp, by simp [separatorsOf]⟩, by simp⟩
      rows := fun row cell _ _ => .pure (by simp [SpelledRows]) }
  | succ depth ih =>
    exact {
      base := Reading.spells_base ih
      limits := Reading.forward_limits_of_spells ih
      sequence := Reading.spells_sequence ih
      region := Reading.spells_region ih
      rows := fun row cell hrow hcell => Reading.spells_rows ih hrow hcell }

/-- Settling the binary operators changes no text. -/
theorem spelled_settleFrom {source : List Char} {formula : Formula}
    (h : ∀ e ∈ formula, e.SpelledFrom source) (previous : Option Expr) :
    ∀ e ∈ settleFrom previous formula, e.SpelledFrom source := by
  induction formula generalizing previous with
  | nil => simp [settleFrom]
  | cons e rest ih =>
    rw [List.forall_mem_cons] at h
    refine List.forall_mem_cons.mpr ⟨?_, ih h.2 _⟩
    unfold Expr.settle
    split
    · cases e with
      | symbol kind glyph => exact (Expr.throughout_leaf rfl).mpr h.1.node
      | _ => exact h.1
    · exact h.1

/-- **The texts of a formula** that has been read are spelled with allowed characters, and with
characters that it was read from: those beyond ASCII, and in plain texts any. -/
theorem spelled_of_parse {text : String} {formula : Formula} (h : parse text = .ok formula) :
    ∀ e ∈ formula, e.SpelledFrom text.toList := by
  have hread : Reading.Spells text.toList (Reading.alone (·.sequence none)) fun members =>
      ∀ e ∈ members, e.SpelledFrom text.toList :=
    .rest fun ahead _ => (Nested.spells_ofDepth _ _).sequence none
  simp only [parse, read] at h
  split at h
  · next members finish hrun =>
    cases h
    obtain ⟨hmembers, -⟩ := hread _ _ _ (fun c hc => hc) hrun
    exact spelled_settleFrom hmembers none
  · cases h

end OfficeMath
