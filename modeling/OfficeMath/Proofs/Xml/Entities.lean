import OfficeMath.Proofs.Xml.RoundTrip

/-!
# Entities resolved one kind after the other

The simplest way to undo escaping goes over the text five times and replaces one kind of entity
each time (`resolveInTurn`).  Unlike a reader that goes over the text once, it sees texts in which
some entities have been resolved and others have not, and a character that it has put there may
look like the beginning of an entity.  It does not go wrong because the ampersand comes last: until
then every ampersand of the text still begins an entity (`replaceAll_escapeExcept`), and what is
put there for the last kind is not looked at again.
-/

namespace OfficeMath.Xml

/-- The entities, and what they stand for. -/
def entities : List (String × Char) :=
  [("&lt;", '<'), ("&gt;", '>'), ("&quot;", '"'), ("&#39;", '\x27'), ("&amp;", '&')]

/-- A text in which every occurrence of a word is replaced.  Of occurrences that overlap the first
one counts, and `skip` characters ahead belong to one that has been replaced already. -/
def replaceFrom (word replacement : List Char) : (skip : Nat) → List Char → List Char
  | _, [] => []
  | skip + 1, _ :: rest => replaceFrom word replacement skip rest
  | 0, c :: rest =>
    if word <+: c :: rest then
      replacement ++ replaceFrom word replacement (word.length - 1) rest
    else c :: replaceFrom word replacement 0 rest

/-- A text in which every occurrence of a word, which is not empty, is replaced. -/
def replaceAll (word replacement text : List Char) : List Char :=
  replaceFrom word replacement 0 text

/-- A text with its entities resolved, one kind after the other and the ampersand last. -/
def resolveInTurn (text : String) : String :=
  String.ofList <| entities.foldl
    (fun resolved entity => replaceAll entity.1.toList [entity.2] resolved) text.toList

/-! ## Replacing an entity -/

/-- What has been replaced is passed over. -/
theorem replaceFrom_skip (word replacement taken rest : List Char) :
    replaceFrom word replacement taken.length (taken ++ rest)
      = replaceFrom word replacement 0 rest := by
  induction taken with
  | nil => rfl
  | cons c taken ih =>
    rw [List.cons_append, List.length_cons, replaceFrom]
    exact ih

/-- An occurrence at the front is replaced. -/
theorem replaceAll_word {c : Char} (word replacement rest : List Char) :
    replaceAll (c :: word) replacement (c :: word ++ rest)
      = replacement ++ replaceAll (c :: word) replacement rest := by
  have hfront : c :: word <+: c :: (word ++ rest) := ⟨rest, rfl⟩
  rw [replaceAll, List.cons_append, replaceFrom, if_pos hfront, List.length_cons,
    Nat.add_sub_cancel, replaceFrom_skip]
  rfl

-- the first two occurrences overlap with two others
example : replaceAll "aa".toList "b".toList "aaaaa".toList = "bba".toList := by decide

/-- A character at which the word does not stand is kept. -/
theorem replaceAll_cons {word : List Char} (replacement : List Char) {c : Char} {rest : List Char}
    (h : ¬ word <+: c :: rest) :
    replaceAll word replacement (c :: rest) = c :: replaceAll word replacement rest := by
  rw [replaceAll, replaceFrom, if_neg h]
  rfl

/-- Characters other than its first one are no place for a word. -/
theorem replaceAll_append {c : Char} (word replacement : List Char) {front : List Char}
    (h : c ∉ front) (rest : List Char) :
    replaceAll (c :: word) replacement (front ++ rest)
      = front ++ replaceAll (c :: word) replacement rest := by
  induction front with
  | nil => rfl
  | cons d front ih =>
    rw [List.mem_cons, not_or] at h
    have hother : ¬ c :: word <+: d :: (front ++ rest) := by
      intro hfront
      exact h.1 (List.cons_prefix_cons.mp hfront).1
    rw [List.cons_append, replaceAll_cons replacement hother, ih h.2]
    rfl

/-! ## Texts between escaped and plain -/

/-- A text in which all characters are escaped but those that have been resolved. -/
def escapeExcept (resolved : List Char) (text : List Char) : List Char :=
  text.flatMap fun c => if c ∈ resolved then [c] else (escapeChar c).toList

/-- A text is escaped character by character, but for those that have been resolved. -/
theorem escapeExcept_cons (resolved : List Char) (c : Char) (text : List Char) :
    escapeExcept resolved (c :: text)
      = (if c ∈ resolved then [c] else (escapeChar c).toList) ++ escapeExcept resolved text := by
  simp [escapeExcept]

/-- An entity begins with an ampersand and has no other one. -/
theorem exists_of_mem_entities {entity : String × Char} (h : entity ∈ entities) :
    ∃ name, entity.1.toList = '&' :: name ∧ '&' ∉ name := by
  have all : ∀ entity ∈ entities,
      entity.1.toList = '&' :: entity.1.toList.tail ∧ '&' ∉ entity.1.toList.tail := by decide
  exact ⟨_, all entity h⟩

/-- A character is written as its entity, or it stands for itself and is no ampersand. -/
theorem escapeChar_cases (c : Char) :
    (∃ entity ∈ entities, entity.2 = c ∧ escapeChar c = entity.1) ∨
      escapeChar c = String.ofList [c] ∧ c ≠ '&' := by
  by_cases special : c ∈ ['&', '<', '>', '"', '\x27']
  · left
    simp only [List.mem_cons, List.not_mem_nil, or_false] at special
    rcases special with rfl | rfl | rfl | rfl | rfl <;> decide
  · right
    refine ⟨escapeChar_of_ne special, ?_⟩
    rintro rfl
    exact special List.mem_cons_self

/-- No entity is the beginning of another one, whatever comes after it. -/
theorem eq_of_entity_front {entity other : String × Char} (h : entity ∈ entities)
    (hother : other ∈ entities) {rest : List Char}
    (hfront : entity.1.toList <+: other.1.toList ++ rest) : entity.2 = other.2 := by
  -- the characters after the ampersand tell them apart
  have second : ∀ entity ∈ entities, ∀ other ∈ entities,
      entity.1.toList[1]? = other.1.toList[1]? → entity.2 = other.2 := by decide
  have long : ∀ entity ∈ entities, 1 < entity.1.toList.length := by decide
  apply second entity h other hother
  obtain ⟨more, hmore⟩ := hfront
  calc entity.1.toList[1]?
      = (entity.1.toList ++ more)[1]? := (List.getElem?_append_left (long entity h)).symm
    _ = (other.1.toList ++ rest)[1]? := by rw [hmore]
    _ = other.1.toList[1]? := List.getElem?_append_left (long other hother)

/-- An entity is known by what it stands for. -/
theorem entity_eq_of_snd_eq {entity other : String × Char} (h : entity ∈ entities)
    (hother : other ∈ entities) (heq : entity.2 = other.2) : entity = other := by
  have all : ∀ entity ∈ entities, ∀ other ∈ entities,
      entity.2 = other.2 → entity = other := by decide
  exact all entity h other hother heq

/-- **One kind of entity is resolved.**  As long as the ampersand has not been resolved, replacing
an entity resolves the character that it stands for and touches nothing else. -/
theorem replaceAll_escapeExcept (resolved : List Char) (hamp : '&' ∉ resolved)
    (entity : String × Char) (hentity : entity ∈ entities) (text : List Char) :
    replaceAll entity.1.toList [entity.2] (escapeExcept resolved text)
      = escapeExcept (entity.2 :: resolved) text := by
  obtain ⟨name, hname, -⟩ := exists_of_mem_entities hentity
  induction text with
  | nil => rfl
  | cons c text ih =>
    have kept (hc : c ≠ '&') : replaceAll entity.1.toList [entity.2]
        (c :: escapeExcept resolved text) = c :: escapeExcept (entity.2 :: resolved) text := by
      rw [← ih]
      apply replaceAll_cons
      intro hfront
      rw [hname] at hfront
      exact hc (List.cons_prefix_cons.mp hfront).1.symm
    rw [escapeExcept_cons, escapeExcept_cons]
    by_cases hc : c ∈ resolved
    · have hne : c ≠ '&' := fun h => hamp (h ▸ hc)
      rw [if_pos hc, if_pos (List.mem_cons_of_mem _ hc)]
      exact kept hne
    rw [if_neg hc]
    rcases escapeChar_cases c with ⟨other, hother, rfl, hwritten⟩ | ⟨hwritten, hne⟩
    · rw [hwritten]
      by_cases hsame : entity = other
      · subst hsame
        rw [if_pos List.mem_cons_self, ← ih, hname]
        exact replaceAll_word _ _ _
      · -- another entity: not an occurrence, and none begins inside of it
        obtain ⟨name', hname', hinside⟩ := exists_of_mem_entities hother
        have hdiffers : other.2 ∉ entity.2 :: resolved := by
          rw [List.mem_cons, not_or]
          exact ⟨fun h => hsame (entity_eq_of_snd_eq hentity hother h.symm), hc⟩
        have hnot : ¬ entity.1.toList <+: '&' :: (name' ++ escapeExcept resolved text) := by
          intro hfront
          rw [← List.cons_append, ← hname'] at hfront
          exact hsame (entity_eq_of_snd_eq hentity hother
            (eq_of_entity_front hentity hother hfront))
        rw [if_neg hdiffers, hname', List.cons_append, replaceAll_cons _ hnot, hname,
          replaceAll_append _ _ hinside, ← hname, ih]
        rfl
    · rw [hwritten, String.toList_ofList, ite_self]
      exact kept hne

/-- A text in which all has been resolved is plain. -/
theorem escapeExcept_all (resolved : List Char) (h : ∀ entity ∈ entities, entity.2 ∈ resolved)
    (text : List Char) : escapeExcept resolved text = text := by
  induction text with
  | nil => rfl
  | cons c text ih =>
    rw [escapeExcept_cons, ih]
    split
    · rfl
    · next hc =>
      rcases escapeChar_cases c with ⟨entity, hentity, rfl, -⟩ | ⟨hwritten, -⟩
      · exact absurd (h entity hentity) hc
      · rw [hwritten, String.toList_ofList, List.singleton_append]

/-- **Resolving the entities in turn undoes escaping**, whatever the text looks like. -/
theorem resolveInTurn_escape (text : String) : resolveInTurn (escape text) = text := by
  have hescaped : (escape text).toList = escapeExcept [] text.toList := by
    simp [toList_escape, escapeExcept]
  have hless := replaceAll_escapeExcept [] (by decide) ("&lt;", '<') (by decide) text.toList
  have hgreater := replaceAll_escapeExcept ['<'] (by decide) ("&gt;", '>') (by decide) text.toList
  have hquote := replaceAll_escapeExcept ['>', '<'] (by decide) ("&quot;", '"') (by decide)
    text.toList
  have hapostrophe := replaceAll_escapeExcept ['"', '>', '<'] (by decide) ("&#39;", '\x27')
    (by decide) text.toList
  have hampersand := replaceAll_escapeExcept ['\x27', '"', '>', '<'] (by decide) ("&amp;", '&')
    (by decide) text.toList
  have hplain := escapeExcept_all ['&', '\x27', '"', '>', '<'] (by decide) text.toList
  rw [resolveInTurn, hescaped]
  simp only [entities, List.foldl_cons, List.foldl_nil]
  rw [hless, hgreater, hquote, hapostrophe, hampersand, hplain, String.ofList_toList]

/-! ## What escaping writes -/

/-- What begins with an ampersand does not begin among other characters. -/
theorem suffix_of_suffix_append {front ahead rest : List Char} (h : '&' ∉ front)
    (hsuffix : '&' :: ahead <:+ front ++ rest) : '&' :: ahead <:+ rest := by
  induction front with
  | nil => exact hsuffix
  | cons c front ih =>
    rw [List.mem_cons, not_or] at h
    rw [List.cons_append, List.suffix_cons_iff] at hsuffix
    rcases hsuffix with heq | hlater
    · exact absurd (List.cons.inj heq).1 h.1
    · exact ih h.2 hlater

/-- An ampersand in an escaped text begins an entity. -/
theorem exists_entity_of_ampersand {ahead : List Char} {text : String}
    (h : '&' :: ahead <:+ (escape text).toList) :
    ∃ entity ∈ entities, entity.1.toList <+: '&' :: ahead := by
  rw [toList_escape] at h
  generalize text.toList = chars at h
  induction chars with
  | nil => simp at h
  | cons c chars ih =>
    rw [List.flatMap_cons] at h
    rcases escapeChar_cases c with ⟨entity, hentity, -, hwritten⟩ | ⟨hwritten, hne⟩
    · obtain ⟨name, hname, hinside⟩ := exists_of_mem_entities hentity
      rw [hwritten, hname, List.cons_append, List.suffix_cons_iff] at h
      rcases h with heq | hlater
      · refine ⟨entity, hentity, ?_⟩
        rw [heq, hname, ← List.cons_append]
        exact List.prefix_append _ _
      · exact ih (suffix_of_suffix_append hinside hlater)
    · rw [hwritten, String.toList_ofList] at h
      have hother : '&' ∉ [c] := by simpa using Ne.symm hne
      exact ih (suffix_of_suffix_append hother h)

/-- **Escaping is safe and loses nothing.**  Whatever has been written already, escaping only adds
to it, and adds the same.  What it adds has no angle bracket and no quotation mark, and an ampersand
only where an entity begins.  Two texts in a row are escaped one after the other.  Resolving the
entities in turn gives back the text, even if it contains entities itself. -/
theorem escapeOnto_safe_and_undone (output text : String) :
    (escapeOnto output text = output ++ escape text ∧
      (∀ c ∈ ['<', '>', '"', '\x27'], c ∉ (escape text).toList) ∧
      ∀ ahead, '&' :: ahead <:+ (escape text).toList →
        ∃ entity ∈ entities, entity.1.toList <+: '&' :: ahead) ∧
    (∀ more, escapeOnto output (text ++ more) = escapeOnto (escapeOnto output text) more ∧
      escape (text ++ more) = escape text ++ escape more) ∧
    resolveInTurn (escape text) = text := by
  refine ⟨⟨escapeOnto_eq output text, ?_, ?_⟩, ?_, resolveInTurn_escape text⟩
  · intro c hc
    exact not_mem_escape hc text
  · intro ahead hahead
    exact exists_entity_of_ampersand hahead
  · intro more
    refine ⟨?_, escape_append text more⟩
    rw [escapeOnto_eq, escapeOnto_eq output, escapeOnto_eq, escape_append, String.append_assoc]

/-- A text that contains an entity and pieces of others, after a tag that has been written. -/
theorem escapeOnto_safe_and_undone_entities :
    escapeOnto "<m:t>" "&lt;&amp;amp;<#39;" = "<m:t>&amp;lt;&amp;amp;amp;&lt;#39;" ∧
    ('<' ∉ (escape "&lt;&amp;amp;<#39;").toList ∧
      ∃ entity ∈ entities, entity.1.toList <+: "&amp;amp;amp;&lt;#39;".toList) ∧
    resolveInTurn "&amp;lt;&amp;amp;amp;&lt;#39;" = "&lt;&amp;amp;<#39;" := by
  have hescape : escape "&lt;&amp;amp;<#39;" = "&amp;lt;&amp;amp;amp;&lt;#39;" := by decide
  obtain ⟨⟨honto, hmarkup, hampersand⟩, -, hundone⟩ :=
    escapeOnto_safe_and_undone "<m:t>" "&lt;&amp;amp;<#39;"
  refine ⟨?_, ⟨hmarkup '<' (by decide), ?_⟩, ?_⟩
  · rw [honto, hescape]
    decide
  · refine hampersand "amp;amp;amp;&lt;#39;".toList ?_
    rw [hescape]
    decide
  · rw [← hescape]
    exact hundone

end OfficeMath.Xml
