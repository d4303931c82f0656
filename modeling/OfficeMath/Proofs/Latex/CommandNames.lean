import OfficeMath.Latex.Commands

/-!
# What a command name means

The tables of commands read backwards: which names have a given meaning.  A few commands change
how the text after them is read, and every statement about this text has to know their names.

* `names_of_commands` — what the whole table says of the names that matter, checked once;
* `name_of_sqrt`, `name_of_beginEnvironment` — each of these constructions has a single name;
* `mem_of_takesText` — the commands whose argument is plain text (`textCommands`, and two more);
* `eq_operatorname_of_starred` — one command name ends in a star.
-/

namespace OfficeMath

/-- A name that means a command stands in the table of commands. -/
theorem command?_of_ofName? {name : String} {c : Command}
    (h : Meaning.ofName? name = some (.command c)) : command? name = some c := by
  unfold Meaning.ofName? at h
  split at h
  · next found hfound => simpa [hfound] using h
  · split at h <;> simp at h

/-- What is found in a table stands there. -/
theorem mem_of_lookup {α β : Type} [BEq α] [LawfulBEq α] {table : List (α × β)} {key : α}
    {value : β} (h : table.lookup key = some value) : (key, value) ∈ table := by
  obtain ⟨front, back, hsplit, -⟩ := List.lookup_eq_some_iff.mp h
  simp [hsplit]

/-- So does a command that is found by its name. -/
theorem mem_commands {name : String} {c : Command} (h : command? name = some c) :
    (name, c) ∈ commands := mem_of_lookup h

/-- A name that means a delimiter stands in the table of delimiters. -/
theorem delimiterCommand?_of_ofName? {name : String} {glyph : Glyph}
    (h : Meaning.ofName? name = some (.delimiter glyph)) : delimiterCommand? name = some glyph := by
  unfold Meaning.ofName? at h
  split at h
  · cases h
  split at h
  · next found hfound => simpa [hfound] using h
  · simp at h

/-- A name that means a style stands in the table of styles. -/
theorem mem_styleCommands {name : String} {style : StyleCommand}
    (h : Meaning.ofName? name = some (.style style)) : (name, style) ∈ styleCommands := by
  unfold Meaning.ofName? at h
  split at h
  · cases h
  split at h
  · cases h
  obtain ⟨found, hfound, hstyle⟩ := Option.map_eq_some_iff.mp h
  cases hstyle
  exact mem_of_lookup hfound

/-- The names that their commands alone have.  The last character of a name is told from its last
byte, which the kernel reads without decoding the name. -/
theorem names_of_commands : ∀ entry ∈ commands,
    (entry.2 = .sqrt → entry.1 = "sqrt") ∧
    (entry.2 = .beginEnvironment → entry.1 = "begin") ∧
    (∀ limits ∈ [Limits.side, .movable, .fixed],
      entry.2 = .namedOperator limits → entry.1 ∈ ["operatorname", "operatorname*"]) ∧
    (entry.1.toByteArray.data.toList.getLast? = some '*'.toUInt8 →
      entry.1 = "operatorname*") := by
  decide +kernel

/-- One command alone is a root. -/
theorem name_of_sqrt {name : String} (h : Meaning.ofName? name = some (.command .sqrt)) :
    name = "sqrt" := by
  obtain ⟨hsqrt, -⟩ := names_of_commands _ (mem_commands (command?_of_ofName? h))
  exact hsqrt rfl

/-- One command alone begins an environment. -/
theorem name_of_beginEnvironment {name : String}
    (h : Meaning.ofName? name = some (.command .beginEnvironment)) : name = "begin" := by
  obtain ⟨-, hbegin, -⟩ := names_of_commands _ (mem_commands (command?_of_ofName? h))
  exact hbegin rfl

/-- The last byte of a text that ends in a star. -/
theorem getLast?_bytes_star (word : List Char) :
    (String.ofList (word ++ ['*'])).toByteArray.data.toList.getLast? = some '*'.toUInt8 := by
  have hstar : ['*'].utf8Encode.data.toList = ['*'.toUInt8] := by decide
  rw [String.toByteArray_ofList, List.utf8Encode_append, ByteArray.data_append,
    Array.toList_append, hstar, List.getLast?_concat]

/-- One command name ends in a star. -/
theorem eq_operatorname_of_starred {word : List Char}
    (h : (command? (String.ofList (word ++ ['*']))).isSome) : word = "operatorname".toList := by
  obtain ⟨found, hfound⟩ := Option.isSome_iff_exists.mp h
  obtain ⟨-, -, -, hstarred⟩ := names_of_commands _ (mem_commands hfound)
  have hname : word ++ ['*'] = "operatorname".toList ++ ['*'] :=
    String.ofList_injective (hstarred (getLast?_bytes_star word))
  exact List.append_cancel_right hname

/-! ## Commands that take plain text -/

/-- A command that takes its argument as plain text. -/
def takesText (name : String) : Bool :=
  match Meaning.ofName? name with
  | some (.command (.namedOperator _)) => true
  | some (.style (.text _)) => true
  | _ => false

/-- The style commands whose argument is plain text. -/
def textCommands : List String :=
  styleCommands.filterMap fun (name, style) =>
    match style with
    | .text _ => some name
    | .formula _ => none

/-- Besides the style commands, those that name an operator take plain text. -/
theorem mem_of_takesText {name : String} (h : takesText name) :
    name ∈ "operatorname" :: "operatorname*" :: textCommands := by
  unfold takesText at h
  split at h
  · next limits hname =>
    obtain ⟨-, -, hoperators, -⟩ := names_of_commands _ (mem_commands (command?_of_ofName? hname))
    have hlimits : limits ∈ [Limits.side, .movable, .fixed] := by cases limits <;> decide
    exact List.mem_append_left textCommands (hoperators limits hlimits rfl)
  · next style hname =>
    apply List.mem_cons_of_mem
    apply List.mem_cons_of_mem
    exact List.mem_filterMap.mpr ⟨_, mem_styleCommands hname, rfl⟩
  · cases h

end OfficeMath
