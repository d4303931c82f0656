import Mathlib
import OfficeMath.Proofs.Formula.Nodes
import OfficeMath.Proofs.Latex.Approach
import OfficeMath.Proofs.Latex.Numeral
import OfficeMath.Proofs.Latex.Significant

/-!
# The books of the reader

Where do the characters of a formula go?  A `Ledger` puts a price on every character, on every leaf
of an expression and on every note.  It is fair (`Ledger.Fair`) if the reader breaks even on each
single thing that it makes out of characters: a letter costs what its identifier is worth, the
digits of a number what the number is worth, a pair of braces nothing, and so on.

Then the reader breaks even on a whole formula without commands: what its significant characters
cost is what the result and the notes are worth (`Ledger.Fair.balances`).  Every way to count
characters and leaves against each other is one choice of prices.

The books are kept along a reading: `Ledger.funds` is the price of the characters ahead and of the
notes made so far, and a step is given the worth of what has been read before it (`held`) and
hands on the worth of its result (`Reading.Balances`).  It is only asked to balance where it
succeeds, so the rules are climbed from below (`Nested.approach`).
-/

namespace OfficeMath

/-! ## Ledgers -/

/-- A price for characters, leaves and notes. -/
structure Ledger where
  char : Char → Int
  identifier : String → Int
  symbol : String → Int
  number : String → Int
  space : Int
  note : Note → Int

/-- The reader breaks even on whatever it makes out of characters. -/
structure Ledger.Fair (L : Ledger) : Prop where
  letter : ∀ c, isAlphabetic c → L.identifier (String.ofList [c]) = L.char c
  sign : ∀ c glyph, isAlphabetic c = false → image? c = some glyph → L.symbol glyph = L.char c
  number : ∀ digits, (∀ c ∈ digits, c.isDigit ∨ c = '.') →
    L.number (String.ofList digits) = (digits.map L.char).sum
  primes : ∀ count, count ≠ 0 → L.symbol (primeGlyph count) = count * L.char '\x27'
  space : L.space = L.char '~'
  braces : L.char '{' + L.char '}' = 0
  above : L.char '^' = 0
  below : L.char '_' = 0
  skipped : ∀ c offset, MeansNothing c → L.note (.skippedCharacter c offset) = L.char c

namespace Ledger

variable (L : Ledger)

/-- The worth of a node, apart from the nodes inside it. -/
def node : Expr → Int
  | .number digits => L.number digits
  | .identifier letters => L.identifier letters
  | .symbol _ glyph => L.symbol glyph
  | .space _ => L.space
  | _ => 0

/-- The worth of an expression with all nodes inside it. -/
def worth (e : Expr) : Int := (e.nodes.map L.node).sum

/-- The worth of several expressions. -/
def worthOf (members : List Expr) : Int := ((nodesOf members).map L.node).sum

/-- The price of the characters of a text that count. -/
def price (text : List Char) : Int := ((significant text).map L.char).sum

/-- The worth of notes. -/
def reported (notes : List Note) : Int := (notes.map L.note).sum

/-- The price of what is ahead and the worth of what has been noted. -/
def funds (s : Scan) : Int := L.price s.rest + L.reported s.notes

/-- The price of a closing character. -/
def dues : Option Closer → Int
  | none => 0
  | some closer => L.char closer.char

variable {L}

@[simp] theorem worthOf_nil : L.worthOf [] = 0 := rfl

@[simp] theorem worthOf_cons (e : Expr) (rest : List Expr) :
    L.worthOf (e :: rest) = L.worth e + L.worthOf rest := by
  simp [worthOf, worth, nodesOf]

@[simp] theorem worthOf_append (front back : List Expr) :
    L.worthOf (front ++ back) = L.worthOf front + L.worthOf back := by
  induction front with
  | nil => simp
  | cons e front ih => simp [ih, Int.add_assoc]

/-- An expression is worth its own node and the nodes inside it. -/
theorem worth_of_nodes {e : Expr} {inner : List Expr} (h : e.nodes = e :: inner) :
    L.worth e = L.node e + (inner.map L.node).sum := by
  rw [worth, h, List.map_cons, List.sum_cons]

@[simp] theorem worth_group (members : List Expr) : L.worth (.group members) = L.worthOf members :=
  (worth_of_nodes rfl).trans (Int.zero_add _)

@[simp] theorem worth_empty : L.worth .empty = 0 :=
  worth_group []

@[simp] theorem worth_symbol (kind : SymbolClass) (glyph : String) :
    L.worth (.symbol kind glyph) = L.symbol glyph :=
  (worth_of_nodes rfl).trans (Int.add_zero _)

@[simp] theorem worth_identifier (letters : String) :
    L.worth (.identifier letters) = L.identifier letters :=
  (worth_of_nodes rfl).trans (Int.add_zero _)

@[simp] theorem worth_number (digits : String) : L.worth (.number digits) = L.number digits :=
  (worth_of_nodes rfl).trans (Int.add_zero _)

@[simp] theorem worth_space (width : Float32) : L.worth (.space width) = L.space :=
  (worth_of_nodes rfl).trans (Int.add_zero _)

/-- Packing expressions into one keeps their worth. -/
@[simp] theorem worth_ofList (members : List Expr) : L.worth (.ofList members) = L.worthOf members := by
  cases members with
  | nil => rfl
  | cons e rest =>
    cases rest with
    | nil => simp
    | cons e' rest => exact worth_group _

/-- A base with scripts is worth what the three are worth. -/
theorem worth_withScripts (place : Limits) (base : Expr) (lower upper : Option Expr) :
    L.worth (base.withScripts place lower upper)
      = L.worth base + L.worthOf lower.toList + L.worthOf upper.toList := by
  cases lower <;> cases upper <;> cases place <;>
    simp [Expr.withScripts, worth, Expr.nodes, node, Int.add_assoc]

/-- The class of a symbol does not matter to its worth. -/
theorem worth_settle (previous next : Option Expr) (e : Expr) :
    L.worth (e.settle previous next) = L.worth e := by
  unfold Expr.settle
  split
  · cases e <;> simp [Expr.toOrdinary]
  · rfl

/-- Settling operators changes classes, and no ledger counts these. -/
theorem worthOf_settleFrom (previous : Option Expr) (members : List Expr) :
    L.worthOf (settleFrom previous members) = L.worthOf members := by
  induction members generalizing previous with
  | nil => rfl
  | cons e rest ih => simp [settleFrom, worth_settle, ih]

/-- What a character stands for on its own is worth its price. -/
theorem Fair.worth_ofChar? (hL : L.Fair) {c : Char} {e : Expr} (h : Expr.ofChar? c = some e) :
    L.worth e = L.char c := by
  rcases ofChar?_cases h with ⟨hletter, rfl⟩ | ⟨hletter, kind, glyph, himage, rfl⟩
  · rw [worth_identifier, hL.letter c hletter]
  · rw [worth_symbol, hL.sign c glyph hletter himage]

/-- Apostrophes are worth their prime. -/
theorem Fair.worth_primes (hL : L.Fair) {count : Nat} (h : count ≠ 0) :
    L.worth (.primes count) = count * L.char '\x27' := by
  rw [Expr.primes, worth_symbol, hL.primes count h]

/-- Layout costs nothing. -/
theorem funds_layout (s : Scan) : L.funds (s.advance (layoutLength s.rest)) = L.funds s := by
  simp only [funds, price, Scan.advance, significant_drop_layout]

/-- Characters that count are paid when they are taken. -/
theorem funds_advance {s : Scan} {count : Nat} (hsolid : ∀ c ∈ s.rest.take count, IsSolid c) :
    L.funds s = ((s.rest.take count).map L.char).sum + L.funds (s.advance count) := by
  have hprice : L.price s.rest
      = ((s.rest.take count).map L.char).sum + L.price (s.rest.drop count) := by
    have happend := significant_append hsolid (s.rest.drop count)
    rw [List.take_append_drop] at happend
    rw [price, price, happend, List.map_append, List.sum_append]
  rw [funds, hprice, Int.add_assoc]
  rfl

end Ledger

/-! ## Steps that balance -/

/-- Where the formula has no commands and the step succeeds, it gives the worth of its result for
what has been held and for the characters that it has taken. -/
def Reading.Balances {α : Type} (L : Ledger) (s : Scan) (held : Int) (m : Reading α)
    (value : α → Int) : Prop :=
  '\\' ∉ s.rest → ∀ a t, m s = .ok a t → L.funds s + held = value a + L.funds t

namespace Reading

namespace Balances

variable {α β : Type} {L : Ledger} {s : Scan} {held : Int} {m : Reading α} {f : α → Reading β}
  {value : α → Int} {value' : β → Int}

/-- The result is worth what has been held. -/
theorem pure {a : α} (h : held = value a) :
    Balances L s held (Pure.pure a : Reading α) value := by
  intro _ b t hrun
  cases hrun
  omega

/-- A step that fails owes nothing. -/
theorem unclosed (closer : Closer) :
    Balances L s held (Reading.unclosed closer : Reading α) value := by
  intro _ b t hrun
  cases hrun

/-- Two steps in a row.  The second one holds what the first one has handed on. -/
theorem bind (hm : m.Forward) (first : Balances L s held m value)
    (second : ∀ a t, m s = .ok a t → Balances L t (value a) (f a) value') :
    Balances L s held (m >>= f) value' := by
  intro hplain b u hrun
  obtain ⟨a, t, ha, hb⟩ := bind_eq_ok.mp hrun
  have hsuffix : t.rest <:+ s.rest := (hm.leads ha).rest_suffix
  have hfirst := first hplain a t ha
  have hsecond := second a t ha (fun h => hplain (hsuffix.mem h)) b u hb
  omega

/-- Another word for what is held. -/
theorem cast {held' : Int} (h : Balances L s held m value) (hheld : held' = held) :
    Balances L s held' m value := hheld ▸ h

/-- Looking ahead, at a formula without commands. -/
theorem rest {f : List Char → Reading β}
    (h : '\\' ∉ s.rest → Balances L s held (f s.rest) value') :
    Balances L s held (Reading.rest >>= f) value' := fun hplain => h hplain hplain

/-- Looking at the offset. -/
theorem offset {f : Nat → Reading β} (h : Balances L s held (f s.offset) value') :
    Balances L s held (Reading.offset >>= f) value' := h

/-- A choice between two steps. -/
theorem ite {c : Prop} [Decidable c] {m' : Reading α} (yes : c → Balances L s held m value)
    (no : ¬ c → Balances L s held m' value) :
    Balances L s held (if c then m else m') value := by
  by_cases h : c
  · rw [if_pos h]
    exact yes h
  · rw [if_neg h]
    exact no h

/-- Taking layout.  What is ahead then is no layout. -/
theorem layout {f : Unit → Reading β}
    (h : ∀ t : Scan, layoutLength t.rest = 0 → Balances L t held (f ()) value') :
    Balances L s held (skipLayout >>= f) value' := by
  have htaken : Balances L s held skipLayout fun _ => held := by
    intro _ _ t hrun
    cases hrun
    rw [Ledger.funds_layout, Int.add_comm]
  refine bind forward_skipLayout htaken fun _ t hrun => ?_
  cases hrun
  exact h _ (layoutLength_drop s.rest)

/-- Taking characters that count. -/
theorem take {f : Unit → Reading β} {count : Nat} (hsolid : ∀ c ∈ s.rest.take count, IsSolid c)
    (h : Balances L (s.advance count) (held + ((s.rest.take count).map L.char).sum) (f ()) value') :
    Balances L s held (Reading.advance count >>= f) value' := by
  have htaken : Balances L s held (Reading.advance count)
      fun _ => held + ((s.rest.take count).map L.char).sum := by
    intro _ _ t hrun
    cases hrun
    rw [Ledger.funds_advance hsolid]
    dsimp only
    omega
  refine bind (.advance _) htaken fun _ t hrun => ?_
  cases hrun
  exact h

/-- Taking one character that counts. -/
theorem takeOne {f : Unit → Reading β} {c : Char} {after : List Char} (hrest : s.rest = c :: after)
    (hsolid : IsSolid c)
    (h : Balances L (s.advance 1) (held + L.char c) (f ()) value') :
    Balances L s held (Reading.advance 1 >>= f) value' := by
  have htake : s.rest.take 1 = [c] := by rw [hrest, List.take_succ_cons, List.take_zero]
  refine take ?_ ?_
  · simpa [htake] using hsolid
  · simpa [htake] using h

/-- Making a note that is worth what is held. -/
theorem note {n : Note} {left : Int} (h : held = left + L.note n) :
    Balances L s held (Reading.note n) fun _ => left := by
  intro _ _ t hrun
  cases hrun
  simp only [Ledger.funds, Ledger.reported, List.map_cons, List.sum_cons]
  omega

end Balances

variable {L : Ledger} {s : Scan} {held : Int}

/-- Apostrophes are handed on. -/
theorem balances_primes (L : Ledger) (s : Scan) (held : Int) :
    Balances L s held primes fun count => held + count * L.char '\x27' := by
  have htake := take_primeCount s.rest
  refine .rest fun _ => .take (fun c hc => ?_) (.pure ?_)
  · rw [htake] at hc
    rw [List.eq_of_mem_replicate hc]
    decide
  · rw [htake, List.map_replicate, List.sum_replicate_int]

end Reading

/-! ## The rules of the grammar -/

/-- Without commands the character ahead begins none. -/
theorem Scan.ne_backslash {s : Scan} (hplain : '\\' ∉ s.rest) {c : Char} {after : List Char}
    (hrest : s.rest = c :: after) : c ≠ '\\' := by
  rintro rfl
  exact hplain (hrest ▸ List.mem_cons_self)

/-- What cannot be read: a character that means nothing, or the end of the formula. -/
def Scan.NothingAhead (s : Scan) : Prop :=
  ∀ c ∈ s.rest.head?, MeansNothing c ∧ IsSolid c

/-- Nested parts balance.  Where there is no base, nothing could be one; and a formula is read to
its end. -/
structure Nested.Balances (L : Ledger) (nested : Nested) : Prop where
  base : ∀ s held, Reading.Balances L s held nested.base
    fun found => held + L.worthOf (found.map Base.expr).toList
  sequence : ∀ closer s held, Reading.Balances L s held (nested.sequence closer)
    fun members => held + L.worthOf members + L.dues closer
  missing : ∀ {s t}, '\\' ∉ s.rest → nested.base s = .ok .none t → t.NothingAhead
  finished : ∀ {s members t}, nested.sequence .none s = .ok members t → t.rest = []
  forward : nested.Forward

/-- The worth of scripts, as far as they have been read. -/
def Ledger.worthOfScripts (L : Ledger) (scripts : Scripts) : Int :=
  L.worthOf scripts.lower.toList + L.worthOf scripts.upper.toList

namespace Reading

variable {L : Ledger} {nested : Nested} {s : Scan} {held : Int}

/-- A group in braces, after its opening brace: what is held includes the price of the brace. -/
theorem balances_group {α : Type} (hL : L.Fair) (hn : nested.Balances L) {value : α → Int}
    (pack : List Expr → α) (hpack : ∀ members, held + L.worthOf members = value (pack members)) :
    Balances L s (held + L.char '{')
      (nested.sequence (some .brace) >>= fun members => pure (pack members)) value := by
  refine .bind (hn.forward.sequence _) (hn.sequence _ _ _) fun members t _ => .pure ?_
  have hbraces := hL.braces
  have hvalue := hpack members
  simp only [Ledger.dues, Closer.char]
  omega

/-- An argument is worth what has been taken for it. -/
theorem balances_argument (hL : L.Fair) (hn : nested.Balances L) :
    Balances L s held (argument nested) fun e => held + L.worth e := by
  refine .layout fun t hlayout => .rest fun _ => ?_
  cases hrest : t.rest with
  | nil => exact .pure (by simp)
  | cons c after =>
    have hsolid := isSolid_of_layoutLength (hrest ▸ hlayout)
    dsimp only
    split
    · next hopening =>
      subst hopening
      exact .takeOne hrest hsolid (balances_group hL hn Expr.ofList fun members => by simp)
    split
    · next hdigit =>
      refine .takeOne hrest hsolid (.pure ?_)
      have hworth := hL.number [c] (by simpa using Or.inl hdigit)
      simp only [Ledger.worth_number, hworth, List.map_cons, List.map_nil, List.sum_cons,
        List.sum_nil]
      omega
    · refine .bind hn.forward.base (hn.base _ _) fun found u _ => ?_
      cases found with
      | none => exact .pure (by simp)
      | some b => exact .pure (by simp)

/-- Without commands there are none that move the scripts. -/
theorem balances_limits (place : Limits) :
    Balances L s held (Reading.limits nested place) fun _ => held := by
  refine .layout fun t _ => .rest fun hplain => ?_
  have hcommand : commandAt? t.rest = none := by
    cases hrest : t.rest with
    | nil => rfl
    | cons c after => exact commandAt?_cons_of_ne (Scan.ne_backslash hplain hrest) after
  rw [hcommand]
  exact .pure rfl

/-- So is a superscript, be it apostrophes or an argument. -/
theorem balances_superscript (hL : L.Fair) (hn : nested.Balances L) :
    Balances L s held (superscript nested) fun e => held + L.worth e := by
  refine .layout fun t _ => .bind forward_primes (balances_primes L t held) fun count u _ => ?_
  cases count with
  | zero => exact (balances_argument hL hn).cast (by simp)
  | succ count => exact .pure (by rw [hL.worth_primes (Nat.succ_ne_zero count)])

/-- Each round of the loop adds a script to the account, by induction on the bound. -/
theorem balances_scriptsFrom (hL : L.Fair) (hn : nested.Balances L) (bound : Nat)
    (scripts : Scripts) :
    Balances L s (held + L.worthOfScripts scripts) (scriptsFrom nested bound scripts)
      fun found => held + L.worthOfScripts found := by
  induction bound generalizing scripts s with
  | zero => exact .pure rfl
  | succ bound ih =>
    refine .layout fun t _ => .rest fun _ => ?_
    cases hrest : t.rest with
    | nil => exact .pure rfl
    | cons c after =>
      -- A superscript is taken in two places, and what it is added to differs between them.
      have hupper (hc : c = '^') (next : Expr → Scripts)
          (hnext : ∀ e, L.worthOfScripts (next e) = L.worthOfScripts scripts + L.worth e) :
          Balances L t (held + L.worthOfScripts scripts) (advance 1 >>= fun _ =>
            superscript nested >>= fun e => scriptsFrom nested bound (next e))
            fun found => held + L.worthOfScripts found := by
        subst hc
        refine .takeOne hrest (by decide) ?_
        refine .bind (forward_superscript hn.forward) (balances_superscript hL hn) fun e u _ => ?_
        refine (ih (next e)).cast ?_
        rw [hL.above, hnext]
        omega
      simp only [List.head?_cons]
      split
      · next heq =>
        obtain rfl : c = '_' := Option.some.inj heq
        cases hlower : scripts.lower with
        | some e => exact .pure rfl
        | none =>
          refine .takeOne hrest (by decide) ?_
          refine .bind (forward_argument hn.forward) (balances_argument hL hn) fun e u _ => ?_
          refine (ih _).cast ?_
          rw [hL.below]
          simp only [Ledger.worthOfScripts, hlower, Option.toList_none, Option.toList_some,
            Ledger.worthOf_cons, Ledger.worthOf_nil]
          omega
      · next heq =>
        have hc : c = '^' := Option.some.inj heq
        cases hscripts : scripts.upper with
        | none =>
          refine hupper hc _ fun e => ?_
          simp only [Ledger.worthOfScripts, hscripts, Option.toList_none, Option.toList_some,
            Ledger.worthOf_cons, Ledger.worthOf_nil]
          omega
        | some primes =>
          refine .ite (fun _ => hupper hc _ fun e => ?_) fun _ => .pure rfl
          simp only [Ledger.worthOfScripts, hscripts, Option.toList_some, Ledger.worth_group,
            Ledger.worthOf_cons, Ledger.worthOf_nil]
          omega
      · exact .pure rfl

/-- Scripts are added to the worth of their base. -/
theorem balances_scripts (hL : L.Fair) (hn : nested.Balances L) (b : Base) :
    Balances L s (held + L.worth b.expr) (scripts nested b) fun e => held + L.worth e := by
  refine .bind (forward_limits hn.forward _) (balances_limits _) fun place t _ => ?_
  refine .bind forward_primes (balances_primes L t _) fun count u _ => ?_
  have hprimes : L.worthOf (if count = 0 then none else some (Expr.primes count)).toList
      = count * L.char '\x27' := by
    by_cases hcount : count = 0
    · simp [hcount]
    · simp [hcount, hL.worth_primes hcount]
  let start : Scripts := ⟨none, if count = 0 then none else some (Expr.primes count),
    (if count = 0 then none else some (Expr.primes count)).isSome⟩
  have hscripts : Balances L u (held + L.worth b.expr + L.worthOfScripts start)
      (scriptsFrom nested 3 start) fun found => held + L.worth b.expr + L.worthOfScripts found :=
    balances_scriptsFrom hL hn 3 start
  refine .bind (forward_scriptsFrom hn.forward _ _) (hscripts.cast ?_) ?_
  · simp only [Ledger.worthOfScripts, start, hprimes, Option.toList_none, Ledger.worthOf_nil]
    omega
  · intro found v _
    refine .pure ?_
    rw [Ledger.worth_withScripts, Ledger.worthOfScripts]
    omega

/-- A character that means nothing is worth the note on it. -/
theorem balances_skipToken (hL : L.Fair) (hs : s.NothingAhead) :
    Balances L s held skipToken fun _ => held := by
  refine .offset (.rest fun hplain => ?_)
  cases hrest : s.rest with
  | nil => exact .pure rfl
  | cons c after =>
    obtain ⟨hnothing, hsolid⟩ := hs c (by simp [hrest])
    have hc : c ≠ '\\' := Scan.ne_backslash hplain hrest
    refine .takeOne hrest hsolid ?_
    rw [if_neg hc]
    exact .note (by rw [hL.skipped c _ hnothing])

/-- An item is worth what has been taken for it, or its token is written off. -/
theorem balances_item (hL : L.Fair) (hn : nested.Balances L) :
    Balances L s held (item nested) fun found => held + L.worthOf found.toList := by
  refine .layout fun t _ => .offset ?_
  intro hplain
  refine Balances.bind hn.forward.base (hn.base t held) (fun found u hrun => ?_) hplain
  cases found with
  | some b =>
    have hscripts : Balances L u (held + L.worth b.expr) (scripts nested b)
        fun e => held + L.worth e := balances_scripts hL hn b
    refine .bind (forward_scripts hn.forward b) (hscripts.cast ?_) fun e v _ => ?_
    · simp
    · exact .pure (by simp)
  | none =>
    refine .offset (.ite (fun _ => ?_) fun _ => .pure (by simp))
    refine .bind forward_skipToken (balances_skipToken hL (hn.missing hplain hrun)) ?_
    intro _ v _
    exact .pure (by simp)

/-- A sequence is worth its items, and its closer is due. -/
theorem balances_sequence (hL : L.Fair) (hn : nested.Balances L) (closer : Option Closer) :
    Balances L s held (sequence nested closer)
      fun members => held + L.worthOf members + L.dues closer := by
  have hnext (t : Scan) : Balances L t held (sequence.next nested closer)
      fun members => held + L.worthOf members + L.dues closer := by
    refine .bind (forward_item hn.forward) (balances_item hL hn) fun first u _ => ?_
    refine .bind (hn.forward.sequence closer) (hn.sequence closer u _) fun others v _ => ?_
    refine .pure ?_
    rw [Ledger.worthOf_append]
    omega
  refine .layout fun t _ => .rest fun _ => ?_
  cases hrest : t.rest with
  | nil =>
    cases closer with
    | none => exact .pure (by simp [Ledger.dues])
    | some closer => exact .unclosed closer
  | cons c after =>
    cases closer with
    | none => exact hnext t
    | some closer =>
      refine .ite (fun hc => ?_) fun _ => hnext t
      have hsolid : IsSolid closer.char := by cases closer <;> decide
      subst hc
      exact .takeOne hrest hsolid (.pure (by simp [Ledger.dues]))

/-- The number ahead, which is taken whole. -/
theorem balances_number (hL : L.Fair) (hnumber : numberLength s.rest ≠ 0) :
    Balances L s held (advance (numberLength s.rest) >>= fun _ =>
        pure (some (.side (.number (String.ofList (s.rest.take (numberLength s.rest)))))))
      fun found : Option Base => held + L.worthOf (found.map Base.expr).toList := by
  have hnumeral := numeral_take_numberLength hnumber
  have hchars (c : Char) (hc : c ∈ s.rest.take (numberLength s.rest)) :
      c.isDigit ∨ c = '.' := hnumeral.isDigit_or_eq_dot hc
  have hsolid (c : Char) (hc : c ∈ s.rest.take (numberLength s.rest)) : IsSolid c :=
    isSolid_of_isDigit_or_eq_dot (hchars c hc)
  refine .take hsolid (.pure ?_)
  simp [Base.side, hL.number _ hchars]

/-- A base is worth its characters, whichever of its forms it has. -/
theorem balances_base (hL : L.Fair) (hn : nested.Balances L) :
    Balances L s held (Reading.base nested)
      fun found => held + L.worthOf (found.map Base.expr).toList := by
  refine .layout fun t hlayout => .rest fun hplain => ?_
  cases hrest : t.rest with
  | nil => exact .pure (by simp)
  | cons c after =>
    have hsolid := isSolid_of_layoutLength (hrest ▸ hlayout)
    have hbackslash : c ≠ '\\' := Scan.ne_backslash hplain hrest
    dsimp only
    split
    · next hopening =>
      subst hopening
      refine .takeOne hrest hsolid ?_
      refine balances_group hL hn (fun members => some (Base.side (.group members))) ?_
      intro members
      simp [Base.side]
    split
    · next hnumber =>
      rw [← hrest] at hnumber ⊢
      exact balances_number hL hnumber
    split
    · exact .pure (by simp [Base.side])
    split
    · next hprime =>
      have hcount : primeCount t.rest ≠ 0 := by simp [hrest, hprime, primeCount]
      refine .bind forward_primes (balances_primes L t held) fun count u hrun => .pure ?_
      obtain rfl : primeCount t.rest = count := by
        rw [run_primes] at hrun
        cases hrun
        rfl
      simp [Base.side, hL.worth_primes hcount]
    split
    · next htie =>
      subst htie
      exact .takeOne hrest hsolid (.pure (by simp [Base.side, hL.space]))
    cases hchar : Expr.ofChar? c with
    | none => exact .pure (by simp)
    | some e => exact .takeOne hrest hsolid (.pure (by simp [Base.side, hL.worth_ofChar? hchar]))

/-- Where there is no base and no command, the character ahead means nothing. -/
theorem base_missing {t : Scan} (hplain : '\\' ∉ s.rest)
    (h : Reading.base nested s = .ok none t) : t.NothingAhead := by
  let u := s.advance (layoutLength s.rest)
  have hlayout : layoutLength u.rest = 0 := layoutLength_drop s.rest
  have hplain' : '\\' ∉ u.rest := fun hmem => hplain (List.mem_of_mem_drop hmem)
  rcases base_eq_none h rfl with ⟨hend, rfl⟩ | ⟨c, after, hrest, rfl, hchar, hnumber, hmarks⟩ |
    ⟨after, hrest, -⟩
  · simp [Scan.NothingAhead, hend]
  · have hdigit : c.isDigit = false := by
      by_cases hdigit : c.isDigit
      · exact absurd hnumber (numberLength_ne_zero hdigit after)
      · simpa using hdigit
    have hsubset : ['~', '\x27', '{', '^', '_'] ⊆ ['{', '\\', '^', '_', '\x27', '~'] := by decide
    have hnothing : MeansNothing c :=
      ⟨image?_of_ofChar?_none hchar, hdigit, fun hmem => hmarks (hsubset hmem)⟩
    intro c' hc'
    obtain rfl : c = c' := by simpa [hrest] using hc'
    exact ⟨hnothing, isSolid_of_layoutLength (hrest ▸ hlayout)⟩
  · exact absurd rfl (Scan.ne_backslash hplain' hrest)

end Reading

namespace Nested

/-- **The books balance**, at every height. -/
theorem balances_approach {L : Ledger} (hL : L.Fair) (depth : Nat) :
    (approach depth).Balances L := by
  induction depth with
  | zero =>
    exact ⟨fun _ _ => .unclosed _, fun _ _ _ => .unclosed _, fun _ => nofun, nofun,
      forward_approach 0⟩
  | succ depth ih =>
    exact ⟨fun _ _ => Reading.balances_base hL ih,
      fun closer _ _ => Reading.balances_sequence hL ih closer, Reading.base_missing,
      Reading.sequence_finished ih.finished, forward_approach (depth + 1)⟩

end Nested

/-- **Nothing is lost.**  What the significant characters of a formula without commands cost is
what the expressions and the notes are worth that reading it gives. -/
theorem Ledger.Fair.balances {L : Ledger} (hL : L.Fair) {text : String} {formula : Formula}
    (hplain : '\\' ∉ text.toList) (h : parse text = .ok formula) :
    L.price text.toList = L.worthOf formula + L.reported (read text).notes := by
  obtain ⟨depth, members, finish, hrun, rfl, hnotes⟩ := exists_approach h
  have hbalances := Nested.balances_approach hL depth
  have hfinished := hbalances.finished hrun
  have hbooks := hbalances.sequence none (Scan.start text) 0 hplain members finish hrun
  have hreported : L.reported finish.notes.reverse = L.reported finish.notes := by
    simp [Ledger.reported, List.sum_reverse]
  have hsettled : L.worthOf (settleOperators members) = L.worthOf members :=
    Ledger.worthOf_settleFrom none members
  have hstart : L.funds (Scan.start text) = L.price text.toList := by
    simp [Ledger.funds, Ledger.reported, Scan.start]
  have hend : L.funds finish = L.reported finish.notes := by
    simp [Ledger.funds, Ledger.price, hfinished, significant, significantFrom]
  rw [hnotes, hreported, hsettled, ← hstart]
  rw [hend] at hbooks
  simp only [Ledger.dues] at hbooks
  omega

end OfficeMath
