import OfficeMath.Proofs.Latex.Anywhere
import OfficeMath.Proofs.Latex.ClosedGroups
import OfficeMath.Proofs.Latex.Items
import OfficeMath.Proofs.Latex.OpenGroups

/-!
# Scripts may come in either order

After a base come the commands that move its scripts, then apostrophes, and then a subscript and a
superscript, whichever of them is first.  What has been found so far is kept in `Scripts`, and the
two ways in which a round of the loop adds to it commute (`Scripts.withLower`,
`Scripts.withUpper`): adding a subscript leaves alone whether there is room for a superscript, and
the other way round.  A superscript joins the primes before it, and these were taken before the
first round.

So each of the two rounds is described on its own, at any place in the text, and they are put
together in both orders (`Reading.scripts_in_either_order`).  That an argument is read in the same
way in both places is due to `Reading.sequence_anywhere` and `sequence_fenced`: a closed group
means the same wherever it stands and whatever follows it.
-/

namespace OfficeMath

open Nested (unbounded)

/-! ## Layout between pieces -/

/-- What is ahead after the layout at the start of a text. -/
def afterLayout (text : List Char) : List Char := text.drop (layoutLength text)

/-- Layout goes on into the layout of the text after it. -/
theorem layoutLength_append {gap : List Char} (h : IsLayout gap) (text : List Char) :
    layoutLength (gap ++ text) = gap.length + layoutLength text := by
  induction h with
  | nil => simp
  | blank hblank more ih =>
    rw [List.cons_append, layoutLength_blank hblank, ih, List.length_cons]
    omega
  | @comment words layout hwords more ih =>
    have hcomment : layoutLength ('%' :: (words ++ '\n' :: (layout ++ text)))
        = 1 + layoutLengthFrom true (words ++ '\n' :: (layout ++ text)) := rfl
    simp only [List.cons_append, List.append_assoc, List.length_cons, List.length_append]
    rw [hcomment, layoutLengthFrom_comment hwords, ih]
    omega

/-- Layout before a text changes nothing about what is ahead after it. -/
theorem afterLayout_append {gap : List Char} (h : IsLayout gap) (text : List Char) :
    afterLayout (gap ++ text) = afterLayout text := by
  rw [afterLayout, layoutLength_append h, List.drop_length_add_append, afterLayout]

/-- No layout is left after layout. -/
@[simp] theorem afterLayout_afterLayout (text : List Char) :
    afterLayout (afterLayout text) = afterLayout text := by
  have hnone : layoutLength (afterLayout text) = 0 := layoutLength_drop text
  rw [afterLayout, hnone, List.drop_zero]

/-- A character that is neither blank nor a percent sign is ahead at once. -/
theorem afterLayout_cons {c : Char} (hblank : isBlank c = false) (hpercent : c ≠ '%')
    (text : List Char) : afterLayout (c :: text) = c :: text := by
  rw [afterLayout, layoutLength_cons hblank hpercent, List.drop_zero]

/-- Pieces of a formula in a row, each of them with any layout before it. -/
inductive Spaced : List (List Char) → List Char → Prop
  | nil : Spaced [] []
  | cons {gap piece text : List Char} {pieces : List (List Char)} (hgap : IsLayout gap)
      (hmore : Spaced pieces text) : Spaced (piece :: pieces) (gap ++ (piece ++ text))

/-- The first of some pieces is ahead after layout. -/
theorem Spaced.ahead {piece text : List Char} {pieces : List (List Char)}
    (h : Spaced (piece :: pieces) text) (tail : List Char) :
    ∃ more, Spaced pieces more ∧
      afterLayout (text ++ tail) = afterLayout (piece ++ (more ++ tail)) := by
  cases h with
  | @cons gap piece more pieces hgap hmore =>
    refine ⟨more, hmore, ?_⟩
    rw [List.append_assoc, List.append_assoc, afterLayout_append hgap]

/-- No name goes on into layout. -/
theorem IsLayout.endsName {gap text : List Char} (h : IsLayout gap) (htext : EndsName text) :
    EndsName (gap ++ text) := by
  cases h with
  | nil => exact htext
  | @blank c layout hblank more =>
    have hletter : ∀ c, isBlank c → c.isAlpha = false ∧ c ≠ '*' :=
      fun c => forall_isBlank (fun c => c.isAlpha = false ∧ c ≠ '*') (by decide)
    exact endsName_cons (hletter c hblank) _
  | comment hwords more => exact endsName_cons (by decide) _

/-- No name goes on into pieces that do not begin like one, if one of them is not empty. -/
theorem Spaced.endsName {pieces : List (List Char)} {text : List Char} (h : Spaced pieces text)
    (hends : ∀ piece ∈ pieces, EndsName piece) (hne : ∃ piece ∈ pieces, piece ≠ [])
    (tail : List Char) : EndsName (text ++ tail) := by
  induction h with
  | nil =>
    obtain ⟨piece, hmem, -⟩ := hne
    cases hmem
  | @cons gap piece text pieces hgap hmore ih =>
    obtain ⟨hpiece, hpieces⟩ := List.forall_mem_cons.mp hends
    rw [List.append_assoc, List.append_assoc]
    apply hgap.endsName
    cases piece with
    | nil => exact ih hpieces (by simpa using hne)
    | cons c piece => exact endsName_cons (hpiece c rfl) _

/-! ## What is written after a base -/

/-- A command that moves the scripts of the base before it. -/
inductive Move where
  | limits
  | nolimits

namespace Move

/-- The name of the command. -/
def name : Move → String
  | limits => "limits"
  | nolimits => "nolimits"

/-- Where it puts the scripts. -/
def place : Move → Limits
  | limits => .fixed
  | nolimits => .side

end Move

/-- A single digit, or a group in braces that is closed: the sequence after its opening brace can
be read, wherever it stands, and takes all of the text. -/
inductive IsArgument : List Char → Expr → Prop
  | digit {c : Char} (h : c.isDigit) : IsArgument [c] (.number (String.ofList [c]))
  | group {s t : Scan} {members : List Expr}
      (hclosed : Reading.alone (·.sequence (some .brace)) s = .ok members t) (hall : t.rest = []) :
    IsArgument ('{' :: s.rest) (.ofList members)

/-- The first character of an argument is its digit or its brace. -/
theorem IsArgument.begins {text : List Char} {e : Expr} (h : IsArgument text e) :
    ∃ c more, text = c :: more ∧ isBlank c = false ∧ c ∉ ['%', '\x27', '*'] ∧
      c.isAlpha = false := by
  cases h with
  | @digit c h =>
    have hdigit : isBlank c = false ∧ c ∉ ['%', '\x27', '*'] ∧ c.isAlpha = false :=
      forall_isDigit (fun c => isBlank c = false ∧ c ∉ ['%', '\x27', '*'] ∧ c.isAlpha = false)
        (by decide) h
    exact ⟨c, [], rfl, hdigit⟩
  | group hclosed hall => exact ⟨'{', _, rfl, by decide, by decide, by decide⟩

/-- No name goes on into an argument. -/
theorem IsArgument.endsName_append {text : List Char} {e : Expr} (h : IsArgument text e)
    (tail : List Char) : EndsName (text ++ tail) := by
  obtain ⟨c, more, rfl, -, hmarks, hletter⟩ := h.begins
  simp only [List.mem_cons, not_or] at hmarks
  exact endsName_cons ⟨hletter, hmarks.2.2.1⟩ _

/-- What is ahead after layout where an argument is. -/
theorem IsArgument.afterLayout_eq {text : List Char} {e : Expr} (h : IsArgument text e)
    (tail : List Char) : afterLayout (text ++ tail) = text ++ tail := by
  obtain ⟨c, more, rfl, hblank, hmarks, -⟩ := h.begins
  simp only [List.mem_cons, not_or] at hmarks
  exact afterLayout_cons hblank hmarks.1 _

/-! ## The scripts found so far -/

namespace Scripts

/-- The scripts before the first round: the apostrophes after a base. -/
def ofPrimes (count : Nat) : Scripts :=
  let upper := if count = 0 then none else some (Expr.primes count)
  ⟨none, upper, upper.isSome⟩

/-- A subscript is found. -/
def withLower (found : Scripts) (lower : Expr) : Scripts := { found with lower := some lower }

/-- A superscript is found, which joins the primes before it. -/
def withUpper (found : Scripts) (upper : Expr) : Scripts :=
  let whole := match found.upper with
    | none => upper
    | some primes => .group [primes, upper]
  { found with upper := some whole, onlyPrimes := false }

/-- There is room for a superscript. -/
def AdmitsUpper (found : Scripts) : Prop := found.upper = none ∨ found.onlyPrimes = true

/-- Apostrophes leave room for both scripts. -/
theorem admitsUpper_ofPrimes (count : Nat) : (ofPrimes count).AdmitsUpper := by
  by_cases hcount : count = 0
  · exact .inl (by simp [ofPrimes, hcount])
  · exact .inr (by simp [ofPrimes, hcount])

/-- A subscript leaves the room for a superscript as it is. -/
theorem AdmitsUpper.withLower {found : Scripts} (h : found.AdmitsUpper) (lower : Expr) :
    (found.withLower lower).AdmitsUpper := h

/-- A superscript leaves the room for a subscript as it is. -/
theorem lower_withUpper (found : Scripts) (upper : Expr) :
    (found.withUpper upper).lower = found.lower := rfl

/-- After a superscript there is no room for another one. -/
theorem not_admitsUpper_withUpper (found : Scripts) (upper : Expr) :
    ¬ (found.withUpper upper).AdmitsUpper := by
  simp [AdmitsUpper, withUpper]

/-- **The two scripts are found independently of each other.** -/
theorem withLower_withUpper (found : Scripts) (lower upper : Expr) :
    (found.withLower lower).withUpper upper = (found.withUpper upper).withLower lower := rfl

end Scripts

namespace Reading

/-! ## Steps on a given text -/

/-- Where a given text is ahead a step succeeds, returns a given value and leaves a given text
ahead. -/
def Yields {α : Type} (m : Reading α) (ahead : List Char) (a : α) (left : List Char) : Prop :=
  ∀ s : Scan, s.rest = ahead → ∃ t, m s = .ok a t ∧ t.rest = left

namespace Yields

variable {α β : Type} {m : Reading α} {ahead middle left : List Char} {a : α} {b : β}

theorem pure (a : α) (ahead : List Char) : (Pure.pure a : Reading α).Yields ahead a ahead :=
  fun s hs => ⟨s, rfl, hs⟩

/-- Two steps in a row. -/
theorem bind {f : α → Reading β} (first : m.Yields ahead a middle)
    (second : (f a).Yields middle b left) : (m >>= f).Yields ahead b left := by
  intro s hs
  obtain ⟨t, hm, ht⟩ := first s hs
  obtain ⟨u, hf, hu⟩ := second t ht
  exact ⟨u, (run_bind_ok hm).trans hf, hu⟩

/-- Looking ahead. -/
theorem rest {f : List Char → Reading β} (h : (f ahead).Yields ahead b left) :
    (Reading.rest >>= f).Yields ahead b left := by
  intro s hs
  rw [run_bind_ok (run_rest s), hs]
  exact h s hs

/-- Looking at the offset. -/
theorem offset {f : Nat → Reading β} (h : ∀ start, (f start).Yields ahead b left) :
    (Reading.offset >>= f).Yields ahead b left := by
  intro s hs
  rw [run_bind_ok (run_offset s)]
  exact h _ s hs

/-- Taking characters. -/
theorem advance {f : Unit → Reading β} {count : Nat} (hcount : ahead.drop count = middle)
    (h : (f ()).Yields middle b left) : (Reading.advance count >>= f).Yields ahead b left :=
  fun s hs => h (s.advance count) (by rw [Scan.advance, hs, hcount])

/-- Taking layout. -/
theorem layout {f : Unit → Reading β} (hlayout : afterLayout ahead = middle)
    (h : (f ()).Yields middle b left) : (skipLayout >>= f).Yields ahead b left := by
  refine bind (a := ()) (fun s hs => ⟨_, run_skipLayout s, ?_⟩) h
  rw [Scan.advance, hs]
  exact hlayout

/-- Taking apostrophes. -/
theorem primes {f : Nat → Reading β} {count : Nat} (hcount : primeCount ahead = count)
    (hdrop : ahead.drop count = middle) (h : (f count).Yields middle b left) :
    (Reading.primes >>= f).Yields ahead b left := by
  refine bind (a := count) (fun s hs => ⟨s.advance count, ?_, ?_⟩) h
  · rw [run_primes, hs, hcount]
  · rw [Scan.advance, hs, hdrop]

end Yields

/-! ## One script -/

variable {ahead after rest left text : List Char} {e : Expr} {found final : Scripts} {bound : Nat}

/-- An argument is read, with any layout before it and any text after it. -/
theorem yields_argument (h : IsArgument text e) (hahead : afterLayout ahead = text ++ rest) :
    (argument unbounded).Yields ahead e rest := by
  apply Yields.layout hahead
  cases h with
  | @digit c h =>
    have hbrace : c ≠ '{' := forall_isDigit (· ≠ '{') (by decide) h
    apply Yields.rest
    dsimp only [List.cons_append]
    rw [if_neg hbrace, if_pos h]
    exact .advance rfl (.pure _ _)
  | @group s t members hclosed hall =>
    -- the group is closed in front of any other text, and then in any other place
    obtain ⟨front, hfront, -, hsame⟩ := sequence_fenced hclosed
    have hwhole : s.rest ++ rest = front ++ '}' :: rest := by
      rw [hfront, hall, List.append_assoc]
      rfl
    have hsequence : (unbounded.sequence (some .brace)).Yields (s.rest ++ rest) members rest := by
      intro u hu
      rw [← Nested.alone_sequence]
      exact sequence_anywhere (s := { s with rest := front ++ '}' :: rest })
        (hwhole.symm.trans hu.symm) (hsame rest)
    apply Yields.rest
    dsimp only [List.cons_append]
    rw [if_pos rfl]
    exact .advance rfl (.bind hsequence (.pure _ _))

/-- So is an argument that is a superscript. -/
theorem yields_superscript (h : IsArgument text e) (hahead : afterLayout ahead = text ++ rest) :
    (superscript unbounded).Yields ahead e rest := by
  obtain ⟨c, more, htext, -, hmarks, -⟩ := h.begins
  have hprimes : primeCount (text ++ rest) = 0 := by
    simp only [List.mem_cons, not_or] at hmarks
    simp [htext, primeCount, hmarks.2.1]
  exact .layout hahead (.primes hprimes rfl (yields_argument h (h.afterLayout_eq rest)))

/-- A round takes a subscript if there is none yet. -/
theorem yields_lower (hroom : found.lower = none) (hmark : afterLayout ahead = '_' :: after)
    (h : IsArgument text e) (hafter : afterLayout after = text ++ rest)
    (hmore : (scriptsFrom unbounded bound (found.withLower e)).Yields rest final left) :
    (scriptsFrom unbounded (bound + 1) found).Yields ahead final left := by
  apply Yields.layout hmark
  apply Yields.rest
  dsimp only [List.head?_cons]
  rw [hroom]
  exact .advance rfl (.bind (yields_argument h hafter) hmore)

/-- A round takes a superscript if there is none yet, or nothing but primes. -/
theorem yields_upper (hroom : found.AdmitsUpper) (hmark : afterLayout ahead = '^' :: after)
    (h : IsArgument text e) (hafter : afterLayout after = text ++ rest)
    (hmore : (scriptsFrom unbounded bound (found.withUpper e)).Yields rest final left) :
    (scriptsFrom unbounded (bound + 1) found).Yields ahead final left := by
  apply Yields.layout hmark
  apply Yields.rest
  dsimp only [List.head?_cons]
  obtain ⟨lower, upper, onlyPrimes⟩ := found
  cases upper with
  | none => exact .advance rfl (.bind (yields_superscript h hafter) hmore)
  | some primes =>
    rcases hroom with hnone | honly
    · cases hnone
    · dsimp only at honly ⊢
      rw [if_pos honly]
      exact .advance rfl (.bind (yields_superscript h hafter) hmore)

/-- A round stops where both scripts have been found, whatever is ahead. -/
theorem yields_full (hlower : found.lower ≠ none) (hupper : ¬ found.AdmitsUpper) :
    (scriptsFrom unbounded (bound + 1) found).Yields ahead found (afterLayout ahead) := by
  apply Yields.layout rfl
  apply Yields.rest
  obtain ⟨lower, upper, onlyPrimes⟩ := found
  simp only [Scripts.AdmitsUpper, not_or] at hlower hupper
  cases lower with
  | none => exact absurd rfl hlower
  | some lower =>
    cases upper with
    | none => exact absurd rfl hupper.1
    | some upper =>
      split
      · exact .pure _ _
      · dsimp only
        rw [if_neg hupper.2]
        exact .pure _ _
      · exact .pure _ _

/-! ## Both scripts -/

variable {lower upper tail : List Char} {below above : Expr} {pieces : List (List Char)}

/-- A subscript and a superscript, one after the other. -/
inductive IsPair (lower upper : List Char) : List (List Char) → Prop
  | lowerFirst : IsPair lower upper [['_'], lower, ['^'], upper]
  | upperFirst : IsPair lower upper [['^'], upper, ['_'], lower]

/-- A mark is ahead after layout, and behind it the argument that it marks. -/
theorem ahead_of_mark {mark : Char} (hblank : isBlank mark = false) (hpercent : mark ≠ '%')
    (h : IsArgument text e) {whole : List Char} (hwhole : Spaced ([mark] :: text :: pieces) whole)
    (tail : List Char) : ∃ after more, Spaced pieces more ∧
      afterLayout (whole ++ tail) = mark :: after ∧ afterLayout after = text ++ (more ++ tail) := by
  obtain ⟨between, hbetween, hmark⟩ := hwhole.ahead tail
  obtain ⟨more, hmore, hargument⟩ := hbetween.ahead tail
  refine ⟨between ++ tail, more, hmore, ?_, ?_⟩
  · rw [hmark]
    exact afterLayout_cons hblank hpercent _
  · rw [hargument, h.afterLayout_eq]

/-- The loop takes both scripts, whichever is first, and stops after the layout behind them. -/
theorem yields_pair (hlower : IsArgument lower below) (hupper : IsArgument upper above)
    (hnone : found.lower = none) (hroom : found.AdmitsUpper) (hpair : IsPair lower upper pieces)
    (htext : Spaced pieces text) (hahead : afterLayout ahead = afterLayout (text ++ tail)) :
    (scriptsFrom unbounded 3 found).Yields ahead ((found.withLower below).withUpper above)
      (afterLayout tail) := by
  have hfull (whole : List Char) (hwhole : Spaced [] whole) : (scriptsFrom unbounded 1
      ((found.withLower below).withUpper above)).Yields (whole ++ tail)
      ((found.withLower below).withUpper above) (afterLayout tail) := by
    cases hwhole
    exact yields_full (by simp [Scripts.withUpper, Scripts.withLower])
      (Scripts.not_admitsUpper_withUpper _ _)
  cases hpair with
  | lowerFirst =>
    obtain ⟨first, between, hbetween, hmark, hfirst⟩ :=
      ahead_of_mark (by decide) (by decide) hlower htext tail
    obtain ⟨second, finish, hfinish, hmark', hsecond⟩ :=
      ahead_of_mark (by decide) (by decide) hupper hbetween tail
    apply yields_lower hnone (hahead.trans hmark) hlower hfirst
    apply yields_upper (hroom.withLower below) hmark' hupper hsecond
    exact hfull finish hfinish
  | upperFirst =>
    obtain ⟨first, between, hbetween, hmark, hfirst⟩ :=
      ahead_of_mark (by decide) (by decide) hupper htext tail
    obtain ⟨second, finish, hfinish, hmark', hsecond⟩ :=
      ahead_of_mark (by decide) (by decide) hlower hbetween tail
    apply yields_upper hroom (hahead.trans hmark) hupper hfirst
    apply yields_lower ((Scripts.lower_withUpper found above).trans hnone) hmark' hlower hsecond
    rw [← Scripts.withLower_withUpper]
    exact hfull finish hfinish

/-! ## All that is written after a base -/

/-- The commands that move scripts are taken, the last of which counts. -/
theorem yields_limits {moves : List Move} (hends : ∀ piece ∈ pieces, EndsName piece)
    (hne : ∃ piece ∈ pieces, piece ≠ [])
    (hnone : ∀ {text}, Spaced pieces text → commandAt? (afterLayout (text ++ tail)) = none)
    (h : Spaced (moves.map (control ·.name) ++ pieces) text) (place : Limits) :
    ∃ more, Spaced pieces more ∧ (limits unbounded place).Yields (text ++ tail)
      (moves.foldl (fun _ move => move.place) place) (afterLayout (more ++ tail)) := by
  induction moves generalizing text place with
  | nil =>
    refine ⟨text, h, .layout rfl (.rest ?_)⟩
    rw [hnone h]
    exact .pure _ _
  | cons move moves ih =>
    obtain ⟨behind, hbehind, hmove⟩ := h.ahead tail
    obtain ⟨more, hmore, hrun⟩ := ih hbehind move.place
    -- no name goes on into what is behind a move, be it another move or the scripts
    have hname : EndsName (behind ++ tail) := by
      apply hbehind.endsName
      · intro piece hpiece
        rcases List.mem_append.mp hpiece with hmem | hmem
        · obtain ⟨other, -, rfl⟩ := List.mem_map.mp hmem
          exact endsName_cons (by decide) _
        · exact hends piece hmem
      · obtain ⟨piece, hmem, hpiece⟩ := hne
        exact ⟨piece, List.mem_append_right _ hmem, hpiece⟩
    have hword : IsWord move.name := by cases move <;> decide
    have hahead : afterLayout (text ++ tail) = control move.name ++ (behind ++ tail) := by
      rw [hmove]
      exact afterLayout_cons (by decide) (by decide) _
    have hnested : (unbounded.limits move.place).Yields (behind ++ tail)
        ((move :: moves).foldl (fun _ move => move.place) place) (afterLayout (more ++ tail)) := by
      rw [Nested.limits_unbounded]
      exact hrun
    refine ⟨more, hmore, .layout hahead (.rest ?_)⟩
    rw [commandAt_control hword hname]
    cases move with
    | limits => exact .advance rfl hnested
    | nolimits => exact .advance rfl hnested

/-- A run of apostrophes is counted up to its end. -/
theorem primeCount_run {count : Nat} {behind : List Char} (h : behind.head? ≠ some '\x27') :
    primeCount (List.replicate count '\x27' ++ behind) = count := by
  have hbehind : behind.takeWhile (· = '\x27') = [] := by
    cases behind with
    | nil => rfl
    | cons c behind =>
      have hc : c ≠ '\x27' := by simpa using h
      simp [hc]
  have hrun : ∀ c ∈ List.replicate count '\x27', decide (c = '\x27') = true :=
    fun c hc => decide_eq_true (List.eq_of_mem_replicate hc)
  rw [primeCount, List.takeWhile_append_of_pos hrun, hbehind, List.append_nil,
    List.length_replicate]

/-- So it is where the text behind it begins with no apostrophe after layout. -/
theorem primeCount_replicate {count : Nat} {behind : List Char}
    (h : (afterLayout behind).head? ≠ some '\x27') :
    primeCount (List.replicate count '\x27' ++ behind) = count := by
  apply primeCount_run
  intro hhead
  obtain ⟨more, rfl⟩ := List.head?_eq_some_iff.mp hhead
  exact h (by rw [afterLayout_cons (by decide) (by decide), List.head?_cons])

/-- After layout two scripts begin with a mark. -/
theorem IsPair.marked (hpair : IsPair lower upper pieces) (h : Spaced pieces text)
    (tail : List Char) :
    ∃ mark after, afterLayout (text ++ tail) = mark :: after ∧ mark ∉ ['\x27', '\\'] := by
  cases hpair with
  | lowerFirst =>
    obtain ⟨more, -, hahead⟩ := h.ahead tail
    exact ⟨'_', more ++ tail, hahead.trans (afterLayout_cons (by decide) (by decide) _), by decide⟩
  | upperFirst =>
    obtain ⟨more, -, hahead⟩ := h.ahead tail
    exact ⟨'^', more ++ tail, hahead.trans (afterLayout_cons (by decide) (by decide) _), by decide⟩

/-- Apostrophes before two scripts, and what is left where they have been taken. -/
theorem IsPair.begins (hpair : IsPair lower upper pieces) {count : Nat}
    (h : Spaced (List.replicate count '\x27' :: pieces) text) (tail : List Char) :
    ∃ more behind, Spaced pieces more ∧ afterLayout behind = afterLayout (more ++ tail) ∧
      afterLayout (text ++ tail) = List.replicate count '\x27' ++ behind ∧
      primeCount (List.replicate count '\x27' ++ behind) = count ∧
      commandAt? (List.replicate count '\x27' ++ behind) = none := by
  obtain ⟨more, hmore, hahead⟩ := h.ahead tail
  obtain ⟨mark, after, hmark, hplain⟩ := hpair.marked hmore tail
  have hhead : mark ≠ '\x27' ∧ mark ≠ '\\' := by simpa using hplain
  have hprimes : (afterLayout (more ++ tail)).head? ≠ some '\x27' := by simp [hmark, hhead.1]
  cases count with
  | zero =>
    refine ⟨more, afterLayout (more ++ tail), hmore, afterLayout_afterLayout _, hahead, ?_, ?_⟩
    · apply primeCount_replicate
      rwa [afterLayout_afterLayout]
    · rw [hmark]
      exact commandAt?_cons_of_ne hhead.2 after
  | succ count =>
    refine ⟨more, more ++ tail, hmore, rfl, ?_, primeCount_replicate hprimes, ?_⟩
    · exact hahead.trans (afterLayout_cons (by decide) (by decide) _)
    · exact commandAt?_cons_of_ne (by decide) _

/-- No name goes on into apostrophes and scripts. -/
theorem IsPair.endsName (hpair : IsPair lower upper pieces) (hlower : IsArgument lower below)
    (hupper : IsArgument upper above) {count : Nat} :
    ∀ piece ∈ List.replicate count '\x27' :: pieces, EndsName piece := by
  have hargument {text : List Char} {e : Expr} (h : IsArgument text e) : EndsName text :=
    List.append_nil text ▸ h.endsName_append []
  have hprimes : EndsName (List.replicate count '\x27') := by
    cases count with
    | zero =>
      intro c hc
      cases hc
    | succ count => exact endsName_cons (by decide) _
  have hmark {mark : Char} (h : mark = '_' ∨ mark = '^') : EndsName [mark] := by
    rcases h with rfl | rfl <;> exact endsName_cons (by decide) _
  refine List.forall_mem_cons.mpr ⟨hprimes, ?_⟩
  cases hpair with
  | lowerFirst => simp [hmark, hargument hlower, hargument hupper]
  | upperFirst => simp [hmark, hargument hlower, hargument hupper]

/-- The scripts of a base, whichever of them is first. -/
theorem yields_scripts (base : Base) {moves : List Move} {count : Nat}
    (hlower : IsArgument lower below) (hupper : IsArgument upper above)
    (hpair : IsPair lower upper pieces)
    (h : Spaced (moves.map (control ·.name) ++ List.replicate count '\x27' :: pieces) text)
    (tail : List Char) :
    (scripts unbounded base).Yields (text ++ tail)
      (base.expr.withScripts (moves.foldl (fun _ move => move.place) base.limits) (some below)
        ((Scripts.ofPrimes count).withUpper above).upper)
      (afterLayout tail) := by
  have hne : ∃ piece ∈ List.replicate count '\x27' :: pieces, piece ≠ [] := by
    cases hpair <;> simp
  have hnone {text : List Char} (htext : Spaced (List.replicate count '\x27' :: pieces) text) :
      commandAt? (afterLayout (text ++ tail)) = none := by
    obtain ⟨_, _, _, _, hahead, _, hcommand⟩ := hpair.begins htext tail
    rw [hahead, hcommand]
  obtain ⟨between, hbetween, hlimits⟩ :=
    yields_limits (hpair.endsName hlower hupper) hne hnone h base.limits
  obtain ⟨more, behind, hmore, hbehind, hahead, hprimes, -⟩ := hpair.begins hbetween tail
  have hnoLower : (Scripts.ofPrimes count).lower = none := rfl
  have hpairs := yields_pair hlower hupper hnoLower (Scripts.admitsUpper_ofPrimes count) hpair
    hmore hbehind
  have hbehind' : (List.replicate count '\x27' ++ behind).drop count = behind :=
    List.drop_left' List.length_replicate
  rw [hahead] at hlimits
  exact .bind hlimits (.primes hprimes hbehind' (.bind hpairs (.pure _ _)))

/-- The scripts of a base on their own. -/
theorem alone_scripts (base : Base) : alone (scripts · base) = scripts unbounded base := by
  funext s
  have hagree : unbounded.Agree (.forRest s.rest) s.rest.length s.rest.length :=
    Nested.agree_unbounded (by omega) (by omega)
  exact (scripts_same Nested.forward_unbounded hagree (Nat.le_refl _) (Nat.le_refl _) base).symm

/-- **A subscript and a superscript may come in either order.**  After any base, any commands that
move its scripts and any number of apostrophes, a subscript and a superscript attach in the same
way whichever of them is first, and the text behind them is left but for its layout.  The scripts
are digits or closed groups, and there may be layout before each piece.  The last of the commands
says where the scripts go, and the superscript joins the apostrophes. -/
theorem scripts_in_either_order {base : Base} {moves : List Move} {count : Nat}
    {lower upper text text' : List Char} {below above : Expr} (hlower : IsArgument lower below)
    (hupper : IsArgument upper above)
    (h : Spaced (moves.map (control ·.name) ++
      [List.replicate count '\x27', ['_'], lower, ['^'], upper]) text)
    (h' : Spaced (moves.map (control ·.name) ++
      [List.replicate count '\x27', ['^'], upper, ['_'], lower]) text')
    (rest : List Char) :
    let place := moves.foldl (fun _ move => move.place) base.limits
    let whole := if count = 0 then above else .group [.primes count, above]
    let scripted := base.expr.withScripts place (some below) (some whole)
    (alone (scripts · base)).Yields (text ++ rest) scripted (afterLayout rest) ∧
      (alone (scripts · base)).Yields (text' ++ rest) scripted (afterLayout rest) := by
  intro place whole scripted
  have hwhole : ((Scripts.ofPrimes count).withUpper above).upper = some whole := by
    by_cases hcount : count = 0
    · simp [Scripts.ofPrimes, Scripts.withUpper, whole, hcount]
    · simp [Scripts.ofPrimes, Scripts.withUpper, whole, hcount]
  rw [alone_scripts]
  have hfirst := yields_scripts base hlower hupper .lowerFirst h rest
  have hsecond := yields_scripts base hlower hupper .upperFirst h' rest
  rw [hwhole] at hfirst hsecond
  exact ⟨hfirst, hsecond⟩

/-- A closed group and a digit after a product sign, with two moves, two primes and a comment. -/
theorem scripts_in_either_order_group_and_digit :
    ∃ below, IsArgument "\x7bi=1\x7d".toList below ∧ IsArgument ['2'] (.number "2") ∧
      ∀ rest, ∃ scripted,
        (alone (scripts · ⟨.symbol .operator "∏", .movable⟩)).Yields
          ("\\nolimits \\limits''_ \x7bi=1\x7d%\n^2".toList ++ rest) scripted (afterLayout rest) ∧
        (alone (scripts · ⟨.symbol .operator "∏", .movable⟩)).Yields
          ("\\nolimits\\limits ''^2_\x7bi=1\x7d".toList ++ rest) scripted (afterLayout rest) := by
  let s := Scan.start "i=1\x7d"
  have hsome : ((alone (·.sequence (some .brace))).run' s).isSome := by decide
  have hall : ((alone (·.sequence (some .brace))).finish s).rest = [] := by decide
  obtain ⟨members, t, hrun⟩ := exists_ok_of_isSome hsome
  rw [finish_ok hrun] at hall
  have hlower : IsArgument "\x7bi=1\x7d".toList (.ofList members) := .group hrun hall
  have hupper : IsArgument ['2'] (.number "2") := .digit (by decide)
  have hspace : IsLayout [' '] := .blank (by decide) .nil
  have hwords : '\n' ∉ ([] : List Char) := by simp
  have hcomment : IsLayout ['%', '\n'] := .comment hwords .nil
  let moves : List Move := [.nolimits, .limits]
  have hfirst : Spaced (moves.map (control ·.name) ++ [List.replicate 2 '\x27', ['_'],
      "\x7bi=1\x7d".toList, ['^'], ['2']]) "\\nolimits \\limits''_ \x7bi=1\x7d%\n^2".toList := by
    refine .cons .nil (.cons hspace (.cons .nil ?_))
    refine .cons .nil (.cons hspace ?_)
    exact .cons hcomment (.cons .nil .nil)
  have hsecond : Spaced (moves.map (control ·.name) ++ [List.replicate 2 '\x27', ['^'], ['2'],
      ['_'], "\x7bi=1\x7d".toList]) "\\nolimits\\limits ''^2_\x7bi=1\x7d".toList := by
    refine .cons .nil (.cons .nil (.cons hspace ?_))
    refine .cons .nil (.cons .nil ?_)
    exact .cons .nil (.cons .nil .nil)
  exact ⟨_, hlower, hupper, fun rest => ⟨_, scripts_in_either_order hlower hupper hfirst hsecond
    rest⟩⟩

end Reading

end OfficeMath
