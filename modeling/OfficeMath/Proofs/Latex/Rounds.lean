import OfficeMath.Proofs.Latex.Depth
import OfficeMath.Proofs.Latex.KeepingPace

/-!
# Loops in rounds

The repetitions of the grammar are loops: through a sequence, a delimited region, the rows of an
array, the commands that move scripts, the scripts themselves, a text, and the body of an
environment that is passed over.  In the rules a loop is a rule that refers to itself, or a function
with a bound that is larger than the number of its rounds can be.  Here each of them is taken apart
into rounds: what one round does is written down without the loop (`sequenceRound` and its kin), and
it either leaves the loop with a result or goes on in a new state (`Round`).

A loop moves on (`MovesOn`) if it is nothing but its rounds, and if every round that is followed by
another one has taken a character.
-/

namespace OfficeMath

/-- Where less is ahead, the offset has grown. -/
theorem Scan.Leads.offset_lt {s t : Scan} (h : s.Leads t)
    (hlt : t.rest.length < s.rest.length) : s.offset < t.offset := by
  have hne : t.offset ≠ s.offset := by
    intro heq
    rw [h.rest_eq_of_offset_eq heq] at hlt
    omega
  obtain ⟨count, added, rfl⟩ := h
  simp only [Scan.advance] at hne ⊢
  omega

/-- How a round of a loop ends. -/
inductive Round (σ α : Type) where
  /-- Another round follows. -/
  | again (state : σ)
  /-- This was the last one. -/
  | leave (result : α)

namespace Reading

variable {σ α β : Type}

/-- What follows a round. -/
def after (run : σ → Reading α) : Round σ α → Reading α
  | .again state => run state
  | .leave result => pure result

/-- A loop that is nothing but its rounds, each of which moves on if another one follows. -/
structure MovesOn (round : σ → Reading (Round σ α)) (run : σ → Reading α) : Prop where
  rounds : ∀ state, run state = round state >>= after run
  advances : ∀ {state next s t}, round state s = .ok (.again next) t → s.offset < t.offset

/-! ## Rounds that take a character -/

/-- A step that leaves fewer than `n` characters ahead if another round follows. -/
def LeavesLess (n : Nat) (s : Scan) (m : Reading (Round σ α)) : Prop :=
  ∀ state t, m s = .ok (.again state) t → t.rest.length < n

namespace LeavesLess

variable {n : Nat} {s : Scan}

theorem leave (result : α) : LeavesLess (σ := σ) n s (pure (.leave result)) := nofun

/-- A round that goes on has moved on before. -/
theorem again (state : σ) (h : s.rest.length < n) :
    LeavesLess (α := α) n s (pure (.again state)) := by
  rintro _ _ ⟨⟩
  exact h

theorem unclosed (closer : Closer) :
    LeavesLess (σ := σ) (α := α) n s (Reading.unclosed closer) := nofun

/-- A step that goes forward, and another one. -/
theorem seq {m : Reading β} {f : β → Reading (Round σ α)} (hm : m.Forward)
    (second : ∀ a t, m s = .ok a t → t.rest.length ≤ s.rest.length → LeavesLess n t (f a)) :
    LeavesLess n s (m >>= f) := by
  intro state u hrun
  obtain ⟨a, t, ha, hf⟩ := bind_eq_ok.mp hrun
  exact second a t ha (hm.leads ha).length_le state u hf

/-- After layout there is none ahead. -/
theorem layout {f : Unit → Reading (Round σ α)}
    (h : ∀ t : Scan, t.rest.length ≤ s.rest.length → layoutLength t.rest = 0 →
      LeavesLess n t (f ())) : LeavesLess n s (skipLayout >>= f) :=
  h _ (Scan.Leads.advance s _).length_le (layoutLength_drop s.rest)

/-- Looking ahead. -/
theorem rest {f : List Char → Reading (Round σ α)} (h : LeavesLess n s (f s.rest)) :
    LeavesLess n s (Reading.rest >>= f) := h

/-- Looking at the offset. -/
theorem offset {f : Nat → Reading (Round σ α)} (h : LeavesLess n s (f s.offset)) :
    LeavesLess n s (Reading.offset >>= f) := h

/-- Taking characters of a rest that is not empty. -/
theorem advance {f : Unit → Reading (Round σ α)} {count : Nat} (hrest : s.rest ≠ [])
    (hcount : 0 < count)
    (h : ∀ t : Scan, t.rest.length < s.rest.length → LeavesLess n t (f ())) :
    LeavesLess n s (Reading.advance count >>= f) :=
  h _ (Scan.length_advance_lt hrest hcount)

end LeavesLess

/-- A loop moves on if its rounds go forward and leave less ahead. -/
theorem movesOn_of_leavesLess {round : σ → Reading (Round σ α)} {run : σ → Reading α}
    (rounds : ∀ state, run state = round state >>= after run)
    (forward : ∀ state, (round state).Forward)
    (less : ∀ state s, LeavesLess s.rest.length s (round state)) : MovesOn round run where
  rounds := rounds
  advances h := ((forward _).leads h).offset_lt (less _ _ _ _ h)

/-! ## The loop through a sequence -/

open Nested (unbounded)

/-- One round of the loop through a sequence, of which `members` have been read. -/
def sequenceRound (closer : Option Closer) (members : List Expr) :
    Reading (Round (List Expr) (List Expr)) := do
  skipLayout
  match closer, ← rest with
  | none, [] => return .leave members
  | some closer, [] => unclosed closer
  | some closer, c :: _ =>
    if c = closer.char then
      advance 1
      return .leave members
    else next
  | none, _ :: _ => next
where
  /-- Read one member. -/
  next : Reading (Round (List Expr) (List Expr)) := do
    let first ← item unbounded
    return .again (members ++ first.toList)

/-- The loop through a sequence. -/
def sequenceLoop (closer : Option Closer) (members : List Expr) : Reading (List Expr) := do
  return members ++ (← unbounded.sequence closer)

/-- Without a bound, an item goes forward. -/
theorem forward_item_unbounded : (item unbounded).Forward :=
  forward_item Nested.forward_unbounded

/-- An item that is read after layout takes a character. -/
theorem leavesLess_item {n : Nat} {s : Scan} {f : Option Expr → Reading (Round σ α)}
    (hrest : s.rest ≠ []) (hlayout : layoutLength s.rest = 0) (hn : s.rest.length ≤ n)
    (h : ∀ found t, t.rest.length < n → LeavesLess n t (f found)) :
    LeavesLess n s (item unbounded >>= f) := by
  have hahead : layoutLength s.rest < s.rest.length := by
    rw [hlayout]
    exact List.length_pos_iff.mpr hrest
  refine .seq forward_item_unbounded fun found t hrun _ => h found t ?_
  have hlt := length_item_lt Nested.forward_unbounded hrun hahead
  omega

/-- The loop through a sequence is its rounds. -/
theorem sequenceLoop_eq_rounds (closer : Option Closer) (members : List Expr) :
    sequenceLoop closer members = sequenceRound closer members >>= after (sequenceLoop closer) := by
  have hnext : (sequence.next unbounded closer >>= fun others => pure (members ++ others))
      = sequenceRound.next members >>= after (sequenceLoop closer) := by
    simp [sequence.next, sequenceRound.next, after, sequenceLoop]
  rw [sequenceLoop, Nested.sequence_unbounded]
  unfold sequence sequenceRound
  simp only [bind_assoc]
  refine bind_congr fun _ => bind_congr fun ahead => ?_
  cases closer with
  | none =>
    cases ahead with
    | nil => simp [after]
    | cons c rest => exact hnext
  | some closer =>
    cases ahead with
    | nil => rfl
    | cons c rest =>
      dsimp only
      split
      · simp [after]
      · exact hnext

/-- One round through a sequence goes forward. -/
theorem forward_sequenceRound (closer : Option Closer) (members : List Expr) :
    (sequenceRound closer members).Forward := by
  have hnext : (sequenceRound.next members).Forward :=
    .bind forward_item_unbounded fun _ => .pure _
  refine .bind forward_skipLayout fun _ => .bind .rest fun ahead => ?_
  split
  · exact .pure _
  · exact .unclosed _
  · split
    · exact .bind (.advance _) fun _ => .pure _
    · exact hnext
  · exact hnext

/-- Every round through a sequence takes an item. -/
theorem movesOn_sequence (closer : Option Closer) :
    MovesOn (sequenceRound closer) (sequenceLoop closer) := by
  refine movesOn_of_leavesLess (sequenceLoop_eq_rounds closer) (forward_sequenceRound closer) ?_
  intro members s
  refine .layout fun t ht hlayout => .rest ?_
  have hless (hrest : t.rest ≠ []) : LeavesLess s.rest.length t (sequenceRound.next members) :=
    leavesLess_item hrest hlayout ht fun _ _ hu => .again _ hu
  cases hrest : t.rest with
  | nil =>
    cases closer with
    | none => exact .leave _
    | some closer => exact .unclosed _
  | cons c rest =>
    have hne : t.rest ≠ [] := by simp [hrest]
    cases closer with
    | none => exact hless hne
    | some closer =>
      dsimp only
      split
      · exact .seq (.advance _) fun _ _ _ _ => .leave _
      · exact hless hne

/-! ## The loop through a delimited region -/

/-- One round of the loop through a delimited region, of which `items` have been read. -/
def regionRound (items : List Item) : Reading (Round (List Item) (List Item × String)) := do
  skipLayout
  match ← rest with
  | [] => missing
  | c :: after =>
    if c = '}' then missing
    else if c = '\\' then
      let name := commandName after
      if name = "end".toList then missing
      else if name = "right".toList then
        advance 6
        return .leave (items, ← delimiterAfter "right")
      else if name = "middle".toList then
        advance 7
        let separator ← delimiterAfter "middle"
        return .again (items ++ [.separator separator])
      else next
    else next
where
  /-- Close the region where it is. -/
  missing : Reading (Round (List Item) (List Item × String)) := do
    note (.missingRight (← offset))
    return .leave (items, "")
  /-- Read one item. -/
  next : Reading (Round (List Item) (List Item × String)) := do
    let first ← item unbounded
    return .again (items ++ first.toList.map .expr)

/-- The loop through a delimited region. -/
def regionLoop (items : List Item) : Reading (List Item × String) := do
  let (others, closing) ← unbounded.region
  return (items ++ others, closing)

/-- The loop through a region is its rounds. -/
theorem regionLoop_eq_rounds (items : List Item) :
    regionLoop items = regionRound items >>= after regionLoop := by
  have hclose : (region.missing >>= fun found => pure (items ++ found.1, found.2))
      = regionRound.missing items >>= after regionLoop := by
    simp [region.missing, regionRound.missing, after]
  have hnext : (region.next unbounded >>= fun found => pure (items ++ found.1, found.2))
      = regionRound.next items >>= after regionLoop := by
    simp [region.next, regionRound.next, after, regionLoop]
  rw [regionLoop, Nested.region_unbounded]
  unfold region regionRound
  simp only [bind_assoc]
  refine bind_congr fun _ => bind_congr fun ahead => ?_
  cases ahead with
  | nil => exact hclose
  | cons c rest =>
    dsimp only
    split
    · exact hclose
    split
    · split
      · exact hclose
      split
      · simp [after]
      split
      · simp [after, regionLoop]
      · exact hnext
    · exact hnext

/-- One round through a region goes forward. -/
theorem forward_regionRound (items : List Item) : (regionRound items).Forward := by
  have hmissing : (regionRound.missing items).Forward :=
    .bind .offset fun _ => .bind (.note _) fun _ => .pure _
  have hnext : (regionRound.next items).Forward :=
    .bind forward_item_unbounded fun _ => .pure _
  refine .bind forward_skipLayout fun _ => .bind .rest fun ahead => ?_
  split
  · exact hmissing
  split
  · exact hmissing
  split
  · dsimp only
    split
    · exact hmissing
    split
    · exact .bind (.advance _) fun _ => .bind (forward_delimiterAfter _) fun _ => .pure _
    split
    · exact .bind (.advance _) fun _ => .bind (forward_delimiterAfter _) fun _ => .pure _
    · exact hnext
  · exact hnext

/-- Every round through a region takes an item, or `\middle` and its delimiter. -/
theorem movesOn_region : MovesOn regionRound regionLoop := by
  refine movesOn_of_leavesLess regionLoop_eq_rounds forward_regionRound ?_
  intro items s
  refine .layout fun t ht hlayout => .rest ?_
  have hclose : LeavesLess s.rest.length t (regionRound.missing items) :=
    .seq .offset fun _ _ _ _ => .seq (.note _) fun _ _ _ _ => .leave _
  cases hrest : t.rest with
  | nil => exact hclose
  | cons c rest =>
    have hne : t.rest ≠ [] := by simp [hrest]
    have hless : LeavesLess s.rest.length t (regionRound.next items) :=
      leavesLess_item hne hlayout ht fun _ _ hu => .again _ hu
    dsimp only
    split
    · exact hclose
    split
    · split
      · exact hclose
      split
      · refine .seq (.advance _) fun _ u _ _ => ?_
        exact .seq (forward_delimiterAfter _) fun _ _ _ _ => .leave _
      split
      · refine .advance hne (by omega) fun u hu => ?_
        exact .seq (forward_delimiterAfter _) fun _ v _ hv => .again _ (by omega)
      · exact hless
    · exact hless

/-! ## The loop through the rows of an array -/

/-- How far an array has been read: the rows that are complete, the cells of the open row and the
members of the open cell. -/
structure Grid where
  rows : List Row
  row : Row
  cell : Cell

/-- One round of the loop through the rows of an array. -/
def rowsRound (grid : Grid) : Reading (Round Grid (List Row)) := do
  skipLayout
  match ← rest with
  | [] => missing
  | c :: after =>
    if c = '}' then missing
    else if c = '&' then
      advance 1
      return .again { grid with row := grid.row ++ [grid.cell], cell := [] }
    else if c = '\\' then
      let name := commandName after
      if name = ['\\'] then
        advance 2
        if (← rest).head? = some '[' then let _ ← through? ']'
        return .again ⟨grid.rows ++ [grid.row ++ [grid.cell]], [], []⟩
      else if name = "end".toList then
        advance 4
        let _ ← environmentName?
        return .leave (grid.rows ++ rows.last grid.row grid.cell)
      else next
    else next
where
  /-- Close the array where it is. -/
  missing : Reading (Round Grid (List Row)) := do
    note (.missingEnd (← offset))
    return .leave (grid.rows ++ rows.last grid.row grid.cell)
  /-- Read one member of the open cell. -/
  next : Reading (Round Grid (List Row)) := do
    let first ← item unbounded
    return .again { grid with cell := grid.cell ++ first.toList }

/-- The loop through the rows of an array. -/
def rowsLoop (grid : Grid) : Reading (List Row) := do
  return grid.rows ++ (← unbounded.rows grid.row grid.cell)

/-- The loop through the rows of an array is its rounds. -/
theorem rowsLoop_eq_rounds (grid : Grid) : rowsLoop grid = rowsRound grid >>= after rowsLoop := by
  have hclose : (rows.missing grid.row grid.cell >>= fun others => pure (grid.rows ++ others))
      = rowsRound.missing grid >>= after rowsLoop := by
    simp [rows.missing, rowsRound.missing, after]
  have hnext : (rows.next unbounded grid.row grid.cell >>= fun others => pure (grid.rows ++ others))
      = rowsRound.next grid >>= after rowsLoop := by
    simp [rows.next, rowsRound.next, after, rowsLoop]
  rw [rowsLoop, Nested.rows_unbounded]
  unfold rows rowsRound
  simp only [bind_assoc]
  refine bind_congr fun _ => bind_congr fun ahead => ?_
  cases ahead with
  | nil => exact hclose
  | cons c rest =>
    dsimp only
    split
    · exact hclose
    split
    · simp [after, rowsLoop]
    split
    · split
      · simp only [bind_assoc]
        refine bind_congr fun _ => bind_congr fun ahead => ?_
        split <;> simp [after, rowsLoop]
      split
      · simp [after]
      · exact hnext
    · exact hnext

/-- One round through the rows of an array goes forward. -/
theorem forward_rowsRound (grid : Grid) : (rowsRound grid).Forward := by
  have hmissing : (rowsRound.missing grid).Forward :=
    .bind .offset fun _ => .bind (.note _) fun _ => .pure _
  have hnext : (rowsRound.next grid).Forward :=
    .bind forward_item_unbounded fun _ => .pure _
  refine .bind forward_skipLayout fun _ => .bind .rest fun ahead => ?_
  split
  · exact hmissing
  split
  · exact hmissing
  split
  · exact .bind (.advance _) fun _ => .pure _
  split
  · dsimp only
    split
    · refine .bind (.advance _) fun _ => .bind .rest fun _ => ?_
      split
      · exact .bind (forward_through _) fun _ => .pure _
      · exact .pure _
    split
    · exact .bind (.advance _) fun _ => .bind forward_environmentName fun _ => .pure _
    · exact hnext
  · exact hnext

/-- Every round through the rows of an array takes an item or a mark between cells or rows. -/
theorem movesOn_rows : MovesOn rowsRound rowsLoop := by
  refine movesOn_of_leavesLess rowsLoop_eq_rounds forward_rowsRound ?_
  intro grid s
  refine .layout fun t ht hlayout => .rest ?_
  have hclose : LeavesLess s.rest.length t (rowsRound.missing grid) :=
    .seq .offset fun _ _ _ _ => .seq (.note _) fun _ _ _ _ => .leave _
  cases hrest : t.rest with
  | nil => exact hclose
  | cons c rest =>
    have hne : t.rest ≠ [] := by simp [hrest]
    have hless : LeavesLess s.rest.length t (rowsRound.next grid) :=
      leavesLess_item hne hlayout ht fun _ _ hu => .again _ hu
    dsimp only
    split
    · exact hclose
    split
    · exact .advance hne Nat.one_pos fun u hu => .again _ (by omega)
    split
    · split
      · refine .advance hne (by omega) fun u hu => .rest ?_
        split
        · exact .seq (forward_through _) fun _ v _ hv => .again _ (by omega)
        · exact .again _ (by omega)
      split
      · refine .seq (.advance _) fun _ u _ _ => ?_
        exact .seq forward_environmentName fun _ _ _ _ => .leave _
      · exact hless
    · exact hless

/-! ## The loops around a base -/

/-- One round of the loop through the commands that move scripts. -/
def limitsRound (place : Limits) : Reading (Round Limits Limits) := do
  skipLayout
  match commandAt? (← rest) with
  | some "limits" =>
    advance 7
    return .again .fixed
  | some "nolimits" =>
    advance 9
    return .again .side
  | _ => return .leave place

/-- Every round through commands that move scripts takes one of them. -/
theorem movesOn_limits : MovesOn limitsRound unbounded.limits := by
  refine movesOn_of_leavesLess (fun place => ?_) (fun place => ?_) fun place s => ?_
  · rw [Nested.limits_unbounded]
    unfold limits limitsRound
    simp only [bind_assoc]
    refine bind_congr fun _ => bind_congr fun ahead => ?_
    generalize commandAt? ahead = found
    split
    · simp [after]
    · simp [after]
    · simp [after, *]
  · refine .bind forward_skipLayout fun _ => .bind .rest fun ahead => ?_
    split
    · exact .bind (.advance _) fun _ => .pure _
    · exact .bind (.advance _) fun _ => .pure _
    · exact .pure _
  · refine .layout fun t ht hlayout => .rest ?_
    have hne {name : String} (hcommand : commandAt? t.rest = some name) : t.rest ≠ [] := by
      intro hnone
      rw [hnone] at hcommand
      cases hcommand
    split
    · next hcommand => exact .advance (hne hcommand) (by omega) fun u hu => .again _ (by omega)
    · next hcommand => exact .advance (hne hcommand) (by omega) fun u hu => .again _ (by omega)
    · exact .leave _

/-- One more script, if there may be one. -/
def scriptsRound (scripts : Scripts) : Reading (Round Scripts Scripts) := do
  skipLayout
  match (← rest).head? with
  | some '_' =>
    match scripts.lower with
    | some _ => return .leave scripts
    | none =>
      advance 1
      let lower ← argument unbounded
      return .again { scripts with lower := some lower }
  | some '^' =>
    match scripts.upper with
    | none =>
      advance 1
      let upper ← superscript unbounded
      return .again { scripts with upper := some upper, onlyPrimes := false }
    | some primes =>
      if scripts.onlyPrimes then
        advance 1
        let upper ← superscript unbounded
        return .again
          { scripts with upper := some (.group [primes, upper]), onlyPrimes := false }
      else return .leave scripts
  | _ => return .leave scripts

/-- The number of scripts that may still be taken. -/
def openScripts (scripts : Scripts) : Nat :=
  (if scripts.lower.isNone then 1 else 0) +
    if scripts.upper.isNone || scripts.onlyPrimes then 1 else 0

/-- A bound on the rounds does not matter if it is larger than the number of scripts that may
still be taken. -/
theorem scriptsFrom_bound (nested : Nested) {bound bound' : Nat} {scripts : Scripts}
    (h : openScripts scripts < bound) (h' : openScripts scripts < bound') :
    scriptsFrom nested bound scripts = scriptsFrom nested bound' scripts := by
  induction bound generalizing bound' scripts with
  | zero => omega
  | succ bound ih =>
    cases bound' with
    | zero => omega
    | succ bound' =>
      have next {more : Scripts} (hmore : openScripts more < openScripts scripts) :
          scriptsFrom nested bound more = scriptsFrom nested bound' more :=
        ih (by omega) (by omega)
      unfold scriptsFrom
      refine bind_congr fun _ => bind_congr fun ahead => ?_
      obtain ⟨lower, upper, onlyPrimes⟩ := scripts
      split
      · cases lower with
        | some lower => rfl
        | none =>
          refine bind_congr fun _ => bind_congr fun lower => next ?_
          simp [openScripts]
      · cases upper with
        | none =>
          refine bind_congr fun _ => bind_congr fun upper => next ?_
          simp [openScripts]
        | some primes =>
          cases onlyPrimes with
          | false => rfl
          | true =>
            refine bind_congr fun _ => bind_congr fun upper => next ?_
            simp [openScripts]
      · rfl

/-- The loop through scripts is its rounds. -/
theorem scriptsFrom_eq_rounds (scripts : Scripts) :
    scriptsFrom unbounded 3 scripts
      = scriptsRound scripts >>= after (scriptsFrom unbounded 3) := by
  -- a round that is followed by another one leaves at most one script to take
  have next {more : Scripts} (hmore : openScripts more < 2) :
      scriptsFrom unbounded 2 more = scriptsFrom unbounded 3 more :=
    scriptsFrom_bound unbounded hmore (by omega)
  have hlower (lower : Expr) : openScripts { scripts with lower := some lower } < 2 := by
    simp only [openScripts, Option.isNone_some, Bool.false_eq_true, if_false]
    split <;> omega
  have hupper (upper : Expr) :
      openScripts { scripts with upper := some upper, onlyPrimes := false } < 2 := by
    simp only [openScripts, Option.isNone_some, Bool.or_self, Bool.false_eq_true, if_false]
    split <;> omega
  rw [scriptsFrom]
  unfold scriptsRound
  simp only [bind_assoc]
  refine bind_congr fun _ => bind_congr fun ahead => ?_
  generalize ahead.head? = head
  split
  · cases scripts.lower with
    | some lower => simp [after]
    | none => simp [after, next (hlower _)]
  · cases scripts.upper with
    | none => simp [after, next (hupper _)]
    | some primes =>
      cases scripts.onlyPrimes with
      | false => simp [after]
      | true => simp [after, next (hupper _)]
  · simp [after, *]

/-- Without a bound, an argument goes forward. -/
theorem forward_argument_unbounded : (argument unbounded).Forward :=
  forward_argument Nested.forward_unbounded

/-- Without a bound, a superscript goes forward. -/
theorem forward_superscript_unbounded : (superscript unbounded).Forward :=
  forward_superscript Nested.forward_unbounded

/-- One round through scripts goes forward. -/
theorem forward_scriptsRound (scripts : Scripts) : (scriptsRound scripts).Forward := by
  have hupper (next : Expr → Scripts) : (advance 1 >>= fun _ => superscript unbounded >>= fun e =>
      pure (Round.again (α := Scripts) (next e))).Forward :=
    .bind (.advance _) fun _ => .bind forward_superscript_unbounded fun _ => .pure _
  refine .bind forward_skipLayout fun _ => .bind .rest fun ahead => ?_
  split
  · split
    · exact .pure _
    · exact .bind (.advance _) fun _ => .bind forward_argument_unbounded fun _ => .pure _
  · split
    · exact hupper _
    split
    · exact hupper _
    · exact .pure _
  · exact .pure _

/-- Every round through scripts takes the mark of a script. -/
theorem movesOn_scripts : MovesOn scriptsRound (scriptsFrom unbounded 3) := by
  refine movesOn_of_leavesLess scriptsFrom_eq_rounds forward_scriptsRound ?_
  intro scripts s
  refine .layout fun t ht hlayout => .rest ?_
  have hne {c : Char} (hhead : t.rest.head? = some c) : t.rest ≠ [] := by
    intro hnone
    simp [hnone] at hhead
  split
  · next hhead =>
    split
    · exact .leave _
    · refine .advance (hne hhead) Nat.one_pos fun u hu => ?_
      exact .seq forward_argument_unbounded fun _ v _ hv => .again _ (by omega)
  · next hhead =>
    have hupper (next : Expr → Scripts) : LeavesLess (α := Scripts) s.rest.length t
        (advance 1 >>= fun _ => superscript unbounded >>= fun e => pure (.again (next e))) := by
      refine .advance (hne hhead) Nat.one_pos fun u hu => ?_
      exact .seq forward_superscript_unbounded fun _ v _ hv => .again _ (by omega)
    split
    · exact hupper _
    split
    · exact hupper _
    · exact .leave _
  · exact .leave _

/-! ## The loops through plain text -/

/-- How far a text argument has been read: the number of braces that are open inside it, and the
text so far, the last character first. -/
structure OpenText where
  depth : Nat
  text : List Char

/-- One round of the loop through a text argument. -/
def textRound (state : OpenText) : Reading (Round OpenText String) := do
  match ← rest with
  | [] => unclosed .brace
  | c :: after =>
    let start ← offset
    advance 1
    if c = '}' then
      match state.depth with
      | 0 => return .leave (String.ofList state.text.reverse)
      | depth + 1 => return .again { state with depth := depth }
    else if c = '{' then return .again { state with depth := state.depth + 1 }
    else if c = '~' then return .again { state with text := '\u00a0' :: state.text }
    else if c = '\\' then
      let name := commandName after
      advance name.length
      match name with
      | [] => return .again state
      | escaped :: _ =>
        if escaped.isAlpha then
          note (.ignoredInText (String.ofList name) start)
          return .again state
        else return .again { state with text := escaped :: state.text }
    else if isBlank c then
      return .again { state with
        text := if state.text.head? = some ' ' then state.text else ' ' :: state.text }
    else return .again { state with text := c :: state.text }

/-- The loop through a text argument. -/
def textLoop (state : OpenText) : Reading String := do
  textFrom (← rest).length state.depth state.text

/-- One round of the loop through an environment that is passed over, with the number of
environments of the same name that are open inside it. -/
def skipRound (name : String) (depth : Nat) : Reading (Round Nat Unit) := do
  match ← rest with
  | [] =>
    note (.openEnvironment name)
    return .leave ()
  | c :: after =>
    advance 1
    if c = '\\' then
      let command := commandName after
      advance command.length
      if command = "begin".toList then
        if (← environmentName?) = some name then return .again (depth + 1)
        else return .again depth
      else if command = "end".toList then
        if (← environmentName?) = some name then
          match depth with
          | 0 => return .leave ()
          | depth + 1 => return .again depth
        else return .again depth
      else return .again depth
    else return .again depth

/-- The loop through an environment that is passed over. -/
def skipLoop (name : String) (depth : Nat) : Reading Unit := do
  skipEnvironmentFrom name (← rest).length depth

/-- The loop through plain text is its rounds. -/
theorem textLoop_eq_rounds (state : OpenText) :
    textLoop state = textRound state >>= after textLoop := by
  funext s
  show SameAt s (textFrom s.rest.length state.depth state.text)
    (textRound state >>= after textLoop)
  unfold textRound
  rw [bind_assoc]
  cases hrest : s.rest with
  | nil =>
    unfold SameAt
    rw [textFrom_nil hrest, run_bind_ok (run_rest s), hrest]
    rfl
  | cons c more =>
    have hne : s.rest ≠ [] := by simp [hrest]
    rw [List.length_cons]
    unfold textFrom
    refine .rest ?_
    rw [hrest]
    simp only [bind_assoc]
    refine .offset (.advance hne Nat.one_pos fun t ht => ?_)
    rw [hrest, List.length_cons] at ht
    -- the bound is large enough for the rounds that follow, and so is any other
    have next {u : Scan} (hu : u.rest.length ≤ t.rest.length) (depth : Nat) (text : List Char) :
        SameAt u (textFrom more.length depth text)
          (pure (.again ⟨depth, text⟩) >>= after textLoop) :=
      textFrom_same (by omega) (Nat.le_refl _) depth text
    have hnow := next (Nat.le_refl _)
    split
    · cases state.depth with
      | zero => exact .refl _
      | succ depth => exact hnow _ _
    split
    · exact hnow _ _
    split
    · exact hnow _ _
    split
    · rw [bind_assoc]
      refine .seq (.advance _) fun _ u hu => ?_
      cases commandName more with
      | nil => exact next hu _ _
      | cons escaped letters =>
        dsimp only
        split
        · rw [bind_assoc]
          exact .seq (.note _) fun _ v hv => next (by omega) _ _
        · exact next hu _ _
    split
    · exact hnow _ _
    · exact hnow _ _

/-- One round through plain text goes forward. -/
theorem forward_textRound (state : OpenText) : (textRound state).Forward := by
  refine .bind .rest fun ahead => ?_
  split
  · exact .unclosed _
  refine .bind .offset fun _ => .bind (.advance _) fun _ => ?_
  split
  · cases state.depth with
    | zero => exact .pure _
    | succ depth => exact .pure _
  split
  · exact .pure _
  split
  · exact .pure _
  split
  · refine .bind (.advance _) fun _ => ?_
    split
    · exact .pure _
    split
    · exact .bind (.note _) fun _ => .pure _
    · exact .pure _
  split
  · exact .pure _
  · exact .pure _

/-- Every round through plain text takes a character. -/
theorem movesOn_text : MovesOn textRound textLoop := by
  refine movesOn_of_leavesLess textLoop_eq_rounds forward_textRound ?_
  intro state s
  refine .rest ?_
  generalize hlength : s.rest.length = length
  cases hrest : s.rest with
  | nil => exact .unclosed _
  | cons c more =>
    have hne : s.rest ≠ [] := by simp [hrest]
    refine .offset (.advance hne Nat.one_pos fun t ht => ?_)
    have hagain (next : OpenText) : LeavesLess (α := String) length t (pure (.again next)) :=
      .again _ (by omega)
    split
    · cases state.depth with
      | zero => exact .leave _
      | succ depth => exact hagain _
    split
    · exact hagain _
    split
    · exact hagain _
    split
    · refine .seq (.advance _) fun _ u _ hu => ?_
      split
      · exact .again _ (by omega)
      split
      · exact .seq (.note _) fun _ v _ hv => .again _ (by omega)
      · exact .again _ (by omega)
    split
    · exact hagain _
    · exact hagain _

/-- The loop through a body that is passed over is its rounds. -/
theorem skipLoop_eq_rounds (name : String) (depth : Nat) :
    skipLoop name depth = skipRound name depth >>= after (skipLoop name) := by
  funext s
  show SameAt s (skipEnvironmentFrom name s.rest.length depth)
    (skipRound name depth >>= after (skipLoop name))
  unfold skipRound
  rw [bind_assoc]
  cases hrest : s.rest with
  | nil =>
    unfold SameAt
    rw [skipEnvironmentFrom_nil hrest, run_bind_ok (run_rest s), hrest]
    rfl
  | cons c more =>
    have hne : s.rest ≠ [] := by simp [hrest]
    rw [List.length_cons]
    unfold skipEnvironmentFrom
    refine .rest ?_
    rw [hrest]
    simp only [bind_assoc]
    refine .advance hne Nat.one_pos fun t ht => ?_
    rw [hrest, List.length_cons] at ht
    have next {u : Scan} (hu : u.rest.length ≤ t.rest.length) (depth : Nat) :
        SameAt u (skipEnvironmentFrom name more.length depth)
          (pure (.again depth) >>= after (skipLoop name)) :=
      skipEnvironmentFrom_same name (by omega) (Nat.le_refl _) depth
    split
    · rw [bind_assoc]
      refine .seq (.advance _) fun _ u hu => ?_
      split
      · rw [bind_assoc]
        refine .seq forward_environmentName fun found v hv => ?_
        split
        · exact next (by omega) _
        · exact next (by omega) _
      split
      · rw [bind_assoc]
        refine .seq forward_environmentName fun found v hv => ?_
        split
        · cases depth with
          | zero => exact .refl _
          | succ depth => exact next (by omega) _
        · exact next (by omega) _
      · exact next hu _
    · exact next (Nat.le_refl _) _

/-- One round through a body that is passed over goes forward. -/
theorem forward_skipRound (name : String) (depth : Nat) : (skipRound name depth).Forward := by
  refine .bind .rest fun ahead => ?_
  split
  · exact .bind (.note _) fun _ => .pure _
  refine .bind (.advance _) fun _ => ?_
  split
  · refine .bind (.advance _) fun _ => ?_
    split
    · refine .bind forward_environmentName fun found => ?_
      split
      · exact .pure _
      · exact .pure _
    split
    · refine .bind forward_environmentName fun found => ?_
      split
      · cases depth with
        | zero => exact .pure _
        | succ outer => exact .pure _
      · exact .pure _
    · exact .pure _
  · exact .pure _

/-- Every round through a body that is passed over takes a character. -/
theorem movesOn_skip (name : String) : MovesOn (skipRound name) (skipLoop name) := by
  refine movesOn_of_leavesLess (skipLoop_eq_rounds name) (forward_skipRound name) ?_
  intro depth s
  refine .rest ?_
  generalize hlength : s.rest.length = length
  cases hrest : s.rest with
  | nil => exact .seq (.note _) fun _ _ _ _ => .leave _
  | cons c more =>
    have hne : s.rest ≠ [] := by simp [hrest]
    refine .advance hne Nat.one_pos fun t ht => ?_
    split
    · refine .seq (.advance _) fun _ u _ hu => ?_
      split
      · refine .seq forward_environmentName fun found v _ hv => ?_
        split
        · exact .again _ (by omega)
        · exact .again _ (by omega)
      split
      · refine .seq forward_environmentName fun found v _ hv => ?_
        split
        · cases depth with
          | zero => exact .leave _
          | succ outer => exact .again _ (by omega)
        · exact .again _ (by omega)
      · exact .again _ (by omega)
    · exact .again _ (by omega)

end Reading

end OfficeMath
