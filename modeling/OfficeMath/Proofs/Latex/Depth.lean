import OfficeMath.Latex.Parse
import OfficeMath.Proofs.Latex.Lexemes
import OfficeMath.Proofs.Latex.Progress

/-!
# The depth is never used up

The rules are fed to themselves a given number of times (`Nested.ofDepth`), and the reader takes
twice the number of remaining characters and two.  Here it is shown that this bound is no part of
what is read: `Nested.unbounded` reads every nested part with as much depth as its own rest asks
for, and it is a fixed point of the rules (`Nested.base_unbounded` and its kin).  Whoever reasons
about the reader can go by these equations and forget the depth.

A nested base or a nested sequence begins after the rule that asks for it has taken a character,
except for the base at the start of an item.  So the depths that agree on bases for fewer than
`m` and on repetitions for fewer than `n` characters (`Nested.Agree`) alternate: from `(n, n)` to
`(n + 1, n)` to `(n + 1, n + 1)`, with one more unit of depth at each step (`Nested.agree_ofDepth`).
-/

namespace OfficeMath

/-- Two ways of reading nested parts agree, for bases and limits on a rest of fewer than `m`
characters and for repetitions on a rest of fewer than `n`. -/
structure Nested.Agree (A B : Nested) (m n : Nat) : Prop where
  base : ∀ s : Scan, s.rest.length < m → A.base s = B.base s
  limits : ∀ place (s : Scan), s.rest.length < m → A.limits place s = B.limits place s
  sequence : ∀ closer (s : Scan), s.rest.length < n → A.sequence closer s = B.sequence closer s
  region : ∀ s : Scan, s.rest.length < n → A.region s = B.region s
  rows : ∀ row cell (s : Scan), s.rest.length < n → A.rows row cell s = B.rows row cell s

namespace Reading

/-- Two steps do the same from a scan. -/
def SameAt {α : Type} (s : Scan) (m m' : Reading α) : Prop := m s = m' s

namespace SameAt

variable {α β : Type} {s : Scan}

theorem refl (m : Reading α) : SameAt s m m := rfl

/-- What two steps have in common with a third one. -/
theorem trans {m m' m'' : Reading α} (first : SameAt s m m') (second : SameAt s m' m'') :
    SameAt s m m'' := Eq.trans first second

/-- Steps with the same continuation do the same if they do so alone. -/
theorem map {m m' : Reading α} {f : α → Reading β} (first : SameAt s m m') :
    SameAt s (m >>= f) (m' >>= f) := by
  unfold SameAt at first ⊢
  cases hrun : m s with
  | ok a t => rw [run_bind_ok hrun, run_bind_ok (first ▸ hrun)]
  | error e t => rw [run_bind_error hrun, run_bind_error (first ▸ hrun)]

/-- A step that goes forward, with continuations that do the same where no more is ahead. -/
theorem seq {m : Reading α} {f f' : α → Reading β} (hm : m.Forward)
    (second : ∀ a (t : Scan), t.rest.length ≤ s.rest.length → SameAt t (f a) (f' a)) :
    SameAt s (m >>= f) (m >>= f') := by
  unfold SameAt
  cases hrun : m s with
  | ok a t =>
    rw [run_bind_ok hrun, run_bind_ok hrun]
    exact second a t (hm.leads hrun).length_le
  | error e t => rw [run_bind_error hrun, run_bind_error hrun]

/-- Two steps in a row. -/
theorem bind {m m' : Reading α} {f f' : α → Reading β} (first : SameAt s m m') (hm : m.Forward)
    (second : ∀ a (t : Scan), t.rest.length ≤ s.rest.length → SameAt t (f a) (f' a)) :
    SameAt s (m >>= f) (m' >>= f') :=
  (seq hm second).trans (map first)

/-- After layout there is none ahead. -/
theorem layout {f f' : Unit → Reading β}
    (h : ∀ t : Scan, t.rest.length ≤ s.rest.length → layoutLength t.rest = 0 →
      SameAt t (f ()) (f' ())) : SameAt s (skipLayout >>= f) (skipLayout >>= f') :=
  h _ (Scan.Leads.advance s _).length_le (layoutLength_drop s.rest)

/-- Looking ahead. -/
theorem rest {f f' : List Char → Reading β} (h : SameAt s (f s.rest) (f' s.rest)) :
    SameAt s (Reading.rest >>= f) (Reading.rest >>= f') := h

/-- Looking at the offset. -/
theorem offset {f f' : Nat → Reading β} (h : SameAt s (f s.offset) (f' s.offset)) :
    SameAt s (Reading.offset >>= f) (Reading.offset >>= f') := h

/-- Taking characters of a rest that is not empty. -/
theorem advance {f f' : Unit → Reading β} {count : Nat} (hrest : s.rest ≠ [])
    (hcount : 0 < count)
    (h : ∀ t : Scan, t.rest.length < s.rest.length → SameAt t (f ()) (f' ())) :
    SameAt s (Reading.advance count >>= f) (Reading.advance count >>= f') :=
  h _ (Scan.length_advance_lt hrest hcount)

/-- A choice between steps. -/
theorem ite {c : Prop} [Decidable c] {m n m' n' : Reading α} (yes : c → SameAt s m m')
    (no : ¬ c → SameAt s n n') : SameAt s (if c then m else n) (if c then m' else n') := by
  by_cases h : c
  · rw [if_pos h, if_pos h]
    exact yes h
  · rw [if_neg h, if_neg h]
    exact no h

end SameAt

/-! ## Rules over nested parts that agree -/

variable {A B : Nested} {m n : Nat} {s : Scan}

/-- An argument may be a base at its own place, and asks for groups further on. -/
theorem argument_same (h : A.Agree B m n) (hm : s.rest.length < m) (hn : s.rest.length ≤ n) :
    SameAt s (argument A) (argument B) := by
  refine .seq forward_skipLayout fun _ t ht => .rest ?_
  cases hrest : t.rest with
  | nil => exact .refl _
  | cons c after =>
    have hne : t.rest ≠ [] := by simp [hrest]
    dsimp only
    split
    · exact .advance hne Nat.one_pos fun u hu => .map (h.sequence _ u (by omega))
    split
    · exact .refl _
    · exact .map (h.base t (by omega))

/-- Commands that move scripts ask for more of them behind their names. -/
theorem limits_same (h : A.Agree B m n) (hm : s.rest.length ≤ m) (place : Limits) :
    SameAt s (limits A place) (limits B place) := by
  refine .seq forward_skipLayout fun _ t ht => .rest ?_
  have hne {name : String} (hcommand : commandAt? t.rest = some name) : t.rest ≠ [] := by
    intro hnone
    rw [hnone] at hcommand
    cases hcommand
  split
  · next hcommand =>
    exact .advance (hne hcommand) (by omega) fun u hu => h.limits _ u (by omega)
  · next hcommand =>
    exact .advance (hne hcommand) (by omega) fun u hu => h.limits _ u (by omega)
  · exact .refl _

/-- A superscript may be an argument at its own place. -/
theorem superscript_same (h : A.Agree B m n) (hm : s.rest.length < m) (hn : s.rest.length ≤ n) :
    SameAt s (superscript A) (superscript B) := by
  refine .seq forward_skipLayout fun _ t ht => .seq forward_primes fun count u hu => ?_
  split
  · exact argument_same h (by omega) (by omega)
  · exact .refl _

/-- A script is read behind its mark, and so further on. -/
theorem scriptsFrom_same (hA : A.Forward) (h : A.Agree B m n) (hm : s.rest.length ≤ m)
    (hn : s.rest.length ≤ n) (bound : Nat) (scripts : Scripts) :
    SameAt s (scriptsFrom A bound scripts) (scriptsFrom B bound scripts) := by
  induction bound generalizing scripts s with
  | zero => exact .refl _
  | succ bound ih =>
    refine .seq forward_skipLayout fun _ t ht => .rest ?_
    have hne {c : Char} (hhead : t.rest.head? = some c) : t.rest ≠ [] := by
      intro hnone
      simp [hnone] at hhead
    split
    · next hhead =>
      split
      · exact .refl _
      · refine .advance (hne hhead) Nat.one_pos fun u hu => ?_
        refine .bind (argument_same h (by omega) (by omega)) (forward_argument hA) fun _ v hv => ?_
        exact ih (by omega) (by omega) _
    · next hhead =>
      have hupper (next : Expr → Scripts) : SameAt t
          (advance 1 >>= fun _ => superscript A >>= fun e => scriptsFrom A bound (next e))
          (advance 1 >>= fun _ => superscript B >>= fun e => scriptsFrom B bound (next e)) := by
        refine .advance (hne hhead) Nat.one_pos fun u hu => ?_
        refine .bind (superscript_same h (by omega) (by omega)) (forward_superscript hA) ?_
        exact fun _ v hv => ih (by omega) (by omega) _
      split
      · exact hupper _
      split
      · exact hupper _
      · exact .refl _
    · exact .refl _

/-- The scripts of a base are read at the place where the base ends. -/
theorem scripts_same (hA : A.Forward) (h : A.Agree B m n) (hm : s.rest.length ≤ m)
    (hn : s.rest.length ≤ n) (b : Base) : SameAt s (scripts A b) (scripts B b) := by
  refine .bind (limits_same h hm _) (forward_limits hA _) fun _ t ht => ?_
  refine .seq forward_primes fun _ u hu => ?_
  exact .map (scriptsFrom_same hA h (by omega) (by omega) _ _)

/-- An item asks for its base at its own place. -/
theorem item_same (hA : A.Forward) (h : A.Agree B m n) (hm : s.rest.length < m)
    (hn : s.rest.length ≤ n) : SameAt s (item A) (item B) := by
  refine .seq forward_skipLayout fun _ t ht => .seq .offset fun _ u hu => ?_
  refine .bind (h.base u (by omega)) hA.base fun found v hv => ?_
  split
  · exact .map (scripts_same hA h (by omega) (by omega) _)
  · exact .refl _

/-- An item and what comes after it, where the formula goes on. -/
theorem item_bind_same {α : Type} {f f' : Option Expr → Reading α} (hA : A.Forward)
    (h : A.Agree B m n) (hm : s.rest.length < m) (hn : s.rest.length ≤ n) (hrest : s.rest ≠ [])
    (hlayout : layoutLength s.rest = 0)
    (hf : ∀ found (t : Scan), t.rest.length < n → SameAt t (f found) (f' found)) :
    SameAt s (item A >>= f) (item B >>= f') := by
  refine SameAt.trans ?_ (.map (item_same hA h hm hn))
  have hahead : layoutLength s.rest < s.rest.length := by
    rw [hlayout]
    exact List.length_pos_iff.mpr hrest
  unfold SameAt
  cases hrun : item A s with
  | ok found t =>
    have hlt := length_item_lt hA hrun hahead
    rw [run_bind_ok hrun, run_bind_ok hrun]
    exact hf found t (by omega)
  | error e t => rw [run_bind_error hrun, run_bind_error hrun]

/-- A sequence reads an item and goes on behind it. -/
theorem sequence_same (hA : A.Forward) (h : A.Agree B m n) (hm : s.rest.length < m)
    (hn : s.rest.length ≤ n) (closer : Option Closer) :
    SameAt s (sequence A closer) (sequence B closer) := by
  refine .layout fun t ht hlayout => .rest ?_
  have hnext (hne : t.rest ≠ []) :
      SameAt t (sequence.next A closer) (sequence.next B closer) :=
    item_bind_same hA h (by omega) (by omega) hne hlayout fun _ u hu => .map (h.sequence _ u hu)
  cases hrest : t.rest with
  | nil => cases closer <;> exact .refl _
  | cons c after =>
    have hne : t.rest ≠ [] := by simp [hrest]
    cases closer with
    | none => exact hnext hne
    | some closer =>
      dsimp only
      split
      · exact .refl _
      · exact hnext hne

/-- So does a region, and it goes on behind a separator. -/
theorem region_same (hA : A.Forward) (h : A.Agree B m n) (hm : s.rest.length < m)
    (hn : s.rest.length ≤ n) : SameAt s (region A) (region B) := by
  refine .layout fun t ht hlayout => .rest ?_
  cases hrest : t.rest with
  | nil => exact .refl _
  | cons c after =>
    have hne : t.rest ≠ [] := by simp [hrest]
    have hnext : SameAt t (region.next A) (region.next B) :=
      item_bind_same hA h (by omega) (by omega) hne hlayout fun _ u hu => .map (h.region u hu)
    dsimp only
    split
    · exact .refl _
    split
    · split
      · exact .refl _
      split
      · exact .refl _
      split
      · refine .advance hne (by omega) fun u hu => .seq (forward_delimiterAfter _) fun _ v hv => ?_
        exact .map (h.region v (by omega))
      · exact hnext
    · exact hnext

/-- So do rows, and they go on behind the marks between cells and rows. -/
theorem rows_same (hA : A.Forward) (h : A.Agree B m n) (hm : s.rest.length < m)
    (hn : s.rest.length ≤ n) (row : Row) (cell : Cell) :
    SameAt s (rows A row cell) (rows B row cell) := by
  refine .layout fun t ht hlayout => .rest ?_
  cases hrest : t.rest with
  | nil => exact .refl _
  | cons c after =>
    have hne : t.rest ≠ [] := by simp [hrest]
    have hnext : SameAt t (rows.next A row cell) (rows.next B row cell) :=
      item_bind_same hA h (by omega) (by omega) hne hlayout fun _ u hu => h.rows _ _ u hu
    dsimp only
    split
    · exact .refl _
    split
    · exact .advance hne Nat.one_pos fun u hu => h.rows _ _ u (by omega)
    split
    · split
      · refine .advance hne (by omega) fun u hu => .rest ?_
        split
        · refine .seq (forward_through _) fun _ v hv => ?_
          exact .map (h.rows _ _ v (by omega))
        · exact .map (h.rows _ _ u (by omega))
      split
      · exact .refl _
      · exact hnext
    · exact hnext

/-- The rows of an environment are asked for behind its name. -/
theorem environment_same (h : A.Agree B m n) (hn : s.rest.length < n) :
    SameAt s (environment A) (environment B) := by
  refine .seq forward_environmentName fun found t ht => ?_
  split
  · exact .refl _
  · split
    · exact .refl _
    · refine .ite (fun _ => .seq forward_columnSpecification fun _ u hu => ?_) fun _ => ?_
      · exact .map (h.rows _ _ u (by omega))
      · exact .seq (.pure _) fun _ u hu => .map (h.rows _ _ u (by omega))

/-- The content of a region is asked for where the opening delimiter ends, or is missing. -/
theorem delimited_same (h : A.Agree B m n) (hn : s.rest.length < n) :
    SameAt s (delimited A) (delimited B) :=
  .seq (forward_delimiterAfter _) fun _ t ht => .map (h.region t (by omega))

/-- An argument of a command may begin where the name ends. -/
theorem command_same (hA : A.Forward) (h : A.Agree B m n) (hm : s.rest.length < m)
    (hn : s.rest.length < n) (start : Nat) (found : Command) :
    SameAt s (command A start found) (command B start found) := by
  have hone {t : Scan} (ht : t.rest.length ≤ s.rest.length) :
      SameAt t (argument A) (argument B) := argument_same h (by omega) (by omega)
  cases found with
  | symbol | identifier | operatorName | space | sized | namedOperator | limits | ignored | right
  | middle | endEnvironment => exact .refl _
  | decoration | boxed | phantom | cancel => exact .map (hone (Nat.le_refl _))
  | fraction | overset | underset =>
    exact .bind (hone (Nat.le_refl _)) (forward_argument hA) fun _ t ht => .map (hone ht)
  | sqrt =>
    refine .seq forward_skipLayout fun _ t ht => .rest ?_
    split
    · next hrest =>
      have hne : t.rest ≠ [] := by simp [hrest]
      refine .advance hne Nat.one_pos fun u hu => ?_
      refine .bind (h.sequence _ u (by omega)) (hA.sequence _) fun _ v hv => .map (hone (by omega))
    · exact .map (hone ht)
  | left => exact .map (delimited_same h hn)
  | beginEnvironment => exact .map (environment_same h hn)

/-- So may the argument of a style command. -/
theorem styled_same (h : A.Agree B m n) (hm : s.rest.length < m) (hn : s.rest.length ≤ n)
    (style : StyleCommand) : SameAt s (styled A style) (styled B style) := by
  cases style with
  | text => exact .refl _
  | formula =>
    refine .seq forward_skipLayout fun _ t ht => .rest ?_
    split
    · next hrest =>
      have hne : t.rest ≠ [] := by simp [hrest]
      exact .advance hne Nat.one_pos fun u hu => .map (h.sequence _ u (by omega))
    · exact .map (h.base t (by omega))

/-- A command takes its name before anything is asked for. -/
theorem commandBase_same (hA : A.Forward) (h : A.Agree B m n) (hm : s.rest.length ≤ m)
    (hn : s.rest.length ≤ n) (hrest : s.rest ≠ []) (after : List Char) :
    SameAt s (commandBase A after) (commandBase B after) := by
  unfold commandBase
  dsimp only
  split
  · exact .refl _
  split
  · split
    · exact .refl _
    · refine .offset (.advance hrest (by omega) fun t ht => ?_)
      exact command_same hA h (by omega) (by omega) _ _
  · exact .refl _
  · refine .advance hrest (by omega) fun t ht => ?_
    exact .map (styled_same h (by omega) (by omega) _)

/-- A base asks for nothing at its own place. -/
theorem base_same (hA : A.Forward) (h : A.Agree B m n) (hm : s.rest.length ≤ m)
    (hn : s.rest.length ≤ n) : SameAt s (base A) (base B) := by
  refine .seq forward_skipLayout fun _ t ht => .rest ?_
  cases hrest : t.rest with
  | nil => exact .refl _
  | cons c after =>
    have hne : t.rest ≠ [] := by simp [hrest]
    dsimp only
    split
    · exact .advance hne Nat.one_pos fun u hu => .map (h.sequence _ u (by omega))
    split
    · exact .refl _
    split
    · exact commandBase_same hA h (by omega) (by omega) hne _
    · exact .refl _

end Reading

/-! ## Depths that agree -/

namespace Nested

/-- Agreement does not depend on the order. -/
theorem Agree.symm {A B : Nested} {m n : Nat} (h : A.Agree B m n) : B.Agree A m n where
  base s hs := (h.base s hs).symm
  limits place s hs := (h.limits place s hs).symm
  sequence closer s hs := (h.sequence closer s hs).symm
  region s hs := (h.region s hs).symm
  rows row cell s hs := (h.rows row cell s hs).symm

/-- Rules agree if their nested parts do, on rests that are shorter by one character except for a
base at the start of a repetition. -/
theorem Agree.rules {A B : Nested} {m n : Nat} (hA : A.Forward)
    (small : ∀ s : Scan, s.rest.length < m → A.Agree B s.rest.length s.rest.length)
    (large : ∀ s : Scan, s.rest.length < n → A.Agree B (s.rest.length + 1) s.rest.length) :
    A.rules.Agree B.rules m n where
  base s hs := Reading.base_same hA (small s hs) (Nat.le_refl _) (Nat.le_refl _)
  limits place s hs := Reading.limits_same (small s hs) (Nat.le_refl _) place
  sequence closer s hs :=
    Reading.sequence_same hA (large s hs) (Nat.lt_succ_self _) (Nat.le_refl _) closer
  region s hs := Reading.region_same hA (large s hs) (Nat.lt_succ_self _) (Nat.le_refl _)
  rows row cell s hs :=
    Reading.rows_same hA (large s hs) (Nat.lt_succ_self _) (Nat.le_refl _) row cell

/-- Every two units of depth are enough for one more character, and the first of them is enough for
a base. -/
theorem agree_ofDepth {d d' m n : Nat} (hm : 2 * m ≤ d + 1) (hn : 2 * n ≤ d)
    (hm' : 2 * m ≤ d' + 1) (hn' : 2 * n ≤ d') : (ofDepth d).Agree (ofDepth d') m n := by
  induction d generalizing d' m n with
  | zero => constructor <;> intros <;> omega
  | succ d ih =>
    cases d' with
    | zero => constructor <;> intros <;> omega
    | succ d' =>
      have small (s : Scan) (hs : s.rest.length < m) :
          (ofDepth d).Agree (ofDepth d') s.rest.length s.rest.length :=
        ih (by omega) (by omega) (by omega) (by omega)
      have large (s : Scan) (hs : s.rest.length < n) :
          (ofDepth d).Agree (ofDepth d') (s.rest.length + 1) s.rest.length :=
        ih (by omega) (by omega) (by omega) (by omega)
      exact Agree.rules (forward_ofDepth d) small large

/-- Nested parts read with as much depth as the rest of the formula asks for. -/
def unbounded : Nested where
  base := Reading.alone (·.base)
  limits place := Reading.alone (·.limits place)
  sequence closer := Reading.alone (·.sequence closer)
  region := Reading.alone (·.region)
  rows row cell := Reading.alone (·.rows row cell)

/-- A rule that is read without a bound is read with the depth that the rest asks for. -/
theorem run_alone {α : Type} (rule : Nested → Reading α) (s : Scan) :
    Reading.alone rule s = rule (forRest s.rest) s := rfl

/-- A sequence on its own is one without a bound. -/
theorem alone_sequence (closer : Option Closer) :
    Reading.alone (·.sequence closer) = unbounded.sequence closer := rfl

/-- A depth that is enough reads what any larger depth reads. -/
theorem agree_unbounded {d m n : Nat} (hm : 2 * m ≤ d + 1) (hn : 2 * n ≤ d) :
    unbounded.Agree (ofDepth d) m n := by
  have enough {s : Scan} (h : 2 * (s.rest.length + 1) ≤ d + 1) :
      (forRest s.rest).Agree (ofDepth d) (s.rest.length + 1) s.rest.length :=
    agree_ofDepth (by omega) (by omega) h (by omega)
  have enough' {s : Scan} (h : 2 * (s.rest.length + 1) ≤ d) :
      (forRest s.rest).Agree (ofDepth d) (s.rest.length + 1) (s.rest.length + 1) :=
    agree_ofDepth (by omega) (by omega) (by omega) h
  have hlt (s : Scan) := Nat.lt_succ_self s.rest.length
  exact {
    base s hs := (run_alone (·.base) s).trans ((enough (by omega)).base s (hlt s))
    limits place s hs :=
      (run_alone (·.limits place) s).trans ((enough (by omega)).limits place s (hlt s))
    sequence closer s hs :=
      (run_alone (·.sequence closer) s).trans ((enough' (by omega)).sequence closer s (hlt s))
    region s hs := (run_alone (·.region) s).trans ((enough' (by omega)).region s (hlt s))
    rows row cell s hs :=
      (run_alone (·.rows row cell) s).trans ((enough' (by omega)).rows row cell s (hlt s)) }

/-- A rule on its own goes forward if it does so at every depth. -/
theorem forward_alone {α : Type} (rule : Nested → Reading α)
    (h : ∀ depth, (rule (ofDepth depth)).Forward) : (Reading.alone rule).Forward :=
  .bind .rest fun _ => h _

/-- Reading without a bound goes forward. -/
theorem forward_unbounded : unbounded.Forward := by
  constructor
  · exact forward_alone (·.base) fun depth => (forward_ofDepth depth).base
  · intro place
    exact forward_alone (·.limits place) fun depth => (forward_ofDepth depth).limits place
  · intro closer
    exact forward_alone (·.sequence closer) fun depth => (forward_ofDepth depth).sequence closer
  · exact forward_alone (·.region) fun depth => (forward_ofDepth depth).region
  · intro row cell
    exact forward_alone (·.rows row cell) fun depth => (forward_ofDepth depth).rows row cell
  · intro s t b h
    have hrun : (forRest s.rest).base s = .ok (some b) t := h
    exact (forward_ofDepth _).found hrun

/-! ## The fixed point -/

/-- What is nested in a rest may be read without a bound as well. -/
theorem agree_fixed (s : Scan) :
    (ofDepth (2 * s.rest.length + 1)).Agree unbounded (s.rest.length + 1) s.rest.length :=
  (agree_unbounded (by omega) (by omega)).symm

/-- **The rules need no bound.**  A base is read by the rule for bases, over nested parts without
a bound. -/
theorem base_unbounded : unbounded.base = Reading.base unbounded := by
  funext s
  calc unbounded.base s
      = (forRest s.rest).base s := run_alone (·.base) s
    _ = Reading.base (ofDepth (2 * s.rest.length + 1)) s := rfl
    _ = Reading.base unbounded s :=
        Reading.base_same (forward_ofDepth _) (agree_fixed s) (by omega) (by omega)

/-- Without a bound, the commands that move scripts are a rule over themselves. -/
theorem limits_unbounded (place : Limits) :
    unbounded.limits place = Reading.limits unbounded place := by
  funext s
  calc unbounded.limits place s
      = (forRest s.rest).limits place s := run_alone (·.limits place) s
    _ = Reading.limits (ofDepth (2 * s.rest.length + 1)) place s := rfl
    _ = Reading.limits unbounded place s :=
        Reading.limits_same (agree_fixed s) (by omega) place

/-- So are sequences. -/
theorem sequence_unbounded (closer : Option Closer) :
    unbounded.sequence closer = Reading.sequence unbounded closer := by
  funext s
  calc unbounded.sequence closer s
      = (forRest s.rest).sequence closer s := run_alone (·.sequence closer) s
    _ = Reading.sequence (ofDepth (2 * s.rest.length + 1)) closer s := rfl
    _ = Reading.sequence unbounded closer s :=
        Reading.sequence_same (forward_ofDepth _) (agree_fixed s) (by omega) (by omega) closer

/-- So are regions. -/
theorem region_unbounded : unbounded.region = Reading.region unbounded := by
  funext s
  calc unbounded.region s
      = (forRest s.rest).region s := run_alone (·.region) s
    _ = Reading.region (ofDepth (2 * s.rest.length + 1)) s := rfl
    _ = Reading.region unbounded s :=
        Reading.region_same (forward_ofDepth _) (agree_fixed s) (by omega) (by omega)

/-- So are the rows of an array. -/
theorem rows_unbounded (row : Row) (cell : Cell) :
    unbounded.rows row cell = Reading.rows unbounded row cell := by
  funext s
  calc unbounded.rows row cell s
      = (forRest s.rest).rows row cell s := run_alone (·.rows row cell) s
    _ = Reading.rows (ofDepth (2 * s.rest.length + 1)) row cell s := rfl
    _ = Reading.rows unbounded row cell s :=
        Reading.rows_same (forward_ofDepth _) (agree_fixed s) (by omega) (by omega) row cell

end Nested

/-- A formula is read as the sequence that the rules read without a bound. -/
theorem read_of_sequence {text : String} {members : List Expr} {t : Scan}
    (h : Nested.unbounded.sequence none (Scan.start text) = .ok members t) :
    read text = ⟨.ok (settleOperators members), t.notes.reverse⟩ := by
  have hrun : Reading.alone (·.sequence none) (Scan.start text) = .ok members t := h
  rw [read, hrun]

-- From here on the equations above are all that is used of it.
attribute [irreducible] Nested.unbounded

end OfficeMath
