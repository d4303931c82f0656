import Mathlib.Logic.Relation
import OfficeMath.Proofs.Latex.Answers
import OfficeMath.Proofs.Latex.Approach
import OfficeMath.Proofs.Latex.Rounds

/-!
# No rule comes back without having moved on

Whether one rule calls another at some place can be seen from outside: it does if it matters what
the other one answers there (`Calls`).  This is said of every two rules of the grammar, of those
that are nested parts and of those that are not.

A rule calls others from further on, with a few exceptions: an item asks for a base at its own
place, an argument may be a base, and what comes after `\left`, `\begin` or the name of a style may
begin at once.  The exceptions have an order (`Rule.rank`), so that a chain of calls that stays in
one place is short and does not come back to a rule that it has been at.  This is what
`reading_moves_on` says, beside what is said of rounds in loops.
-/

namespace OfficeMath

open Answers (grammar rules_grammar)
open Nested (unbounded)

/-- The rules by name, whatever their arguments. -/
inductive Routine where
  | base | commandBase | command | styled | delimited | environment | argument | superscript
  | limits | scripts | item | sequence | region | rows
  deriving DecidableEq

/-- The name of a rule. -/
def Rule.routine : Rule → Routine
  | .base => .base
  | .commandBase => .commandBase
  | .command _ _ => .command
  | .styled _ => .styled
  | .delimited => .delimited
  | .environment => .environment
  | .argument => .argument
  | .superscript => .superscript
  | .limits _ => .limits
  | .scripts _ => .scripts
  | .item => .item
  | .sequence _ => .sequence
  | .region => .region
  | .rows _ _ => .rows

/-- The rank of a rule does not depend on its arguments. -/
theorem Rule.rank_eq_of_routine_eq {rule rule' : Rule} (h : rule.routine = rule'.routine) :
    rule.rank = rule'.rank := by
  cases rule <;> cases rule' <;> first | rfl | cases h

/-- A rule at a place calls another one at another place: it comes out differently if nothing but
the answer there is different. -/
def Calls (caller callee : Rule × Scan) : Prop :=
  ∃ other : Answers,
    (∀ (rule : Rule) (s : Scan), (rule, s) ≠ callee → other rule s = grammar rule s) ∧
      other.rules caller.1 caller.2 ≠ grammar.rules caller.1 caller.2

/-- **Every call has a smaller number** than the call that it is made for. -/
theorem Calls.measure_lt {caller callee : Rule × Scan} (h : Calls caller callee) :
    callMeasure callee < callMeasure caller := by
  obtain ⟨other, hother, hdiffers⟩ := h
  refine Decidable.byContradiction fun hstays => hdiffers ?_
  have hsame : grammar.SameBelow other (callMeasure caller) := by
    intro rule s hless
    refine (hother rule s ?_).symm
    rintro rfl
    exact hstays hless
  exact (Answers.rules_same hsame).symm

/-- **A rule calls from further on**, or it calls a rule of lower rank. -/
theorem Calls.moves {caller callee : Rule × Scan} (h : Calls caller callee) :
    callee.2.rest.length < caller.2.rest.length ∨
      callee.2.rest.length = caller.2.rest.length ∧ callee.1.rank < caller.1.rank := by
  have hless := h.measure_lt
  have hrank := caller.1.rank_le
  unfold callMeasure at hless
  omega

/-- Chains of calls are finite. -/
theorem wellFounded_calls : WellFounded (flip Calls) :=
  Subrelation.wf (fun h => h.measure_lt) (measure callMeasure).wf

/-- A chain of calls comes back to a rule only from further on. -/
theorem length_lt_of_calls {caller callee : Rule × Scan} (h : Relation.TransGen Calls caller callee)
    (hsame : callee.1.routine = caller.1.routine) :
    callee.2.rest.length < caller.2.rest.length := by
  have hmeasure {last : Rule × Scan} (h : Relation.TransGen Calls caller last) :
      callMeasure last < callMeasure caller := by
    induction h with
    | single hcall => exact hcall.measure_lt
    | tail _ hcall ih => exact Nat.lt_trans hcall.measure_lt ih
  have hrank := Rule.rank_eq_of_routine_eq hsame
  have hless := hmeasure h
  unfold callMeasure at hless
  omega

/-- A rule that begins by asking for another one, and succeeds, calls it; and it gets an answer. -/
theorem calls_of_run {rule callee : Rule} {s t : Scan}
    (hbegins : ∃ go : callee.Result → Reading rule.Result,
      ∀ ask : Answers, ask.rules rule s = (ask callee >>= go) t)
    (hok : ∃ found u, grammar rule s = .ok found u) :
    Calls (rule, s) (callee, t) ∧ ∃ found u, grammar callee t = .ok found u := by
  classical
  obtain ⟨go, hrun⟩ := hbegins
  obtain ⟨found, u, hfound⟩ := hok
  rw [← rules_grammar] at hfound
  let other : Answers := fun asked v =>
    if asked = callee ∧ v = t then Reading.beyond v else grammar asked v
  have hfails : other.rules rule s = Reading.beyond t := by
    have hasked : other callee t = Reading.beyond t := if_pos ⟨rfl, rfl⟩
    rw [hrun other]
    exact Reading.run_bind_error hasked
  constructor
  · refine ⟨other, fun asked v hne => if_neg ?_, fun hsame => ?_⟩
    · rintro ⟨rfl, rfl⟩
      exact hne rfl
    · dsimp only at hsame
      rw [hfails, hfound] at hsame
      cases hsame
  · rw [hrun grammar] at hfound
    obtain ⟨answer, v, hanswer, -⟩ := Reading.bind_eq_ok.mp hfound
    exact ⟨answer, v, hanswer⟩

/-- An item that is read before the end of the formula ends further on than the layout before it. -/
theorem offset_item_lt {s t : Scan} {found : Option Expr}
    (hahead : (s.advance (layoutLength s.rest)).rest ≠ [])
    (h : Reading.item unbounded s = .ok found t) :
    (s.advance (layoutLength s.rest)).offset < t.offset := by
  let u := s.advance (layoutLength s.rest)
  have hlayout : layoutLength u.rest = 0 := layoutLength_drop s.rest
  -- the item begins by taking the layout, so it may as well begin behind it
  have hrun : Reading.item unbounded u = .ok found t := by
    unfold Reading.item at h ⊢
    rw [Reading.run_bind_ok (Reading.run_skipLayout s)] at h
    rw [Reading.run_bind_ok (Reading.run_skipLayout u), hlayout, Scan.advance_zero]
    exact h
  have hlt : t.rest.length < u.rest.length := by
    refine Reading.length_item_lt Nested.forward_unbounded hrun ?_
    rw [hlayout]
    exact List.length_pos_iff.mpr hahead
  exact (Reading.forward_item_unbounded.leads hrun).offset_lt hlt

/-- **Reading moves on.**  An item that is read before the end of the formula takes at least a
character behind the layout before it.  So does every round of a loop that is followed by another
round: through a sequence, a delimited region, the rows of an array, a body that is passed over,
commands that move scripts, scripts, and a text.  A chain of calls is finite, and it comes back to a
rule only with less of the formula ahead.  So a formula has been read before the rules have been
nested more than twice as deep as it is long, whatever may stand there. -/
theorem reading_moves_on :
    (∀ (s : Scan) (found : Option Expr) (t : Scan),
      (s.advance (layoutLength s.rest)).rest ≠ [] → Reading.item unbounded s = .ok found t →
        (s.advance (layoutLength s.rest)).offset < t.offset) ∧
    ((∀ closer, Reading.MovesOn (Reading.sequenceRound closer) (Reading.sequenceLoop closer)) ∧
      Reading.MovesOn Reading.regionRound Reading.regionLoop ∧
      Reading.MovesOn Reading.rowsRound Reading.rowsLoop ∧
      (∀ name, Reading.MovesOn (Reading.skipRound name) (Reading.skipLoop name)) ∧
      Reading.MovesOn Reading.limitsRound unbounded.limits ∧
      Reading.MovesOn Reading.scriptsRound (Reading.scriptsFrom unbounded 3) ∧
      Reading.MovesOn Reading.textRound Reading.textLoop) ∧
    (WellFounded (flip Calls) ∧
      (∀ caller callee, Calls caller callee → callee.2.rest.length < caller.2.rest.length ∨
        callee.2.rest.length = caller.2.rest.length ∧ callee.1.rank < caller.1.rank) ∧
      ∀ caller callee, Relation.TransGen Calls caller callee →
        callee.1.routine = caller.1.routine →
          callee.2.rest.length < caller.2.rest.length) ∧
    ∀ (text : String) (bottom : Nested) (depth : Nat), 2 * text.toList.length + 2 ≤ depth →
      Reading.alone (·.sequence none) (Scan.start text)
        = (bottom.tower depth).sequence none (Scan.start text) := by
  refine ⟨fun s found t hahead h => offset_item_lt hahead h, ?_, ?_, ?_⟩
  · exact ⟨Reading.movesOn_sequence, Reading.movesOn_region, Reading.movesOn_rows,
      Reading.movesOn_skip, Reading.movesOn_limits, Reading.movesOn_scripts, Reading.movesOn_text⟩
  · exact ⟨wellFounded_calls, fun _ _ h => h.moves, fun _ _ h hsame => length_lt_of_calls h hsame⟩
  · intro text bottom depth hdepth
    exact sequence_eq_tower bottom none hdepth

/-- An accent over a tie.  The argument of the accent is read by the rule that read the accent, after
three other rules have been called, and it begins behind the name. -/
theorem reading_moves_on_hat :
    let s : Scan := Scan.start "\\hat~"
    let t : Scan := s.advance 4
    (∃ found u, Reading.item unbounded s = .ok found u ∧
      (s.advance (layoutLength s.rest)).offset < u.offset) ∧
    (Relation.TransGen Calls (.argument, s) (.argument, t) ∧
      t.rest.length < s.rest.length) ∧
    Reading.alone (·.sequence none) s = (Nested.failing.tower 40).sequence none s := by
  intro s t
  have hagree : unbounded.Agree (Nested.ofDepth 40) 6 6 :=
    Nested.agree_unbounded (by decide) (by decide)
  have hitem : Reading.item unbounded s = Reading.item (Nested.ofDepth 40) s :=
    Reading.item_same Nested.forward_unbounded hagree (by decide) (by decide)
  have hargument : Reading.argument unbounded s = Reading.argument (Nested.ofDepth 40) s :=
    Reading.argument_same hagree (by decide) (by decide)
  have hsome : ((Reading.item (Nested.ofDepth 40)).run' s).isSome ∧
      ((Reading.argument (Nested.ofDepth 40)).run' s).isSome := by decide +kernel
  have hread : ∃ found u, grammar .argument s = .ok found u := by
    obtain ⟨found, u, hrun⟩ := Reading.exists_ok_of_isSome hsome.2
    exact ⟨found, u, hargument.trans hrun⟩
  let hat : Rule := .command 0 (.decoration .accent "\u0302" .above)
  have hbase : ∃ go, ∀ ask : Answers, ask.rules .argument s = (ask .base >>= go) s :=
    ⟨_, fun _ => rfl⟩
  have hcommandBase : ∃ go, ∀ ask : Answers, ask.rules .base s = (ask .commandBase >>= go) s :=
    ⟨pure, fun _ => by rw [bind_pure]; rfl⟩
  have hcommand : ∃ go, ∀ ask : Answers, ask.rules .commandBase s = (ask hat >>= go) t :=
    ⟨pure, fun _ => by rw [bind_pure]; rfl⟩
  have hback : ∃ go, ∀ ask : Answers, ask.rules hat t = (ask .argument >>= go) t :=
    ⟨_, fun _ => rfl⟩
  obtain ⟨hfirst, hread⟩ := calls_of_run hbase hread
  obtain ⟨hsecond, hread⟩ := calls_of_run hcommandBase hread
  obtain ⟨hthird, hread⟩ := calls_of_run hcommand hread
  obtain ⟨hfourth, -⟩ := calls_of_run hback hread
  have hchain : Relation.TransGen Calls (.argument, s) (.argument, t) :=
    (((Relation.TransGen.single hfirst).tail hsecond).tail hthird).tail hfourth
  have hahead : (s.advance (layoutLength s.rest)).rest ≠ [] := by decide
  obtain ⟨found, u, hrun⟩ := Reading.exists_ok_of_isSome hsome.1
  obtain ⟨hmoves, -, ⟨-, -, hless⟩, hends⟩ := reading_moves_on
  refine ⟨⟨found, u, hitem.trans hrun, ?_⟩, ⟨hchain, hless _ _ hchain rfl⟩, ?_⟩
  · exact hmoves s found u hahead (hitem.trans hrun)
  · exact hends _ Nested.failing 40 (by decide)

end OfficeMath
