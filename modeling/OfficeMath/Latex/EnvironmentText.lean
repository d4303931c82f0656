import OfficeMath.Latex.Environment
import OfficeMath.Latex.Reading

/-!
# The text around an environment

The parts of an environment that are no formula: its name in braces after `\begin` and `\end`, the
column specification of an array, and the whole body of an environment that is not supported,
which is passed over up to its own end.
-/

namespace OfficeMath

/-- The rest of a column specification: the characters outside of inner braces up to the brace
that closes it, and the number of characters up to and including this brace. -/
def specificationAhead? : (depth : Nat) → List Char → Option (List Char × Nat)
  | _, [] => none
  | depth, c :: rest =>
    if c = '{' then (specificationAhead? (depth + 1) rest).map fun (kept, n) => (kept, n + 1)
    else if c = '}' then
      match depth with
      | 0 => some ([], 1)
      | depth + 1 => (specificationAhead? depth rest).map fun (kept, n) => (kept, n + 1)
    else
      (specificationAhead? depth rest).map fun (kept, n) =>
        (if depth = 0 then c :: kept else kept, n + 1)

namespace Reading

/-- Take the name of an environment in braces.  Blanks around the name do not count. -/
def environmentName? : Reading (Option String) := do
  skipLayout
  match ← rest with
  | '{' :: _ =>
    advance 1
    match ← through? '}' with
    | some name => return some (String.ofList (trimBlank name))
    | none => unclosed .brace
  | _ => return none

/-- Take the column specification of an array. -/
def columnSpecification : Reading (List Alignment) := do
  skipLayout
  match ← rest with
  | '{' :: after =>
    advance 1
    match specificationAhead? 0 after with
    | some (kept, length) =>
      advance length
      return columnAlignments kept
    | none =>
      advance after.length
      unclosed .brace
  | _ => return []

/-- Take the body of an unsupported environment and the end of it.  `depth` environments of the
same name are open inside it.  Each round takes at least one character, so that `bound` rounds
are enough if there are no more characters ahead. -/
def skipEnvironmentFrom (name : String) : (bound depth : Nat) → Reading Unit
  | 0, _ => note (.openEnvironment name)
  | bound + 1, depth => do
    match ← rest with
    | [] => note (.openEnvironment name)
    | c :: after =>
      advance 1
      if c = '\\' then
        let command := commandName after
        advance command.length
        if command = "begin".toList then
          if (← environmentName?) = some name then skipEnvironmentFrom name bound (depth + 1)
          else skipEnvironmentFrom name bound depth
        else if command = "end".toList then
          if (← environmentName?) = some name then
            match depth with
            | 0 => return ()
            | depth + 1 => skipEnvironmentFrom name bound depth
          else skipEnvironmentFrom name bound depth
        else skipEnvironmentFrom name bound depth
      else skipEnvironmentFrom name bound depth

/-- Take the body of an unsupported environment and the end of it. -/
def skipEnvironment (name : String) : Reading Unit := do
  skipEnvironmentFrom name (← rest).length 0

end Reading

end OfficeMath
