import OfficeMath.SettingsFile

/-!
# The command line

The program `mathomml` converts one formula.  Its options say where the formula and the settings
come from and how the formula is displayed:

* `-f`, `--formula` with the formula, which is read from the standard input otherwise;
* `-i`, `--inline` or `-b`, `--block`, the latter being the default;
* `--config` with a settings file;
* `-v`, `--verbose` to see the notes as well.

Short options can be joined, and the value of a short option can follow it directly or after an
equals sign; a long option can have its value after an equals sign.  A value in an argument of its
own must not look like an option.  Every option can be given once, and there are no arguments but
options.

`Options.parse` reads the arguments, and `runProgram` does the work, given what the outside world
answers.  How the run ends decides about the exit code and what is printed (`Ending`).
-/

namespace OfficeMath

/-- What the arguments ask for. -/
structure Options where
  formula : Option String := none
  inline : Bool := false
  block : Bool := false
  config : Option String := none
  verbose : Bool := false
  deriving DecidableEq, Repr

/-- The options of the program. -/
inductive Flag where
  | formula
  | inline
  | block
  | config
  | verbose
  | help
  | version
  deriving DecidableEq, Repr

/-- Why the arguments are not carried out. -/
inductive Refusal where
  /-- The arguments do not make sense. -/
  | badUsage
  /-- The arguments ask for the help text. -/
  | help
  /-- The arguments ask for the version. -/
  | version
  deriving DecidableEq, Repr

namespace Flag

/-- Whether an option has a value. -/
def hasValue : Flag → Bool
  | .formula | .config => true
  | _ => false

/-- The option of a long name. -/
def ofLong? : String → Option Flag
  | "formula" => some .formula
  | "inline" => some .inline
  | "block" => some .block
  | "config" => some .config
  | "verbose" => some .verbose
  | "help" => some .help
  | "version" => some .version
  | _ => none

/-- The option of a letter. -/
def ofShort? : Char → Option Flag
  | 'f' => some .formula
  | 'i' => some .inline
  | 'b' => some .block
  | 'v' => some .verbose
  | 'h' => some .help
  | 'V' => some .version
  | _ => none

end Flag

namespace Options

/-- Take an option without a value into account. -/
def setFlag (options : Options) : Flag → Except Refusal Options
  | .inline => if options.inline then .error .badUsage else .ok { options with inline := true }
  | .block => if options.block then .error .badUsage else .ok { options with block := true }
  | .verbose => if options.verbose then .error .badUsage else .ok { options with verbose := true }
  | .help => .error .help
  | .version => .error .version
  | .formula | .config => .error .badUsage

/-- Take an option with its value into account.  The name of a settings file is not empty. -/
def setValue (options : Options) (value : String) : Flag → Except Refusal Options
  | .formula =>
    if options.formula.isSome then .error .badUsage
    else .ok { options with formula := some value }
  | .config =>
    if options.config.isSome || value.isEmpty then .error .badUsage
    else .ok { options with config := some value }
  | _ => .error .badUsage

/-- Take joined short options into account.  An option that waits for its value is returned. -/
def setShorts (options : Options) : List Char → Except Refusal (Options × Option Flag)
  | [] => .ok (options, none)
  | letter :: rest =>
    match Flag.ofShort? letter with
    | none => .error .badUsage
    | some flag =>
      if flag.hasValue then
        match rest with
        | [] => .ok (options, some flag)
        | '=' :: value => do return (← options.setValue (String.ofList value) flag, none)
        | value => do return (← options.setValue (String.ofList value) flag, none)
      else do
        (← options.setFlag flag).setShorts rest

/-- Take a long option into account, given the text after its two dashes. -/
def setLong (options : Options) (text : List Char) : Except Refusal (Options × Option Flag) :=
  let name := text.takeWhile (· ≠ '=')
  let value := (text.drop name.length).tail?
  match Flag.ofLong? (String.ofList name), value with
  | none, _ => .error .badUsage
  | some flag, none =>
    if flag.hasValue then .ok (options, some flag) else (options.setFlag flag).map (·, none)
  | some flag, some value => (options.setValue (String.ofList value) flag).map (·, none)

/-- Read arguments, of which the one before may wait for its value. -/
def parseFrom (options : Options) : (waiting : Option Flag) → List String →
    Except Refusal Options
  | none, [] => .ok options
  | some _, [] => .error .badUsage
  | waiting, argument :: rest =>
    match waiting, argument.toList with
    | some _, '-' :: _ :: _ => .error .badUsage
    | some flag, _ => do (← options.setValue argument flag).parseFrom none rest
    | none, ['-', '-'] => if rest.isEmpty then .ok options else .error .badUsage
    | none, '-' :: '-' :: text => do
      let (options, waiting) ← options.setLong text
      options.parseFrom waiting rest
    | none, '-' :: letter :: letters => do
      let (options, waiting) ← options.setShorts (letter :: letters)
      options.parseFrom waiting rest
    | none, _ => .error .badUsage

/-- Read the arguments of the program. -/
def parse (arguments : List String) : Except Refusal Options := do
  let options ← parseFrom {} none arguments
  if options.inline && options.block then .error .badUsage else .ok options

/-- How the formula is displayed. -/
def display (options : Options) : Display := if options.inline then .inline else .block

end Options

/-- How a run of the program ends. -/
inductive Ending where
  /-- The markup of the formula, and the notes made on the way. -/
  | converted (markup : String) (notes : List Note)
  | unclosed (error : Unclosed)
  | badSettings (file : String) (error : SettingsError)
  /-- The formula could not be read as text. -/
  | badInput
  | refused (refusal : Refusal)

namespace Ending

/-- The exit code. -/
def exitCode : Ending → Nat
  | .converted _ _ => 0
  | .unclosed _ => 2
  | .badSettings _ _ => 1
  | .badInput => 1
  | .refused .badUsage => 2
  | .refused .help => 0
  | .refused .version => 0

/-- What is printed as the result. -/
def output : Ending → String
  | .converted markup _ => markup ++ "\n"
  | .refused .help =>
    "Converts a LaTeX formula to Office Math markup\n\n" ++
    "Usage: mathomml [OPTIONS]\n\n" ++
    "  -f, --formula <FORMULA>  the formula; read from the standard input if missing\n" ++
    "  -i, --inline             for running text\n" ++
    "  -b, --block              for a line of its own (the default)\n" ++
    "      --config <FILE>      settings in a TOML file\n" ++
    "  -v, --verbose            report what is skipped\n" ++
    "  -h, --help               this text\n" ++
    "  -V, --version            the version\n"
  | .refused .version => "mathomml 0.1.0\n"
  | _ => ""

end Ending

/-- Run the program.  `file?` gives the bytes of a file that can be read, and `input` the bytes of
the standard input, which are asked for only if no option gives the formula.  The settings are
read first. -/
def runProgram (arguments : List String) (file? : String → Option ByteArray)
    (input : Unit → ByteArray) : Ending :=
  match Options.parse arguments with
  | .error refusal => .refused refusal
  | .ok options =>
    let settings : Except Ending Settings := match options.config with
      | none => .ok {}
      | some file =>
        match file? file with
        | none => .error (.badSettings file .unreadable)
        | some bytes => (Settings.ofFile bytes).mapError (.badSettings file)
    match settings with
    | .error ending => ending
    | .ok settings =>
      let formula? := match options.formula with
        | some formula => some formula
        | none => String.fromUTF8? (input ())
      match formula? with
      | none => .badInput
      | some formula =>
        match settings.convert formula options.display with
        | .error error => .unclosed error
        | .ok markup =>
          .converted markup (if options.verbose then (read formula).notes else [])

end OfficeMath
