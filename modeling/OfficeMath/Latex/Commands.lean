import OfficeMath.Latex.Symbols

/-!
# Commands

The vocabulary of backslash commands.  `commands` says for every command name what the command
stands for: a leaf of the formula, a construction with arguments, or nothing.  A second table,
`styleCommands`, holds the commands that set their argument in another typeface, either as a
formula or as plain text.  `Meaning.ofName?` looks a name up: first among the commands, then
among the delimiters, then among the style commands.
-/

namespace OfficeMath

/-- The side of its base on which a mark is set. -/
inductive Side where
  | above
  | below
  deriving DecidableEq, Repr

/-- What a command stands for. -/
inductive Command where
  | symbol (kind : SymbolClass) (glyph : String)
  | identifier (text : String)
  /-- An upright operator name, and where its scripts go. -/
  | operatorName (name : String) (limits : Limits)
  | space (width : Float32)
  /-- A delimiter at a multiple of its natural size. -/
  | sized (factor : Float32)
  /-- A mark above or below the argument. -/
  | decoration (kind : SymbolClass) (mark : String) (side : Side)
  | fraction (style : FractionStyle)
  | sqrt
  | left
  | right
  | middle
  | beginEnvironment
  | endEnvironment
  | overset
  | underset
  | boxed
  | phantom
  | cancel (stroke : Stroke)
  /-- An operator name spelled out in the argument, and where its scripts go. -/
  | namedOperator (limits : Limits)
  /-- A change of the place of the scripts that follow. -/
  | limits (limits : Limits)
  /-- A command that is accepted and has no effect. -/
  | ignored
  deriving DecidableEq

/-- What a style command does with its argument. -/
inductive StyleCommand where
  /-- The argument is a formula, set in the style. -/
  | formula (style : TextStyle)
  /-- The argument is text, taken as it stands. -/
  | text (style : TextStyle)
  deriving DecidableEq, Repr

/-- The Greek letters, which are identifiers. -/
def greekLetters : List (String × Command) := [
  ("alpha", .identifier "α"), ("beta", .identifier "β"), ("gamma", .identifier "γ"),
  ("delta", .identifier "δ"), ("epsilon", .identifier "ϵ"), ("varepsilon", .identifier "ε"),
  ("zeta", .identifier "ζ"), ("eta", .identifier "η"), ("theta", .identifier "θ"),
  ("vartheta", .identifier "ϑ"), ("iota", .identifier "ι"), ("kappa", .identifier "κ"),
  ("lambda", .identifier "λ"), ("mu", .identifier "μ"), ("nu", .identifier "ν"),
  ("xi", .identifier "ξ"), ("pi", .identifier "π"), ("varpi", .identifier "ϖ"),
  ("rho", .identifier "ρ"), ("varrho", .identifier "ϱ"), ("sigma", .identifier "σ"),
  ("varsigma", .identifier "ς"), ("tau", .identifier "τ"), ("upsilon", .identifier "υ"),
  ("phi", .identifier "ϕ"), ("varphi", .identifier "φ"), ("chi", .identifier "χ"),
  ("psi", .identifier "ψ"), ("omega", .identifier "ω"), ("Gamma", .identifier "Γ"),
  ("Delta", .identifier "Δ"), ("Theta", .identifier "Θ"), ("Lambda", .identifier "Λ"),
  ("Xi", .identifier "Ξ"), ("Pi", .identifier "Π"), ("Sigma", .identifier "Σ"),
  ("Upsilon", .identifier "Υ"), ("Phi", .identifier "Φ"), ("Psi", .identifier "Ψ"),
  ("Omega", .identifier "Ω")]

/-- Symbols of the ordinary class, with the radical sign and the colon among them. -/
def ordinarySymbols : List (String × Command) := [
  ("infty", .symbol .ordinary "∞"), ("partial", .symbol .ordinary "∂"),
  ("nabla", .symbol .ordinary "∇"), ("forall", .symbol .ordinary "∀"),
  ("exists", .symbol .ordinary "∃"), ("nexists", .symbol .ordinary "∄"),
  ("emptyset", .symbol .ordinary "∅"), ("varnothing", .symbol .ordinary "∅"),
  ("hbar", .symbol .ordinary "ℏ"), ("ell", .symbol .ordinary "ℓ"), ("Re", .symbol .ordinary "ℜ"),
  ("Im", .symbol .ordinary "ℑ"), ("aleph", .symbol .ordinary "ℵ"), ("wp", .symbol .ordinary "℘"),
  ("imath", .symbol .ordinary "ı"), ("jmath", .symbol .ordinary "ȷ"),
  ("prime", .symbol .ordinary "′"), ("angle", .symbol .ordinary "∠"),
  ("triangle", .symbol .ordinary "△"), ("neg", .symbol .ordinary "¬"),
  ("lnot", .symbol .ordinary "¬"), ("top", .symbol .ordinary "⊤"), ("bot", .symbol .ordinary "⊥"),
  ("ldots", .symbol .ordinary "…"), ("dots", .symbol .ordinary "…"),
  ("cdots", .symbol .ordinary "⋯"), ("vdots", .symbol .ordinary "⋮"),
  ("ddots", .symbol .ordinary "⋱"), ("backslash", .symbol .ordinary "\\"),
  ("clubsuit", .symbol .ordinary "♣"), ("diamondsuit", .symbol .ordinary "♢"),
  ("heartsuit", .symbol .ordinary "♡"), ("spadesuit", .symbol .ordinary "♠"),
  ("flat", .symbol .ordinary "♭"), ("natural", .symbol .ordinary "♮"),
  ("sharp", .symbol .ordinary "♯"), ("surd", .symbol .radical "√"), ("%", .symbol .ordinary "%"),
  ("#", .symbol .ordinary "#"), ("&", .symbol .ordinary "&"), ("$", .symbol .ordinary "$"),
  ("_", .symbol .ordinary "_"), ("colon", .symbol .punctuation ":")]

/-- Large operators: sums, products, integrals and their kin. -/
def largeOperators : List (String × Command) := [
  ("sum", .symbol .operator "∑"), ("prod", .symbol .operator "∏"),
  ("coprod", .symbol .operator "∐"), ("int", .symbol .operator "∫"),
  ("iint", .symbol .operator "∬"), ("iiint", .symbol .operator "∭"),
  ("iiiint", .symbol .operator "⨌"), ("oint", .symbol .operator "∮"),
  ("oiint", .symbol .operator "∯"), ("oiiint", .symbol .operator "∰"),
  ("bigcup", .symbol .operator "⋃"), ("bigcap", .symbol .operator "⋂"),
  ("bigvee", .symbol .operator "⋁"), ("bigwedge", .symbol .operator "⋀"),
  ("bigoplus", .symbol .operator "⨁"), ("bigotimes", .symbol .operator "⨂"),
  ("bigodot", .symbol .operator "⨀"), ("biguplus", .symbol .operator "⨄"),
  ("bigsqcup", .symbol .operator "⨆")]

/-- Binary operators. -/
def binaryOperators : List (String × Command) := [
  ("pm", .symbol .binary "±"), ("mp", .symbol .binary "∓"), ("times", .symbol .binary "×"),
  ("div", .symbol .binary "÷"), ("cdot", .symbol .binary "⋅"), ("ast", .symbol .binary "∗"),
  ("star", .symbol .binary "⋆"), ("circ", .symbol .binary "∘"), ("bullet", .symbol .binary "∙"),
  ("oplus", .symbol .binary "⊕"), ("ominus", .symbol .binary "⊖"),
  ("otimes", .symbol .binary "⊗"), ("oslash", .symbol .binary "⊘"), ("odot", .symbol .binary "⊙"),
  ("cup", .symbol .binary "∪"), ("cap", .symbol .binary "∩"), ("sqcup", .symbol .binary "⊔"),
  ("sqcap", .symbol .binary "⊓"), ("vee", .symbol .binary "∨"), ("lor", .symbol .binary "∨"),
  ("wedge", .symbol .binary "∧"), ("land", .symbol .binary "∧"),
  ("setminus", .symbol .binary "∖"), ("wr", .symbol .binary "≀"), ("uplus", .symbol .binary "⊎"),
  ("amalg", .symbol .binary "⨿"), ("diamond", .symbol .binary "⋄"),
  ("bigtriangleup", .symbol .binary "△"), ("bigtriangledown", .symbol .binary "▽"),
  ("triangleleft", .symbol .binary "◃"), ("triangleright", .symbol .binary "▹"),
  ("dagger", .symbol .binary "†"), ("ddagger", .symbol .binary "‡")]

/-- Relations and arrows. -/
def relations : List (String × Command) := [
  ("leq", .symbol .relation "≤"), ("le", .symbol .relation "≤"), ("geq", .symbol .relation "≥"),
  ("ge", .symbol .relation "≥"), ("leqslant", .symbol .relation "⩽"),
  ("geqslant", .symbol .relation "⩾"), ("neq", .symbol .relation "≠"),
  ("ne", .symbol .relation "≠"), ("nleq", .symbol .relation "≰"), ("ngeq", .symbol .relation "≱"),
  ("equiv", .symbol .relation "≡"), ("approx", .symbol .relation "≈"),
  ("cong", .symbol .relation "≅"), ("sim", .symbol .relation "∼"),
  ("simeq", .symbol .relation "≃"), ("lesssim", .symbol .relation "≲"),
  ("gtrsim", .symbol .relation "≳"), ("propto", .symbol .relation "∝"),
  ("ll", .symbol .relation "≪"), ("gg", .symbol .relation "≫"), ("prec", .symbol .relation "≺"),
  ("succ", .symbol .relation "≻"), ("preceq", .symbol .relation "⪯"),
  ("succeq", .symbol .relation "⪰"), ("doteq", .symbol .relation "≐"),
  ("asymp", .symbol .relation "≍"), ("coloneqq", .symbol .relation "≔"),
  ("subset", .symbol .relation "⊂"), ("supset", .symbol .relation "⊃"),
  ("subseteq", .symbol .relation "⊆"), ("supseteq", .symbol .relation "⊇"),
  ("in", .symbol .relation "∈"), ("ni", .symbol .relation "∋"), ("notin", .symbol .relation "∉"),
  ("perp", .symbol .relation "⊥"), ("parallel", .symbol .relation "∥"),
  ("mid", .symbol .relation "∣"), ("vdash", .symbol .relation "⊢"),
  ("dashv", .symbol .relation "⊣"), ("models", .symbol .relation "⊨"),
  ("to", .symbol .relation "→"), ("rightarrow", .symbol .relation "→"),
  ("leftarrow", .symbol .relation "←"), ("gets", .symbol .relation "←"),
  ("Rightarrow", .symbol .relation "⇒"), ("Leftarrow", .symbol .relation "⇐"),
  ("leftrightarrow", .symbol .relation "↔"), ("Leftrightarrow", .symbol .relation "⇔"),
  ("longrightarrow", .symbol .relation "⟶"), ("longleftarrow", .symbol .relation "⟵"),
  ("Longrightarrow", .symbol .relation "⟹"), ("Longleftarrow", .symbol .relation "⟸"),
  ("implies", .symbol .relation "⟹"), ("iff", .symbol .relation "⟺"),
  ("mapsto", .symbol .relation "↦"), ("hookrightarrow", .symbol .relation "↪"),
  ("uparrow", .symbol .relation "↑"), ("downarrow", .symbol .relation "↓"),
  ("Uparrow", .symbol .relation "⇑"), ("Downarrow", .symbol .relation "⇓"),
  ("rightleftharpoons", .symbol .relation "⇌")]

/-- Upright operator names.  Those that take limits let them stand below and above. -/
def operatorNames : List (String × Command) := [
  ("arccos", .operatorName "arccos" .side), ("arcsin", .operatorName "arcsin" .side),
  ("arctan", .operatorName "arctan" .side), ("arg", .operatorName "arg" .side),
  ("cos", .operatorName "cos" .side), ("cosh", .operatorName "cosh" .side),
  ("cot", .operatorName "cot" .side), ("coth", .operatorName "coth" .side),
  ("csc", .operatorName "csc" .side), ("deg", .operatorName "deg" .side),
  ("dim", .operatorName "dim" .side), ("exp", .operatorName "exp" .side),
  ("hom", .operatorName "hom" .side), ("ker", .operatorName "ker" .side),
  ("lg", .operatorName "lg" .side), ("ln", .operatorName "ln" .side),
  ("log", .operatorName "log" .side), ("sec", .operatorName "sec" .side),
  ("sin", .operatorName "sin" .side), ("sinh", .operatorName "sinh" .side),
  ("tan", .operatorName "tan" .side), ("tanh", .operatorName "tanh" .side),
  ("det", .operatorName "det" .movable), ("gcd", .operatorName "gcd" .movable),
  ("inf", .operatorName "inf" .movable), ("lim", .operatorName "lim" .movable),
  ("liminf", .operatorName "lim inf" .movable), ("limsup", .operatorName "lim sup" .movable),
  ("max", .operatorName "max" .movable), ("min", .operatorName "min" .movable),
  ("Pr", .operatorName "Pr" .movable), ("sup", .operatorName "sup" .movable)]

/-- Spaces, by their width in ems. -/
def spaces : List (String × Command) := [
  (",", .space 0.167), (":", .space 0.222), (">", .space 0.222), (";", .space 0.278),
  ("!", .space (-0.167)), (" ", .space 0.333), ("thinspace", .space 0.167),
  ("enspace", .space 0.5), ("quad", .space 1.0), ("qquad", .space 2.0)]

/-- Commands that scale the delimiter after them. -/
def sizes : List (String × Command) := [
  ("big", .sized 1.2), ("bigl", .sized 1.2), ("bigr", .sized 1.2), ("bigm", .sized 1.2),
  ("Big", .sized 1.623), ("Bigl", .sized 1.623), ("Bigr", .sized 1.623), ("Bigm", .sized 1.623),
  ("bigg", .sized 2.047), ("biggl", .sized 2.047), ("biggr", .sized 2.047),
  ("biggm", .sized 2.047), ("Bigg", .sized 2.47), ("Biggl", .sized 2.47), ("Biggr", .sized 2.47),
  ("Biggm", .sized 2.47)]

/-- Accents and stretched marks above or below an argument. -/
def decorations : List (String × Command) := [
  ("hat", .decoration .accent "\u0302" .above), ("widehat", .decoration .accent "\u0302" .above),
  ("check", .decoration .accent "\u030c" .above), ("breve", .decoration .accent "\u0306" .above),
  ("acute", .decoration .accent "\u0301" .above), ("grave", .decoration .accent "\u0300" .above),
  ("tilde", .decoration .accent "\u0303" .above),
  ("widetilde", .decoration .accent "\u0303" .above),
  ("bar", .decoration .accent "\u0304" .above), ("dot", .decoration .accent "\u0307" .above),
  ("ddot", .decoration .accent "\u0308" .above), ("dddot", .decoration .accent "\u20db" .above),
  ("vec", .decoration .accent "\u20d7" .above), ("mathring", .decoration .accent "\u030a" .above),
  ("overline", .decoration .overMark "\u00af" .above),
  ("underline", .decoration .underMark "_" .below),
  ("overbrace", .decoration .overMark "⏞" .above),
  ("underbrace", .decoration .underMark "⏟" .below),
  ("overparen", .decoration .overMark "⏜" .above),
  ("underparen", .decoration .underMark "⏝" .below),
  ("overbracket", .decoration .overMark "⎴" .above),
  ("underbracket", .decoration .underMark "⎵" .below),
  ("overrightarrow", .decoration .overMark "→" .above),
  ("overleftarrow", .decoration .overMark "←" .above),
  ("overleftrightarrow", .decoration .overMark "↔" .above),
  ("underrightarrow", .decoration .underMark "→" .below),
  ("underleftarrow", .decoration .underMark "←" .below),
  ("utilde", .decoration .lowAccent "\u0330" .below)]

/-- Constructions with arguments, and commands without output. -/
def constructions : List (String × Command) := [
  ("frac", .fraction .normal), ("cfrac", .fraction .display), ("dfrac", .fraction .display),
  ("tfrac", .fraction .inline), ("sqrt", .sqrt), ("left", .left), ("right", .right),
  ("middle", .middle), ("begin", .beginEnvironment), ("end", .endEnvironment),
  ("overset", .overset), ("stackrel", .overset), ("underset", .underset), ("boxed", .boxed),
  ("phantom", .phantom), ("cancel", .cancel .forward), ("bcancel", .cancel .back),
  ("xcancel", .cancel .both), ("operatorname", .namedOperator .side),
  ("operatorname*", .namedOperator .movable), ("limits", .limits .fixed),
  ("nolimits", .limits .side), ("displaystyle", .ignored), ("textstyle", .ignored),
  ("scriptstyle", .ignored), ("scriptscriptstyle", .ignored), ("hline", .ignored),
  ("nonumber", .ignored), ("notag", .ignored)]

/-- All commands but the delimiters and the style commands. -/
def commands : List (String × Command) :=
  greekLetters ++ ordinarySymbols ++ largeOperators ++ binaryOperators ++ relations ++
    operatorNames ++ spaces ++ sizes ++ decorations ++ constructions

/-- Commands that set their argument in a typeface. -/
def styleCommands : List (String × StyleCommand) := [
  ("mathrm", .formula .normal), ("mathup", .formula .normal), ("mathbf", .formula .bold),
  ("mathit", .formula .italic), ("mathtt", .formula .monospace), ("mathsf", .formula .sansSerif),
  ("mathbb", .formula .doubleStruck), ("mathcal", .formula .script),
  ("mathscr", .formula .script), ("mathfrak", .formula .fraktur),
  ("mathbfit", .formula .boldItalic), ("boldsymbol", .formula .boldItalic),
  ("bm", .formula .boldItalic), ("text", .text .normal), ("textrm", .text .normal),
  ("textnormal", .text .normal), ("textup", .text .normal), ("mbox", .text .normal),
  ("textbf", .text .bold), ("textit", .text .italic), ("texttt", .text .monospace),
  ("textsf", .text .sansSerif)]

/-- The command of this name. -/
def command? (name : String) : Option Command := commands.lookup name

/-- The style command of this name. -/
def styleCommand? (name : String) : Option StyleCommand := styleCommands.lookup name

/-- The meaning of a command name. -/
inductive Meaning where
  | command (command : Command)
  | delimiter (glyph : Glyph)
  | style (style : StyleCommand)

/-- Look a command name up in the three tables; the first that has it decides. -/
def Meaning.ofName? (name : String) : Option Meaning :=
  match command? name with
  | some found => some (.command found)
  | none =>
    match delimiterCommand? name with
    | some found => some (.delimiter found)
    | none => (styleCommand? name).map .style

/-- The symbol that a command stands for, if it stands for one. -/
def Command.glyph? : Command → Option Glyph
  | .symbol kind glyph => some ⟨kind, glyph⟩
  | _ => none

/-- Where the scripts of a symbol go: those of a large operator stand below and above it in a
displayed formula, unless it is an integral. -/
def SymbolClass.limits (kind : SymbolClass) (glyph : String) : Limits :=
  if kind = .operator && !isIntegral glyph then .movable else .side

end OfficeMath
