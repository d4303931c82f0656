import OfficeMath.Proofs.Decimal.ReadBack
import OfficeMath.Formula.Equality
import OfficeMath.Main
import OfficeMath.Proofs.Formula.Nodes
import OfficeMath.Proofs.Formula.OperatorRuns
import OfficeMath.Proofs.Markup.StyleTags
import OfficeMath.Proofs.Latex.Calls
import OfficeMath.Proofs.Markup.Lowering
import OfficeMath.Proofs.Markup.Operands
import OfficeMath.Proofs.Latex.Numeral
import OfficeMath.Proofs.Latex.SoundNodes
import OfficeMath.Proofs.Latex.Spelling
import OfficeMath.Proofs.Xml.Reader
import OfficeMath.Proofs.Xml.RoundTrip
import OfficeMath.Proofs.Xml.Entities
import OfficeMath.Proofs.Markup.Building
import OfficeMath.Proofs.Markup.Unmixed
import OfficeMath.Proofs.Markup.Characters
import OfficeMath.Proofs.Markup.Pieces
import OfficeMath.Proofs.Markup.ContentModel
import OfficeMath.Proofs.Latex.Progress
import OfficeMath.Proofs.Latex.Depth
import OfficeMath.Proofs.Latex.Canonical
import OfficeMath.Proofs.Latex.Constructions
import OfficeMath.Proofs.Latex.Regions
import OfficeMath.Proofs.Latex.Arrays
import OfficeMath.Proofs.Latex.ReadBack
import OfficeMath.Proofs.Latex.OpenGroups
import OfficeMath.Proofs.Latex.Approach
import OfficeMath.Proofs.Latex.Tokens
import OfficeMath.Proofs.Latex.Ledger
import OfficeMath.Proofs.Latex.Conservation
import OfficeMath.Proofs.Latex.GroupInvariant
import OfficeMath.Proofs.Latex.BraceCount
import OfficeMath.Proofs.Latex.SideBySide
import OfficeMath.Proofs.Latex.BalancedBraces
import OfficeMath.Proofs.Latex.SameTokens
import OfficeMath.Proofs.Latex.LayoutFreedom
import OfficeMath.Proofs.Latex.Fence
import OfficeMath.Proofs.Latex.ClosedGroups
import OfficeMath.Proofs.Latex.Anywhere
import OfficeMath.Proofs.Latex.ScriptOrder
import OfficeMath.Proofs.Latex.PlainText
import OfficeMath.Proofs.Latex.SkippedEnvironments
import OfficeMath.Proofs.Latex.NodeCount
import OfficeMath.Proofs.Latex.TruthfulNotes
import OfficeMath.Proofs.Latex.DecorationScripts
import OfficeMath.Proofs.Latex.OptionalBraces
import OfficeMath.Proofs.Cursor.Agreement
