import Scrutiny.Config.Environment
import Scrutiny.Config.Json
import Scrutiny.Describe
import Scrutiny.Report.Drawing
import Scrutiny.Proofs.Cache.Fifo
import Scrutiny.Proofs.Session.Transparency
import Scrutiny.Proofs.Session.Accounting
import Scrutiny.Proofs.Session.Parseability
import Scrutiny.Proofs.Check.Positions
import Scrutiny.Proofs.Check.Gates
import Scrutiny.Proofs.Syntax.Targets
import Scrutiny.Proofs.Syntax.Deliveries
import Scrutiny.Proofs.Grammar.StmtShape
import Scrutiny.Proofs.Grammar.Precedence
import Scrutiny.Proofs.Grammar.SoftNames
import Scrutiny.Proofs.Token.Rendering
import Scrutiny.Proofs.Token.TripleQuotes
import Scrutiny.Proofs.Token.BlankLines
import Scrutiny.Proofs.Token.LineEnds
import Scrutiny.Proofs.Check.Indentation
import Scrutiny.Proofs.Token.Delimiters
import Scrutiny.Proofs.Check.Undefined
import Scrutiny.Proofs.Check.Unused
import Scrutiny.Proofs.Check.Unreachable
import Scrutiny.Proofs.Check.Endless
import Scrutiny.Proofs.Check.Returnless
import Scrutiny.Proofs.Check.Characters
import Scrutiny.Proofs.Report.Underline
import Scrutiny.Proofs.Report.Windows
import Scrutiny.Proofs.Token.Longest
import Scrutiny.Proofs.Grammar.ParamKinds
import Scrutiny.Proofs.Grammar.Termination
import Scrutiny.Proofs.Syntax.Segments
import Scrutiny.Proofs.Check.LoopTally
import Scrutiny.Proofs.Text.LineNumbers
