import Lox.Text.Quoted
import Lox.Text.Lines
import Lox.Text.Letter
import Lox.Decimal.Layout
import Lox.Decimal.Numeral
import Lox.Token.Reader
import Lox.Token.Stream
import Lox.Limits
import Lox.Syntax.Sites
import Lox.Syntax.Listing
import Lox.Syntax.Printer
import Lox.Syntax.Formatter
import Lox.Syntax.Parser
import Lox.Binding.Resolver
import Lox.Machine.Evaluation
import Lox.Text.Utf8
import Lox.Session.Listing
import Lox.Shell.Basic
import Lox.CommandLine.Basic
import Lox.Main
import Lox.Proofs.Scoping.Resolution
import Lox.Proofs.Scoping.Typing
import Lox.Proofs.Scoping.Keeping
import Lox.Proofs.Scoping.Reaching
import Lox.Proofs.Scoping.Driving
import Lox.Proofs.Scoping.Mirroring
import Lox.Proofs.Scoping.Occurrences
import Lox.Proofs.Scoping.ChainLookup
import Lox.Proofs.Scoping.Sessions
import Lox.Proofs.Respelling.Execution
import Lox.Proofs.Respelling.Relining
import Lox.Proofs.Grammar.Derivation
import Lox.Proofs.Grammar.Follow
import Lox.Proofs.Grammar.Nearest
import Lox.Proofs.Grammar.Reading
import Lox.Proofs.Grammar.Nesting
import Lox.Proofs.Grammar.Accepting
import Lox.Proofs.Grammar.ReadingStatements
import Lox.Proofs.Grammar.AcceptingStatements
import Lox.Proofs.Grammar.Unambiguity
import Lox.Proofs.Grammar.Language
import Lox.Proofs.Grammar.Regular
import Lox.Proofs.Session.Forgetting
import Lox.Proofs.Session.Regular
import Lox.Proofs.Session.Scripts
import Lox.Proofs.Respelling.Renaming
import Lox.Proofs.Session.Renaming
import Lox.Proofs.Grammar.Bodies
import Lox.Proofs.Grammar.Joining
import Lox.Proofs.Session.Splitting
import Lox.Proofs.Decimal.ReadingBack
import Lox.Proofs.Decimal.Nearest
import Lox.Proofs.Token.Lexemes
import Lox.Proofs.Token.MaximalMunch
import Lox.Proofs.Token.Cursor
import Lox.Proofs.Scoping.Tables
import Lox.Proofs.Session.Rollback
import Lox.Proofs.Session.Soundness
import Lox.Proofs.Layout.Spacing
import Lox.Proofs.Layout.Texts
import Lox.Proofs.Layout.Respacing
import Lox.Proofs.Session.Respacing
import Lox.Proofs.Grammar.Rewording
import Lox.Proofs.Layout.Inscribed
import Lox.Proofs.Layout.Formatting
import Lox.Proofs.Layout.Rereading
import Lox.Proofs.Layout.RoundTrip
import Lox.Proofs.Shell.Ending
import Lox.Proofs.Shell.Sources
import Lox.Proofs.Grammar.Lookahead
import Lox.Proofs.Handling.Statements
import Lox.Proofs.Scoping.Lexical
import Lox.Proofs.Session.Previewing
import Lox.Proofs.Session.Finishing
import Lox.Proofs.Recovery.Statements
import Lox.Proofs.Shell.Tokens
import Lox.Proofs.Decimal.Signs
import Lox.Proofs.Decimal.Stripping
import Lox.Proofs.Layout.Numbers
import Lox.Proofs.Recovery.Procedures
import Lox.Proofs.Recovery.Readers
import Lox.Proofs.Recovery.Progress
import Lox.Proofs.Recovery.Calls
import Lox.Proofs.Session.Drivers
import Lox.Proofs.Decimal.Shown
import Lox.Proofs.Printing.Sexp
import Lox.Proofs.Printing.Lexical
import Lox.Proofs.Printing.Prefix
import Lox.Proofs.Printing.Reading
import Lox.Proofs.Shell.Brackets
import Lox.Proofs.Session.Lasting
import Lox.Proofs.Scoping.Frames
import Lox.Proofs.Scoping.Restoring
import Lox.Proofs.Session.Restoring
import Lox.Proofs.Returning.Log
import Lox.Proofs.Returning.Calls
import Lox.Proofs.Scoping.Forests
import Lox.Proofs.Grammar.Braces
import Lox.Proofs.Session.Breaking
import Lox.Proofs.Session.Reporting
import Lox.Proofs.Session.Addressing
import Lox.Proofs.Session.Quoting
import Lox.Proofs.Text.Stripping
import Lox.Proofs.Text.Rows
import Lox.Proofs.Token.Positions
import Lox.Proofs.Session.Locating
import Lox.Proofs.Session.Severity
import Lox.Proofs.Declaring.Trails
import Lox.Proofs.Declaring.Tracing
import Lox.Proofs.Declaring.Recording
import Lox.Proofs.Declaring.Redeclaring
