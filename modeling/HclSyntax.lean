import HclSyntax.Data.Yaml
import HclSyntax.Files.Tree
import HclSyntax.Main
import HclSyntax.Node.Listing
import HclSyntax.Node.Render
import HclSyntax.Node.View
import HclSyntax.Node.Visit
import HclSyntax.Text.Escape
import HclSyntax.Text.LineEnding
import HclSyntax.Text.Location
import HclSyntax.Proofs.Rule.Outcome
import HclSyntax.Proofs.Rule.Progress
import HclSyntax.Proofs.Rule.Lookahead
import HclSyntax.Proofs.Grammar.Recursion
import HclSyntax.Proofs.Text.CharacterClass
import HclSyntax.Proofs.Text.Quoting
import HclSyntax.Proofs.Text.Unescaping
import HclSyntax.Proofs.Text.Trim
import HclSyntax.Proofs.Grammar.Bracket
import HclSyntax.Proofs.Grammar.ForLoop
import HclSyntax.Proofs.Grammar.Name
import HclSyntax.Proofs.Grammar.Number
import HclSyntax.Proofs.Grammar.UnquotedText
import HclSyntax.Proofs.Grammar.Verbatim
import HclSyntax.Proofs.Grammar.Operator
import HclSyntax.Proofs.Node.Parts
import HclSyntax.Proofs.Rule.Series
import HclSyntax.Proofs.Grammar.Follow
import HclSyntax.Proofs.Rule.Yields
import HclSyntax.Proofs.Grammar.Shape
import HclSyntax.Proofs.Grammar.Soundness
import HclSyntax.Proofs.Node.Form
import HclSyntax.Proofs.Node.Frame
import HclSyntax.Proofs.Grammar.Start
import HclSyntax.Proofs.RoundTrip.Block
import HclSyntax.Proofs.RoundTrip.Property
import HclSyntax.Proofs.RoundTrip.TypeConstraint
import HclSyntax.Proofs.Grammar.Induction
import HclSyntax.Proofs.Rule.Consumption
import HclSyntax.Proofs.Grammar.Fault
import HclSyntax.Proofs.Parse.Error
import HclSyntax.Proofs.Parse.WellFormed
import HclSyntax.Proofs.Parse.Heredoc
import HclSyntax.Proofs.Node.Pieces
import HclSyntax.Proofs.Rule.Account
import HclSyntax.Proofs.Grammar.Account
import HclSyntax.Proofs.Parse.Account
import HclSyntax.Proofs.RoundTrip.Reread
import HclSyntax.Proofs.RoundTrip.Canonical
import HclSyntax.Proofs.Parse.RoundTrip
import HclSyntax.Proofs.Files.Path
import HclSyntax.Proofs.Templates.Names
import HclSyntax.Proofs.Templates.Loading
import HclSyntax.Proofs.Command.Outcome
import HclSyntax.Proofs.Text.Splitting
import HclSyntax.Proofs.Rule.LineBreak
import HclSyntax.Proofs.LineBreak.Declaration
import HclSyntax.Proofs.Parse.LineBreak
import HclSyntax.Proofs.Grammar.OpenLoop
import HclSyntax.Proofs.Node.Walk
import HclSyntax.Proofs.Parse.Redundant
import HclSyntax.Proofs.Rule.Ending
import HclSyntax.Proofs.Grammar.Roles
import HclSyntax.Proofs.Node.Lines
import HclSyntax.Proofs.Templates.Directory
import HclSyntax.Proofs.Grammar.NumberPattern
import HclSyntax.Proofs.Text.LineEnding
import HclSyntax.Proofs.Text.ByteLength
import HclSyntax.Proofs.Text.SelfDelimiting
import HclSyntax.Proofs.Grammar.BracketDepth
import HclSyntax.Proofs.Command.Census
import HclSyntax.Proofs.Text.Location
import HclSyntax.Proofs.Parse.Progress
import HclSyntax.Proofs.Text.Spelling
import HclSyntax.Proofs.Command.Stable
import HclSyntax.Proofs.Parse.Printed
