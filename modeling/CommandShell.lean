import CommandShell.Main
import CommandShell.Proofs.Ambiguity
import CommandShell.Proofs.Arguments
import CommandShell.Proofs.Completion
import CommandShell.Proofs.Conformance
import CommandShell.Proofs.Eliminations
import CommandShell.Proofs.Kinds
import CommandShell.Proofs.LineNumbers
import CommandShell.Proofs.OneMoreCommand
import CommandShell.Proofs.Positions
import CommandShell.Proofs.Renaming
import CommandShell.Proofs.ReportedTypes
import CommandShell.Proofs.Rounds
import CommandShell.Proofs.Routing
import CommandShell.Proofs.Spacing
import CommandShell.Proofs.Views
import CommandShell.Proofs.WrittenValues
