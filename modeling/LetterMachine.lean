import LetterMachine.Main
import LetterMachine.Proofs.Congruence
import LetterMachine.Proofs.Numeral
import LetterMachine.Proofs.Scan
import LetterMachine.Proofs.Grammar
import LetterMachine.Proofs.Listing
import LetterMachine.Proofs.Run
import LetterMachine.Proofs.Stepper
import LetterMachine.Proofs.Runs
import LetterMachine.Proofs.Seed
import LetterMachine.Proofs.Workspace
import LetterMachine.Proofs.Lines
import LetterMachine.Proofs.Display
import LetterMachine.Proofs.Session
import LetterMachine.Proofs.SeedPairs
import LetterMachine.Proofs.Printing
import LetterMachine.Proofs.Refusals
import LetterMachine.Proofs.CommandLine
import LetterMachine.Proofs.Panels
import LetterMachine.Proofs.Words
import LetterMachine.Proofs.Files
import LetterMachine.Proofs.Items
import LetterMachine.Proofs.Breakpoints
import LetterMachine.Proofs.Restart
import LetterMachine.Proofs.Blame
import LetterMachine.Proofs.Positions
import LetterMachine.Proofs.Overlay
import LetterMachine.Proofs.Tracing
import LetterMachine.Proofs.Recentring
import LetterMachine.Proofs.Repetition
import LetterMachine.Proofs.Turning
import LetterMachine.Proofs.Smoothing
import LetterMachine.Proofs.Reversal
import LetterMachine.Proofs.Periods
import LetterMachine.Proofs.Linearity
import LetterMachine.Proofs.Growth
import LetterMachine.Proofs.Operands
import LetterMachine.Proofs.Failures
import LetterMachine.Proofs.Queries
import LetterMachine.Proofs.Replay
import LetterMachine.Proofs.Renderings
import LetterMachine.Proofs.Options
