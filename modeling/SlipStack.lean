import SlipStack.Eval.Perform
import SlipStack.Main
import SlipStack.Proofs.Lap.Soundness
import SlipStack.Proofs.Lap.Parts
import SlipStack.Proofs.Lap.Completeness
import SlipStack.Proofs.Lap.Supplies
import SlipStack.Proofs.Lap.Lookahead
import SlipStack.Proofs.Lap.Recognition
import SlipStack.Proofs.Number.Exact
import SlipStack.Proofs.Number.Printed
import SlipStack.Proofs.Number.Positional
import SlipStack.Proofs.Lap.Words
import SlipStack.Proofs.Lap.Lexemes
import SlipStack.Proofs.Lap.WellFormed
import SlipStack.Proofs.Lap.RoundTrip
import SlipStack.Proofs.Engine.Firing
import SlipStack.Proofs.Engine.Paths
import SlipStack.Proofs.Engine.Attempts
import SlipStack.Proofs.Engine.Built
import SlipStack.Proofs.Engine.Reached
import SlipStack.Proofs.Engine.OneStep
import SlipStack.Proofs.Engine.Reset
import SlipStack.Proofs.Engine.Mirror
import SlipStack.Proofs.Engine.Resolution
import SlipStack.Proofs.Engine.Entries
import SlipStack.Proofs.Engine.Intact
import SlipStack.Proofs.Engine.Fired
import SlipStack.Proofs.Engine.Stretches
import SlipStack.Proofs.Engine.Renaming
import SlipStack.Proofs.Engine.Folding
import SlipStack.Proofs.Engine.Sharing
import SlipStack.Proofs.Engine.Budget
import SlipStack.Proofs.Engine.Intervals
import SlipStack.Proofs.Engine.Interrupted
import SlipStack.Proofs.Engine.Reordering
import SlipStack.Proofs.Engine.Rooted
import SlipStack.Proofs.Engine.Exchanges
import SlipStack.Proofs.Engine.OneAction
import SlipStack.Proofs.Engine.BoundedRun
import SlipStack.Proofs.Script.Described
import SlipStack.Proofs.Script.Conversation
import SlipStack.Proofs.Engine.Reliable
import SlipStack.Proofs.Script.Unfailing
import SlipStack.Proofs.Registration
import SlipStack.Proofs.Lap.Relexing
import SlipStack.Proofs.Lap.Lines
import SlipStack.Proofs.Lap.Truncation
import SlipStack.Proofs.Engine.Schedule
import SlipStack.Proofs.Engine.Pursuit
import SlipStack.Proofs.Engine.Scan
import SlipStack.Proofs.Engine.Faults
import SlipStack.Proofs.Engine.Compiled
import SlipStack.Proofs.Files.Writing
import SlipStack.Proofs.Script.Activity
import SlipStack.Proofs.Eval.Truth
import SlipStack.Proofs.Eval.Recording
import SlipStack.Proofs.Sense.Literals
import SlipStack.Proofs.Sense.NumericTokens
import SlipStack.Proofs.Number.Rounding
import SlipStack.Proofs.Sense.Comparison
import SlipStack.Proofs.Eval.Totals
import SlipStack.Proofs.Eval.Labels
import SlipStack.Proofs.Files.Lexical
import SlipStack.Proofs.Eval.Cleaning
import SlipStack.Proofs.Files.Listing
import SlipStack.Proofs.Eval.Discovery
import SlipStack.Proofs.Engine.Range
import SlipStack.Proofs.Engine.Pacing
