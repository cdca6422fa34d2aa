import Teleop.Main
import Teleop.Session
import Teleop.Record.Quantity
import Teleop.Record.Token
import Teleop.Proofs.Text.Lowercase
import Teleop.Proofs.Text.Words
import Teleop.Proofs.Text.CaseFold
import Teleop.Proofs.Text.Scan
import Teleop.Proofs.Text.Standing
import Teleop.Proofs.Clause.Connector
import Teleop.Proofs.Clause.Segment
import Teleop.Proofs.Classification.Cascade
import Teleop.Proofs.Classification.View
import Teleop.Proofs.Interpreter.Reading
import Teleop.Proofs.Interpreter.Stop
import Teleop.Proofs.Clause.Seam
import Teleop.Proofs.Lexicon.Sources
import Teleop.Proofs.Lexicon.Seam
import Teleop.Proofs.Interpreter.Chaining
import Teleop.Proofs.Text.Spacing
import Teleop.Proofs.Text.Phrase
import Teleop.Proofs.Lexicon.Normalization
import Teleop.Proofs.Lexicon.Idempotence
import Teleop.Proofs.Dispatch.History
import Teleop.Proofs.Token.Bracket
import Teleop.Proofs.Dispatch.Bracket
import Teleop.Proofs.Interpreter.Shape
import Teleop.Proofs.Lexicon.Apart
import Teleop.Proofs.Lexicon.Stable
import Teleop.Proofs.Interpreter.Stability
import Teleop.Proofs.Context.Replay
import Teleop.Proofs.Interpreter.Conversation
import Teleop.Proofs.Interpreter.Memory
import Teleop.Proofs.Numeric.Rounding
import Teleop.Proofs.Numeric.Order
import Teleop.Proofs.Quantity.Magnitude
import Teleop.Proofs.Command.WellFormed
import Teleop.Proofs.Classification.WellFormed
import Teleop.Proofs.Interpreter.Invariant
import Teleop.Proofs.Numeric.Digits
import Teleop.Proofs.Numeric.Plain
import Teleop.Proofs.Numeric.Whole
import Teleop.Proofs.Numeric.Shortest
import Teleop.Proofs.Json.Quoted
import Teleop.Proofs.Json.Document
import Teleop.Proofs.Json.Number
import Teleop.Proofs.Token.Number
import Teleop.Proofs.Token.Plain
import Teleop.Proofs.Token.Codec
import Teleop.Proofs.Record.Fields
import Teleop.Proofs.Context.Snapshot
import Teleop.Proofs.Text.Numbered
import Teleop.Proofs.Lexicon.Numbered
import Teleop.Proofs.Clause.Numbered
import Teleop.Proofs.Quantity.Numbered
import Teleop.Proofs.Interpreter.Rotation
import Teleop.Proofs.Interpreter.Snapshot
import Teleop.Proofs.Token.Listing
import Teleop.Proofs.Interpreter.Listing
import Teleop.Proofs.Interpreter.Lowering
import Teleop.Proofs.Interpreter.Isolation
import Teleop.Proofs.Interpreter.Metrics
import Teleop.Proofs.Clause.Slice
import Teleop.Proofs.Text.Slice
import Teleop.Proofs.Clause.Uncut
import Teleop.Proofs.Lexicon.Slice
import Teleop.Proofs.Quantity.Mention
import Teleop.Proofs.Quantity.Trailing
import Teleop.Proofs.Classification.Trailing
import Teleop.Proofs.Interpreter.Alone
import Teleop.Proofs.Text.Spelling
import Teleop.Proofs.Quantity.NumberWord
import Teleop.Proofs.Quantity.Unit
import Teleop.Proofs.Text.Place
import Teleop.Proofs.Quantity.Percentage
import Teleop.Proofs.Quantity.Measured
import Teleop.Proofs.Classification.TimeBound
import Teleop.Proofs.Text.Lines
import Teleop.Proofs.CommandLine.Agreement
import Teleop.Proofs.Clause.Account
import Teleop.Proofs.Lexicon.Effect
import Teleop.Proofs.Numeric.Exact
import Teleop.Proofs.Quantity.Whole
import Teleop.Proofs.Text.Opening
import Teleop.Proofs.Interpreter.Request
import Teleop.Proofs.Interpreter.Quantified
import Teleop.Proofs.Token.Absorption
import Teleop.Proofs.Lexicon.Table
import Teleop.Proofs.Lexicon.Extension
import Teleop.Proofs.Command.Document
