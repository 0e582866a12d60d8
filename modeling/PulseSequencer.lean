import PulseSequencer.Action
import PulseSequencer.Board
import PulseSequencer.Channel
import PulseSequencer.Clock
import PulseSequencer.Compilation
import PulseSequencer.Device.Basic
import PulseSequencer.Device.Compile
import PulseSequencer.Device.Edit
import PulseSequencer.Diagram
import PulseSequencer.Error
import PulseSequencer.Experiment
import PulseSequencer.Flags
import PulseSequencer.Instruction
import PulseSequencer.Loader
import PulseSequencer.Main
import PulseSequencer.Notice
import PulseSequencer.Number.Basic
import PulseSequencer.Number.Binary64
import PulseSequencer.Number.Decimal
import PulseSequencer.Number.Rounding
import PulseSequencer.Program.Basic
import PulseSequencer.Program.Listing
import PulseSequencer.Program.Replay
import PulseSequencer.Schedule
import PulseSequencer.ShortPulse
import PulseSequencer.SyncOut
import PulseSequencer.Table
import PulseSequencer.Text.Columns
import PulseSequencer.Text.Hidden
import PulseSequencer.Text.Identifier
import PulseSequencer.Text.Quoted
import PulseSequencer.Timeline
import PulseSequencer.Proofs.Encoding
import PulseSequencer.Proofs.FrontEnd
import PulseSequencer.Proofs.ShortPulse
import PulseSequencer.Proofs.Loop
import PulseSequencer.Proofs.PulseTime
import PulseSequencer.Proofs.Action
import PulseSequencer.Proofs.Arithmetic
import PulseSequencer.Proofs.Diagram
import PulseSequencer.Proofs.LongInstructions
import PulseSequencer.Proofs.Rearranged
import PulseSequencer.Proofs.Schedule
import PulseSequencer.Proofs.Table
import PulseSequencer.Proofs.Device.Requests
import PulseSequencer.Proofs.Device.Invariant
import PulseSequencer.Proofs.Device.Channels
import PulseSequencer.Proofs.Device.PulseWidths
import PulseSequencer.Proofs.Refusals
import PulseSequencer.Proofs.Device.Refusals
import PulseSequencer.Proofs.Device.Freshness
import PulseSequencer.Proofs.Device.AllOrNothing
import PulseSequencer.Proofs.Device.SyncPhase
import PulseSequencer.Proofs.Elements
import PulseSequencer.Proofs.Experiment.Compile
import PulseSequencer.Proofs.Experiment.Independence
import PulseSequencer.Proofs.Groups
import PulseSequencer.Proofs.ControlFlow
import PulseSequencer.Proofs.Overlaps
import PulseSequencer.Proofs.Bookings
import PulseSequencer.Proofs.Verdict
import PulseSequencer.Proofs.SharedOutputs
import PulseSequencer.Proofs.Minimal
import PulseSequencer.Proofs.SyncOut.DrawnOut
import PulseSequencer.Proofs.SyncOut.Fits
import PulseSequencer.Proofs.Device.PulsePeriod
import PulseSequencer.Proofs.Replay
import PulseSequencer.Proofs.Controls
import PulseSequencer.Proofs.Device.Diagram
import PulseSequencer.Proofs.Device.SyncEdits
import PulseSequencer.Proofs.Loading
import PulseSequencer.Proofs.Listing
