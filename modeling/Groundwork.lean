import Groundwork.Binary.Arithmetic
import Groundwork.Binary.Format
import Groundwork.Binary.Literal
import Groundwork.Binary.Ratio
import Groundwork.Binary.Reading
import Groundwork.Binary.Rounding
import Groundwork.Binary.Text
import Groundwork.Calendar.Conversion
import Groundwork.Calendar.Fields
import Groundwork.Calendar.Gregorian
import Groundwork.Calendar.Inverse
import Groundwork.Calendar.Slots
import Groundwork.Calendar.Zone
import Groundwork.Calendar.ZoneText
import Groundwork.Clock.Clocks
import Groundwork.Clock.Nanoseconds
import Groundwork.Clock.Timeout
import Groundwork.Clock.Timespec
import Groundwork.Descriptor.Files
import Groundwork.Descriptor.Table
import Groundwork.Host.Basic
import Groundwork.Host.Caller
import Groundwork.Host.Turn
import Groundwork.Launch.Child
import Groundwork.Launch.Command
import Groundwork.Launch.Interface
import Groundwork.Launch.Places
import Groundwork.Launch.Spawn
import Groundwork.Launch.State
import Groundwork.Layout.Codec
import Groundwork.Layout.Order
import Groundwork.Layout.Scalar
import Groundwork.Number.Error
import Groundwork.Number.Integer
import Groundwork.Number.LastError
import Groundwork.Number.Writing
import Groundwork.Proofs.Binary.Grid
import Groundwork.Proofs.Binary.Literal
import Groundwork.Proofs.Binary.NaN
import Groundwork.Proofs.Binary.Nearest
import Groundwork.Proofs.Binary.Ratio
import Groundwork.Proofs.Binary.Reading
import Groundwork.Proofs.Binary.RoundTrip
import Groundwork.Proofs.Binary.Rounding
import Groundwork.Proofs.Binary.ShortText
import Groundwork.Proofs.Binary.Subnormal
import Groundwork.Proofs.Binary.Text
import Groundwork.Proofs.Calendar.Gregorian
import Groundwork.Proofs.Calendar.Local
import Groundwork.Proofs.Calendar.LocalRoundTrip
import Groundwork.Proofs.Calendar.Normalization
import Groundwork.Proofs.Calendar.Probing
import Groundwork.Proofs.Calendar.Slots
import Groundwork.Proofs.Calendar.Universal
import Groundwork.Proofs.Calendar.WallTime
import Groundwork.Proofs.Calendar.ZoneText
import Groundwork.Proofs.Clock.Timeout
import Groundwork.Proofs.Descriptor.Table
import Groundwork.Proofs.Host.Launching
import Groundwork.Proofs.Host.Session
import Groundwork.Proofs.Host.Turn
import Groundwork.Proofs.Launch.Atomicity
import Groundwork.Proofs.Launch.Crossing
import Groundwork.Proofs.Launch.Holding
import Groundwork.Proofs.Launch.Interface
import Groundwork.Proofs.Launch.Isolation
import Groundwork.Proofs.Launch.Ledger
import Groundwork.Proofs.Launch.Refusal
import Groundwork.Proofs.Launch.Wiring
import Groundwork.Proofs.Layout.Codec
import Groundwork.Proofs.Layout.Positional
import Groundwork.Proofs.Layout.Runs
import Groundwork.Proofs.Number.Integer
import Groundwork.Proofs.Number.LastError
import Groundwork.Proofs.Number.Writing
import Groundwork.Proofs.Text.Numeral
import Groundwork.Proofs.Text.Utf8
import Groundwork.Proofs.Waiting.Coherence
import Groundwork.Proofs.Waiting.Course
import Groundwork.Proofs.Waiting.Deadlines
import Groundwork.Proofs.Waiting.Moves
import Groundwork.Proofs.Waiting.Quiet
import Groundwork.Proofs.Waiting.Reaping
import Groundwork.Proofs.Waiting.Recycled
import Groundwork.Proofs.Waiting.Register
import Groundwork.Proofs.Waiting.Registration
import Groundwork.Proofs.Waiting.Requests
import Groundwork.Script.Arithmetic
import Groundwork.Script.Basic
import Groundwork.Script.Expansion
import Groundwork.Script.Parser
import Groundwork.Script.Token
import Groundwork.Shell.Basic
import Groundwork.Shell.Builtin
import Groundwork.Shell.Redirection
import Groundwork.Shell.Running
import Groundwork.Shell.Start
import Groundwork.System.Error
import Groundwork.System.Family
import Groundwork.System.Queue
import Groundwork.System.Signal
import Groundwork.Text.Ascii
import Groundwork.Text.CString
import Groundwork.Text.Glyph
import Groundwork.Text.Numeral
import Groundwork.Text.Quoted
import Groundwork.Text.Utf8
import Groundwork.Utility.Basic
import Groundwork.Utility.Catalogue
import Groundwork.Utility.Condition
import Groundwork.Utility.Editing
import Groundwork.Utility.Pattern
import Groundwork.Utility.Printing
import Groundwork.Waiting.Outcome
import Groundwork.Waiting.Schedule
import Groundwork.Waiting.State
import Groundwork.Waiting.Step
