import Countdown.Calendar.DateTime
import Countdown.Calendar.EndTime
import Countdown.Duration.Clock
import Countdown.Duration.Reader
import Countdown.Duration.Token
import Countdown.Json.Encoding
import Countdown.Json.Reader
import Countdown.Json.Value
import Countdown.Log
import Countdown.Main
import Countdown.Number.Binary64
import Countdown.Number.Decimal
import Countdown.Proofs.Calendar.Asked
import Countdown.Proofs.Calendar.Date
import Countdown.Proofs.Calendar.EndLabel
import Countdown.Proofs.Calendar.Occurrence
import Countdown.Proofs.Calendar.Spelling
import Countdown.Proofs.Duration.Character
import Countdown.Proofs.Duration.Clock
import Countdown.Proofs.Duration.Display
import Countdown.Proofs.Duration.Exact
import Countdown.Proofs.Duration.Overflow
import Countdown.Proofs.Duration.Parts
import Countdown.Proofs.Duration.Reading
import Countdown.Proofs.Duration.Split
import Countdown.Proofs.Duration.Token
import Countdown.Proofs.Duration.Written
import Countdown.Proofs.Json.Limit
import Countdown.Proofs.Json.RoundTrip
import Countdown.Proofs.Json.Strings
import Countdown.Proofs.Number.Exact
import Countdown.Proofs.Number.Numeral
import Countdown.Proofs.Number.Quotient
import Countdown.Proofs.Result
import Countdown.Proofs.Sequence.Draft
import Countdown.Proofs.Sequence.Durations
import Countdown.Proofs.Sequence.Evaluation
import Countdown.Proofs.Sequence.Grammar
import Countdown.Proofs.Sequence.Group
import Countdown.Proofs.Sequence.Meaning
import Countdown.Proofs.Sequence.Playlist
import Countdown.Proofs.Sequence.Productive
import Countdown.Proofs.Sequence.Requests
import Countdown.Proofs.Sequence.Sign
import Countdown.Proofs.Sequence.Token
import Countdown.Proofs.Session.Announcement
import Countdown.Proofs.Session.Attained
import Countdown.Proofs.Session.Audience
import Countdown.Proofs.Session.Bench
import Countdown.Proofs.Session.Caught
import Countdown.Proofs.Session.Change
import Countdown.Proofs.Session.Course
import Countdown.Proofs.Session.Deck
import Countdown.Proofs.Session.Ending
import Countdown.Proofs.Session.Explicit
import Countdown.Proofs.Session.Export
import Countdown.Proofs.Session.Exportable
import Countdown.Proofs.Session.Failure
import Countdown.Proofs.Session.Faithful
import Countdown.Proofs.Session.Figures
import Countdown.Proofs.Session.Focus
import Countdown.Proofs.Session.Forward
import Countdown.Proofs.Session.Growth
import Countdown.Proofs.Session.Immediate
import Countdown.Proofs.Session.Import
import Countdown.Proofs.Session.Informed
import Countdown.Proofs.Session.Input
import Countdown.Proofs.Session.Isolation
import Countdown.Proofs.Session.Lifecycle
import Countdown.Proofs.Session.Listing
import Countdown.Proofs.Session.LiveWake
import Countdown.Proofs.Session.Moves
import Countdown.Proofs.Session.OnTime
import Countdown.Proofs.Session.Progress
import Countdown.Proofs.Session.Reached
import Countdown.Proofs.Session.Reaction
import Countdown.Proofs.Session.Registry
import Countdown.Proofs.Session.Removal
import Countdown.Proofs.Session.Resemblance
import Countdown.Proofs.Session.Resumption
import Countdown.Proofs.Session.Ring
import Countdown.Proofs.Session.RoundTrip
import Countdown.Proofs.Session.Salvage
import Countdown.Proofs.Session.SavedRun
import Countdown.Proofs.Session.Settling
import Countdown.Proofs.Session.Stopwatch
import Countdown.Proofs.Session.Telling
import Countdown.Proofs.Session.Turn
import Countdown.Proofs.Session.Twins
import Countdown.Proofs.Session.Watcher
import Countdown.Proofs.Settings.Load
import Countdown.Proofs.Snapshot
import Countdown.Proofs.Text.Character
import Countdown.Proofs.Timer.Alarm
import Countdown.Proofs.Timer.Alike
import Countdown.Proofs.Timer.Announcement
import Countdown.Proofs.Timer.Evolution
import Countdown.Proofs.Timer.Forward
import Countdown.Proofs.Timer.Generation
import Countdown.Proofs.Timer.Guard
import Countdown.Proofs.Timer.Life
import Countdown.Proofs.Timer.Punctual
import Countdown.Proofs.Timer.Registration
import Countdown.Proofs.Timer.Restore
import Countdown.Proofs.Timer.Trial
import Countdown.Proofs.Web.Controls
import Countdown.Proofs.Web.Display
import Countdown.Proofs.Web.Hub
import Countdown.Proofs.Web.Refusal
import Countdown.Proofs.Web.Rejection
import Countdown.Proofs.Web.Updates
import Countdown.Sequence.Expr
import Countdown.Sequence.Run
import Countdown.Sequence.Token
import Countdown.Session.Basic
import Countdown.Session.Command
import Countdown.Session.World
import Countdown.Settings.Basic
import Countdown.Snapshot
import Countdown.Terminal.Arguments
import Countdown.Terminal.Screen
import Countdown.Text.Alphanumeric
import Countdown.Text.Character
import Countdown.Text.CodePoint
import Countdown.Text.Quoted
import Countdown.TimeUnit
import Countdown.Timer.Alarm
import Countdown.Timer.AlarmTrial
import Countdown.Timer.Basic
import Countdown.Validation
import Countdown.Web.Request
import Countdown.Web.Server
import Countdown.Web.Status
