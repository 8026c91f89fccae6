import LvmControl.Arguments
import LvmControl.Client.Call
import LvmControl.Client.Failure
import LvmControl.Client.Host
import LvmControl.Client.Rehearsal
import LvmControl.Client.Stack
import LvmControl.Json.Reader
import LvmControl.Json.Value
import LvmControl.Lock.Registry
import LvmControl.Lock.Schedule
import LvmControl.Lock.Traffic
import LvmControl.Name
import LvmControl.Number.Binary64
import LvmControl.Number.Hexadecimal
import LvmControl.Number.Whole
import LvmControl.Process.Containment
import LvmControl.Process.Context
import LvmControl.Process.Duration
import LvmControl.Process.Invocation
import LvmControl.Process.Program
import LvmControl.Process.Run
import LvmControl.Process.Session
import LvmControl.Quantity.Extents
import LvmControl.Quantity.Size
import LvmControl.Report.Column
import LvmControl.Report.DeviceList
import LvmControl.Report.Row
import LvmControl.Report.Version
import LvmControl.Report.Volume
import LvmControl.Request.Amount
import LvmControl.Request.Command
import LvmControl.Request.Fault
import LvmControl.Request.Layout
import LvmControl.Request.OptionList
import LvmControl.Request.Requirement
import LvmControl.Request.Scope
import LvmControl.Request.Setting
import LvmControl.Settings.Document
import LvmControl.Settings.File
import LvmControl.Text.Blank
import LvmControl.Text.Split
import LvmControl.Text.Utf8
import LvmControl.Proofs.Lock.Change
import LvmControl.Proofs.Lock.WellFormed
import LvmControl.Proofs.Lock.Flights
import LvmControl.Proofs.Lock.Exclusion
import LvmControl.Proofs.Client.BelowLocks
import LvmControl.Proofs.Lock.Deadlock
import LvmControl.Proofs.Lock.Retention
import LvmControl.Proofs.Lock.Acquisition
import LvmControl.Proofs.Lock.Moves
import LvmControl.Proofs.Lock.FlightMoves
import LvmControl.Proofs.Lock.Schedule
import LvmControl.Proofs.Lock.Protocol
import LvmControl.Proofs.Request.Tokens
import LvmControl.Proofs.Request.SharedKeys
import LvmControl.Proofs.Client.NamedDevices
import LvmControl.Proofs.Request.LastWriter
import LvmControl.Proofs.Request.GroupGap
import LvmControl.Proofs.Request.Flags
import LvmControl.Proofs.Request.Positionals
import LvmControl.Proofs.Request.Replacement
import LvmControl.Proofs.Request.Rerendering
import LvmControl.Proofs.Number.Decimal
import LvmControl.Proofs.Quantity.RoundTrip
import LvmControl.Proofs.Quantity.WholeSizes
import LvmControl.Proofs.Number.Underflow
import LvmControl.Proofs.Number.Signs
import LvmControl.Proofs.Quantity.Signs
import LvmControl.Proofs.Request.Promises
import LvmControl.Proofs.Request.Determined
import LvmControl.Proofs.Client.Agreement
import LvmControl.Proofs.Lock.FiredTokens
import LvmControl.Proofs.Client.Cancellation
import LvmControl.Proofs.Client.Resolution
import LvmControl.Proofs.Process.Launch
import LvmControl.Proofs.Text.Utf8
import LvmControl.Proofs.Settings.Contents
import LvmControl.Proofs.Settings.Written
import LvmControl.Proofs.Process.Lineage
import LvmControl.Proofs.Process.Outcome
import LvmControl.Proofs.Lock.Undisturbed
import LvmControl.Proofs.Lock.Solitary
import LvmControl.Proofs.Client.Reentry
import LvmControl.Proofs.Report.Cells
import LvmControl.Proofs.Report.DeviceListing
import LvmControl.Proofs.Report.Rows
import LvmControl.Proofs.Report.Whole
import LvmControl.Proofs.Report.Written
import LvmControl.Proofs.Client.Lookup
import LvmControl.Proofs.Text.Lines
import LvmControl.Proofs.Client.Diagnostics
