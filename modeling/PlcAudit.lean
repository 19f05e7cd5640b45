import PlcAudit.Console.Report
import PlcAudit.Session
import PlcAudit.Settings.Document
import PlcAudit.Checker
import PlcAudit.CommandLine.Arguments
import PlcAudit.CommandLine.Basic
import PlcAudit.Main
import PlcAudit.Proofs.Session.Phases
import PlcAudit.Proofs.Session.Runs
import PlcAudit.Proofs.Report.Arrangement
import PlcAudit.Proofs.Entry.Strictness
import PlcAudit.Proofs.Entry.Acceptance
import PlcAudit.Proofs.Session.Refusals
import PlcAudit.Proofs.Session.Reports
import PlcAudit.Proofs.Session.Schedules
import PlcAudit.Proofs.Session.Requests
import PlcAudit.Proofs.Session.Publications
import PlcAudit.Proofs.Session.Calls
import PlcAudit.Proofs.Checker.Resolution
import PlcAudit.Proofs.Json.RoundTrip
import PlcAudit.Proofs.Report.FixedPoint
import PlcAudit.Proofs.Report.Comparison
import PlcAudit.Proofs.CommandLine.Intake
import PlcAudit.Proofs.CommandLine.Contract
import PlcAudit.Proofs.Settings.RoundTrip
import PlcAudit.Proofs.Console.ReadBack
import PlcAudit.Proofs.Console.Colour
import PlcAudit.Proofs.Console.Options
import PlcAudit.Proofs.Request.Wire
import PlcAudit.Proofs.Report.Splitting
import PlcAudit.Proofs.Entry.Spread
import PlcAudit.Proofs.Report.Tallies
import PlcAudit.Proofs.Source.Joining
import PlcAudit.Proofs.Source.Reading
import PlcAudit.Proofs.Settings.Reloading
import PlcAudit.Proofs.Command.Rules
import PlcAudit.Proofs.Command.Quoting
import PlcAudit.Proofs.Console.Bars
