import GroundLink.Autopilot
import GroundLink.Command.Attempt
import GroundLink.Command.Request
import GroundLink.Config.Basic
import GroundLink.Config.Document
import GroundLink.Engine.Basic
import GroundLink.Engine.Hub
import GroundLink.Engine.JobQueue
import GroundLink.Engine.Link
import GroundLink.Engine.Order
import GroundLink.Engine.Polling
import GroundLink.Failure
import GroundLink.Fifo
import GroundLink.Handlers
import GroundLink.Job.Move
import GroundLink.Job.Task
import GroundLink.Main
import GroundLink.Message.Basic
import GroundLink.Message.Code
import GroundLink.Mission.Item
import GroundLink.Mission.Plan
import GroundLink.Network.Address
import GroundLink.Network.Udp
import GroundLink.Number.Binary
import GroundLink.Number.Decimal
import GroundLink.Proofs.Acceptance
import GroundLink.Proofs.Alarm
import GroundLink.Proofs.Attendance
import GroundLink.Proofs.Bench
import GroundLink.Proofs.Budget
import GroundLink.Proofs.Bystander
import GroundLink.Proofs.Collecting
import GroundLink.Proofs.CommandAgreement
import GroundLink.Proofs.CommandAnswers
import GroundLink.Proofs.CommandSteps
import GroundLink.Proofs.Completion
import GroundLink.Proofs.Conduct
import GroundLink.Proofs.Contract
import GroundLink.Proofs.Counters
import GroundLink.Proofs.Course
import GroundLink.Proofs.CurrentItem
import GroundLink.Proofs.Datagrams
import GroundLink.Proofs.Deed
import GroundLink.Proofs.Desk
import GroundLink.Proofs.Dispatching
import GroundLink.Proofs.DownloadAgreement
import GroundLink.Proofs.DownloadConvergence
import GroundLink.Proofs.Drive
import GroundLink.Proofs.Exchange
import GroundLink.Proofs.FetchAgreement
import GroundLink.Proofs.Follow
import GroundLink.Proofs.History
import GroundLink.Proofs.Ignorable
import GroundLink.Proofs.Isolation
import GroundLink.Proofs.Leftovers
import GroundLink.Proofs.Line
import GroundLink.Proofs.ListTraffic
import GroundLink.Proofs.Lockstep
import GroundLink.Proofs.Log
import GroundLink.Proofs.Moves
import GroundLink.Proofs.Noninterference
import GroundLink.Proofs.Patience
import GroundLink.Proofs.PlanItems
import GroundLink.Proofs.PostingOrder
import GroundLink.Proofs.ProgressReports
import GroundLink.Proofs.Provenance
import GroundLink.Proofs.Queries
import GroundLink.Proofs.QueryBounds
import GroundLink.Proofs.Reception
import GroundLink.Proofs.Reporting
import GroundLink.Proofs.Respite
import GroundLink.Proofs.Retries
import GroundLink.Proofs.Screening
import GroundLink.Proofs.Silence
import GroundLink.Proofs.SilentPeers
import GroundLink.Proofs.Simulation
import GroundLink.Proofs.SingleFile
import GroundLink.Proofs.SoleTransfer
import GroundLink.Proofs.Strike
import GroundLink.Proofs.Subscription
import GroundLink.Proofs.Taking
import GroundLink.Proofs.Teardown
import GroundLink.Proofs.TimeoutRange
import GroundLink.Proofs.TimerLife
import GroundLink.Proofs.TimerPass
import GroundLink.Proofs.TimerScene
import GroundLink.Proofs.Timers
import GroundLink.Proofs.UploadAgreement
import GroundLink.Proofs.UploadCompletion
import GroundLink.Proofs.UploadProgress
import GroundLink.Proofs.UploadTraffic
import GroundLink.Proofs.VehicleLists
import GroundLink.Proofs.View
import GroundLink.Proofs.Withdrawal
import GroundLink.Proofs.Work
import GroundLink.Script.Clock
import GroundLink.Script.Handlers
import GroundLink.Script.Polling
import GroundLink.Script.Queue
import GroundLink.Script.Session
import GroundLink.Script.Timers
import GroundLink.Script.Udp
import GroundLink.Script.Vehicle
import GroundLink.Time.Clock
import GroundLink.Time.Span
import GroundLink.Time.Timers
import GroundLink.Toml.Document
import GroundLink.Toml.Field
import GroundLink.Toml.Node
import GroundLink.Toml.Number
import GroundLink.Toml.Text
import GroundLink.Tool.Arguments
import GroundLink.Tool.Folder
import GroundLink.Tool.Help
import GroundLink.Tool.Run
import GroundLink.Transfer.Collection
import GroundLink.Transfer.Control
import GroundLink.Transfer.Upload
import GroundLink.Vehicle.Basic
import GroundLink.Vehicle.Mission
import GroundLink.Vehicle.Round
import GroundLink.Worker
