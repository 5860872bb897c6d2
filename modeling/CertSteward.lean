import CertSteward.Asn1.Der
import CertSteward.Asn1.ObjectId
import CertSteward.Asn1.Time
import CertSteward.Authority.Authority
import CertSteward.Authority.Client
import CertSteward.Authority.Development
import CertSteward.Authority.Order
import CertSteward.Authority.Remote
import CertSteward.Backoff.Policy
import CertSteward.Bytes.Base64
import CertSteward.Bytes.Hex
import CertSteward.Bytes.Sha256
import CertSteward.Bytes.Unicode
import CertSteward.Challenge.Set
import CertSteward.Command.Arguments
import CertSteward.Command.Execute
import CertSteward.Config.Blocks
import CertSteward.Config.Choices
import CertSteward.Config.Fault
import CertSteward.Config.File
import CertSteward.Config.Settings
import CertSteward.Config.Validation
import CertSteward.Decimal.Shortest
import CertSteward.Dns.Credentials
import CertSteward.Dns.Http
import CertSteward.Dns.Memory
import CertSteward.Dns.Provisioning
import CertSteward.Dns.Service
import CertSteward.Domain.Name
import CertSteward.Export.Export
import CertSteward.Health.Summary
import CertSteward.Issuance.Error
import CertSteward.Issuance.Run
import CertSteward.Issuance.Settings
import CertSteward.Issuance.State
import CertSteward.Json.Convert
import CertSteward.Json.Printer
import CertSteward.Json.Reader
import CertSteward.Kdl.Document
import CertSteward.Kdl.Reader
import CertSteward.Kdl.Text
import CertSteward.Main
import CertSteward.Material.Certificate
import CertSteward.Material.Details
import CertSteward.Material.DistinguishedName
import CertSteward.Material.Key
import CertSteward.Material.Pem
import CertSteward.Material.Pkcs12
import CertSteward.Material.Request
import CertSteward.Metrics.Metrics
import CertSteward.Net.Email
import CertSteward.Net.Http
import CertSteward.Net.Punycode
import CertSteward.Proofs.Asn1.Der
import CertSteward.Proofs.Authority.Account
import CertSteward.Proofs.Authority.Attribution
import CertSteward.Proofs.Authority.Clients
import CertSteward.Proofs.Authority.Development
import CertSteward.Proofs.Authority.Orders
import CertSteward.Proofs.Authority.Safety
import CertSteward.Proofs.Authority.Statuses
import CertSteward.Proofs.Backoff.Delays
import CertSteward.Proofs.Bytes.Base64
import CertSteward.Proofs.Bytes.Utf8
import CertSteward.Proofs.Config.Agreement
import CertSteward.Proofs.Config.Construction
import CertSteward.Proofs.Config.Loading
import CertSteward.Proofs.Config.Statement
import CertSteward.Proofs.Dns.Calls
import CertSteward.Proofs.Dns.Cells
import CertSteward.Proofs.Dns.Credentials
import CertSteward.Proofs.Dns.Custody
import CertSteward.Proofs.Dns.Errand
import CertSteward.Proofs.Dns.Ledger
import CertSteward.Proofs.Dns.Makers
import CertSteward.Proofs.Dns.Making
import CertSteward.Proofs.Dns.Phases
import CertSteward.Proofs.Dns.Provided
import CertSteward.Proofs.Dns.Provisioning
import CertSteward.Proofs.Dns.Remains
import CertSteward.Proofs.Dns.Scene
import CertSteward.Proofs.Dns.Tended
import CertSteward.Proofs.Dns.Users
import CertSteward.Proofs.Dns.Values
import CertSteward.Proofs.Dns.Visits
import CertSteward.Proofs.Domain.Name
import CertSteward.Proofs.Domain.NameList
import CertSteward.Proofs.Domain.Zone
import CertSteward.Proofs.Export.Export
import CertSteward.Proofs.Health.Summary
import CertSteward.Proofs.Issuance.Aftermath
import CertSteward.Proofs.Issuance.Conclusion
import CertSteward.Proofs.Issuance.Domains
import CertSteward.Proofs.Issuance.Driving
import CertSteward.Proofs.Issuance.Exclusion
import CertSteward.Proofs.Issuance.Failures
import CertSteward.Proofs.Issuance.Orders
import CertSteward.Proofs.Issuance.Passage
import CertSteward.Proofs.Issuance.Polling
import CertSteward.Proofs.Issuance.Protocol
import CertSteward.Proofs.Issuance.Remainder
import CertSteward.Proofs.Issuance.Repetition
import CertSteward.Proofs.Issuance.Requests
import CertSteward.Proofs.Issuance.Runs
import CertSteward.Proofs.Issuance.Sequence
import CertSteward.Proofs.Issuance.Site
import CertSteward.Proofs.Issuance.Standing
import CertSteward.Proofs.Issuance.Tenure
import CertSteward.Proofs.Issuance.Trial
import CertSteward.Proofs.Material.Certificate
import CertSteward.Proofs.Material.Chain
import CertSteward.Proofs.Material.Issued
import CertSteward.Proofs.Material.Lengths
import CertSteward.Proofs.Material.Pem
import CertSteward.Proofs.Material.Request
import CertSteward.Proofs.Material.Signed
import CertSteward.Proofs.Record.Days
import CertSteward.Proofs.Record.Lifecycle
import CertSteward.Proofs.Record.Names
import CertSteward.Proofs.Record.Window
import CertSteward.Proofs.Renewal.Deferrals
import CertSteward.Proofs.Renewal.Expiry
import CertSteward.Proofs.Renewal.Knowledge
import CertSteward.Proofs.Renewal.Records
import CertSteward.Proofs.Renewal.Revocation
import CertSteward.Proofs.Renewal.Selection
import CertSteward.Proofs.Renewal.Tally
import CertSteward.Proofs.Renewal.Together
import CertSteward.Proofs.Renewal.Verdicts
import CertSteward.Proofs.Renewal.Vetting
import CertSteward.Proofs.Run.Attempts
import CertSteward.Proofs.Run.Attendance
import CertSteward.Proofs.Run.Conduct
import CertSteward.Proofs.Run.Courses
import CertSteward.Proofs.Run.Custody
import CertSteward.Proofs.Run.Following
import CertSteward.Proofs.Run.Parts
import CertSteward.Proofs.Run.Permits
import CertSteward.Proofs.Run.Rehearsal
import CertSteward.Proofs.Run.Rest
import CertSteward.Proofs.Run.Retries
import CertSteward.Proofs.Run.Rules
import CertSteward.Proofs.Run.Solo
import CertSteward.Proofs.Run.Stages
import CertSteward.Proofs.Run.Strides
import CertSteward.Proofs.Run.Weave
import CertSteward.Proofs.Store.History
import CertSteward.Proofs.Store.Interruption
import CertSteward.Proofs.Store.Lookup
import CertSteward.Proofs.Store.Refinement
import CertSteward.Proofs.Text.Chars
import CertSteward.Proofs.Time.Order
import CertSteward.Record.Check
import CertSteward.Record.Record
import CertSteward.Record.Status
import CertSteward.Record.Stored
import CertSteward.Renewal.Manage
import CertSteward.Renewal.Result
import CertSteward.Renewal.Sweep
import CertSteward.Report.Challenge
import CertSteward.Report.Configuration
import CertSteward.Report.Fault
import CertSteward.Report.Files
import CertSteward.Report.World
import CertSteward.Run.Act
import CertSteward.Run.Jobs
import CertSteward.Run.Machine
import CertSteward.Run.MutexTable
import CertSteward.Run.Permits
import CertSteward.Run.Program
import CertSteward.Run.Retry
import CertSteward.Run.World
import CertSteward.Service.Service
import CertSteward.Store.FileTree
import CertSteward.Store.Files
import CertSteward.Store.Store
import CertSteward.Time.Rfc3339
import CertSteward.Toml.Reader
import CertSteward.Toml.Scalar
