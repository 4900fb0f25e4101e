import ScrapeRelay.Discovery.Scan
import ScrapeRelay.Exposition.Family
import ScrapeRelay.Main
import ScrapeRelay.Relay.Schedule
import ScrapeRelay.Service
import ScrapeRelay.Settings
import ScrapeRelay.Sink.Lines
import ScrapeRelay.Sink.Publisher
import ScrapeRelay.Status.Page
import ScrapeRelay.Proofs.Exposition.Reference
import ScrapeRelay.Proofs.Relay.Closing
import ScrapeRelay.Proofs.Relay.History
import ScrapeRelay.Proofs.Relay.Accounts
import ScrapeRelay.Proofs.Discovery.Origins
import ScrapeRelay.Proofs.Exposition.Grammar
import ScrapeRelay.Proofs.Relay.Batches
import ScrapeRelay.Proofs.Status.SelfScrape
import ScrapeRelay.Proofs.Exposition.Prefixes
import ScrapeRelay.Proofs.Relay.Dispatch
import ScrapeRelay.Proofs.Relay.Requests
import ScrapeRelay.Proofs.Collector.Tags
import ScrapeRelay.Proofs.Relay.Courses
import ScrapeRelay.Proofs.Relay.Voices
import ScrapeRelay.Proofs.Relay.Sinks
import ScrapeRelay.Proofs.Relay.Rosters
import ScrapeRelay.Proofs.Relay.Removals
import ScrapeRelay.Proofs.Relay.Shutdown
import ScrapeRelay.Proofs.Status.Forgetting
import ScrapeRelay.Proofs.Relay.Deletions
import ScrapeRelay.Proofs.Status.Views
import ScrapeRelay.Proofs.Relay.Boards
import ScrapeRelay.Proofs.Relay.Overlaps
import ScrapeRelay.Proofs.Relay.Reporters
import ScrapeRelay.Proofs.Relay.Reports
import ScrapeRelay.Proofs.Exposition.Coverage
import ScrapeRelay.Proofs.Status.Separation
import ScrapeRelay.Proofs.Sink.Framing
import ScrapeRelay.Proofs.Settings
import ScrapeRelay.Proofs.Service.Startup
import ScrapeRelay.Proofs.Exposition.Labels
import ScrapeRelay.Proofs.Discovery.Addresses
import ScrapeRelay.Proofs.Exposition.Shuffles
import ScrapeRelay.Proofs.Exposition.Layout
import ScrapeRelay.Proofs.Discovery.Outages
import ScrapeRelay.Proofs.Discovery.Histories
import ScrapeRelay.Proofs.Relay.Rounds
import ScrapeRelay.Proofs.Json.Numerals
import ScrapeRelay.Proofs.Json.ReadBack
import ScrapeRelay.Proofs.Timestamp.Calendar
import ScrapeRelay.Proofs.Document.ReadBack
import ScrapeRelay.Proofs.Encoder
import ScrapeRelay.Proofs.Decimal.Order
import ScrapeRelay.Proofs.Filter
import ScrapeRelay.Proofs.Discovery.Documents
import ScrapeRelay.Proofs.Discovery.Narrowing
import ScrapeRelay.Proofs.Collector.Documents
import ScrapeRelay.Proofs.Exposition.Representation
