import Roster.Address.Basic
import Roster.Address.Reader
import Roster.Address.Writer
import Roster.Candidates
import Roster.Clock
import Roster.Config.Basic
import Roster.Config.Properties
import Roster.Directory.Basic
import Roster.Directory.Dns
import Roster.Directory.Pods
import Roster.Directory.Rehearsed
import Roster.Directory.Static
import Roster.Duration
import Roster.Engine.Control
import Roster.Engine.Session
import Roster.Engine.State
import Roster.Engine.Turn
import Roster.Error
import Roster.Journal
import Roster.Json.Decode
import Roster.Json.Token
import Roster.Json.Tree
import Roster.Json.Value
import Roster.KeyMap
import Roster.Members.Backoff
import Roster.Members.Listener
import Roster.Members.Reconcile
import Roster.Members.Recorder
import Roster.Members.Slots
import Roster.Members.State
import Roster.Partition
import Roster.Peer
import Roster.Policy
import Roster.Proofs.Alike
import Roster.Proofs.Chronicle
import Roster.Proofs.Counters
import Roster.Proofs.Cycle
import Roster.Proofs.Ending
import Roster.Proofs.Epochs
import Roster.Proofs.Exclusion
import Roster.Proofs.Flight
import Roster.Proofs.Freshness
import Roster.Proofs.Isolation
import Roster.Proofs.Jobs
import Roster.Proofs.Listing
import Roster.Proofs.Moves
import Roster.Proofs.Newcomers
import Roster.Proofs.Orderly
import Roster.Proofs.Outage
import Roster.Proofs.Outcomes
import Roster.Proofs.Persistence
import Roster.Proofs.Polling
import Roster.Proofs.Precedence
import Roster.Proofs.Reconcile
import Roster.Proofs.Session
import Roster.Proofs.Sound
import Roster.Proofs.Standing
import Roster.Proofs.Step
import Roster.Proofs.Timers
import Roster.Proofs.Turns
import Roster.Proofs.View
import Roster.Proofs.Works
import Roster.Retry
import Roster.Selector
import Roster.Stats
import Roster.Stored.Config
import Roster.Stored.Record
import Roster.Stored.Selector
import Roster.Text.Blank
import Roster.Text.Decimal
import Roster.Text.Percent
import Roster.Text.Quoted
import Roster.Text.Unprintable
import Roster.Proofs.Series
import Roster.Proofs.Books
import Roster.Proofs.Outline
import Roster.Proofs.Rearranged
import Roster.Proofs.Doubling
import Roster.Proofs.Offers
import Roster.Proofs.Spelling
import Roster.Proofs.PodRecords
import Roster.Proofs.Settings
import Roster.Proofs.Rules
import Roster.Proofs.Texts
import Roster.Proofs.ServiceRecords
import Roster.Proofs.Recognition
import Roster.Proofs.Timetable
import Roster.Proofs.JsonText
import Roster.Proofs.Storage
import Roster.Proofs.RequestPath
import Roster.Proofs.Restart
import Roster.Proofs.Edits
import Roster.Proofs.Tidy
