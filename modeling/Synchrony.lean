import Synchrony.ActionRef
import Synchrony.Application
import Synchrony.Await
import Synchrony.Burst
import Synchrony.Cli.Arguments
import Synchrony.Cli.Help
import Synchrony.Cli.Run
import Synchrony.Cli.Table
import Synchrony.Concepts.Arguments
import Synchrony.Concepts.ListCreation
import Synchrony.Concepts.Notifying
import Synchrony.Concepts.Requesting
import Synchrony.Config
import Synchrony.Config.File
import Synchrony.Config.Format
import Synchrony.Double
import Synchrony.Double.Shortest
import Synchrony.Engine
import Synchrony.Files
import Synchrony.Foreground
import Synchrony.Host
import Synchrony.Http.Call
import Synchrony.Http.Response
import Synchrony.Http.Target
import Synchrony.Http.Uri
import Synchrony.KeyMap
import Synchrony.KeyMap.Lookup
import Synchrony.Log
import Synchrony.Matching
import Synchrony.Pattern
import Synchrony.Record
import Synchrony.Registry
import Synchrony.Route
import Synchrony.Rule
import Synchrony.RuleTable
import Synchrony.Slots
import Synchrony.Store
import Synchrony.Store.Durable
import Synchrony.Store.Either
import Synchrony.Store.Volatile
import Synchrony.Text.Blank
import Synchrony.Text.Upper
import Synchrony.Timestamp
import Synchrony.Value
import Synchrony.Value.Reader
import Synchrony.Value.Text
import Synchrony.Work
import Synchrony.World
import Synchrony.Yaml.Cursor
import Synchrony.Yaml.Node
import Synchrony.Yaml.Number
import Synchrony.Yaml.Scalar
import Synchrony.Yaml.Token
import Synchrony.Yaml.Written
import Synchrony.Main
import Synchrony.Proofs.Matching.Fits
import Synchrony.Proofs.Matching.Search
import Synchrony.Proofs.Matching.Completion
import Synchrony.Proofs.RuleTable.Installed
import Synchrony.Proofs.Burst.Traffic
import Synchrony.Proofs.Burst.Course
import Synchrony.Proofs.Burst.Consistency
import Synchrony.Proofs.Burst.Firings
import Synchrony.Proofs.Burst.Walk
import Synchrony.Proofs.Burst.Relabel
import Synchrony.Proofs.Burst.Alone
import Synchrony.Proofs.Slots.Account
import Synchrony.Proofs.Slots.Response
import Synchrony.Proofs.Burst.Evaluation
import Synchrony.Proofs.Burst.Lineage
import Synchrony.Proofs.Burst.Cycle
import Synchrony.Proofs.Burst.Limits
import Synchrony.Proofs.Burst.Bounds
import Synchrony.Proofs.Route.Paths
import Synchrony.Proofs.Route.Rules
import Synchrony.Proofs.Route.Completion
import Synchrony.Proofs.Route.Table
import Synchrony.Proofs.Burst.Thread
import Synchrony.Proofs.Route.Answering
import Synchrony.Proofs.Store.Agreement
import Synchrony.Proofs.World.Drive
import Synchrony.Proofs.Application.Actions
import Synchrony.Proofs.Application.Rules
import Synchrony.Proofs.Application.Answering
import Synchrony.Proofs.Burst.Calls
import Synchrony.Proofs.Http.Server
import Synchrony.Proofs.Slots.Frame
import Synchrony.Proofs.Http.Returns
import Synchrony.Proofs.Http.Look
import Synchrony.Proofs.Http.Served
import Synchrony.Proofs.Http.Requests
import Synchrony.Proofs.Http.Responds
import Synchrony.Proofs.Http.Answers
import Synchrony.Proofs.Http.Leaks
import Synchrony.Proofs.Matching.Newest
import Synchrony.Proofs.Matching.Anchors
import Synchrony.Proofs.Http.Servable
import Synchrony.Proofs.Burst.Tracking
import Synchrony.Proofs.Http.Interrupted
import Synchrony.Proofs.Matching.Order
import Synchrony.Proofs.Matching.Unification
import Synchrony.Proofs.Files.Writing
import Synchrony.Proofs.RuleTable.Index
import Synchrony.Proofs.RuleTable.Upkeep
import Synchrony.Proofs.Burst.Replacement
import Synchrony.Proofs.Registry.Reflection
import Synchrony.Proofs.Value.Reading
import Synchrony.Proofs.Store.Contents
import Synchrony.Proofs.Work.Resources
import Synchrony.Proofs.Work.Steps
import Synchrony.Proofs.ListCreation.Entries
import Synchrony.Proofs.ListCreation.Stored
import Synchrony.Proofs.ListCreation.Effects
import Synchrony.Proofs.ListCreation.Desk
import Synchrony.Proofs.ListCreation.History
import Synchrony.Proofs.ListCreation.Queries
import Synchrony.Proofs.ListCreation.Guarantee
import Synchrony.Proofs.ListCreation.Undoing
import Synchrony.Proofs.World.Replay
import Synchrony.Proofs.Store.Identifiers
import Synchrony.Proofs.Work.Uses
import Synchrony.Proofs.ListCreation.Creation
import Synchrony.Proofs.Notifying.Sending
import Synchrony.Proofs.Application.Concepts
import Synchrony.Proofs.Application.Notice
import Synchrony.Proofs.Application.Reached
import Synchrony.Proofs.Application.Handling
import Synchrony.Proofs.Application.Owners
import Synchrony.Proofs.Application.Announcements
import Synchrony.KeyMap.Keys
import Synchrony.Proofs.Log.Events
import Synchrony.Proofs.Route.Names
import Synchrony.Proofs.Http.Nested
import Synchrony.Proofs.Value.Numbers
import Synchrony.Proofs.Value.Decimals
import Synchrony.Proofs.Value.Identity
import Synchrony.Proofs.Config.Chosen
import Synchrony.Proofs.Config.Passthrough
import Synchrony.Proofs.Yaml.Parsing
import Synchrony.Proofs.Yaml.Plain
import Synchrony.Proofs.Yaml.Quoted
import Synchrony.Proofs.Yaml.Literal
import Synchrony.Proofs.Yaml.Scanning
import Synchrony.Proofs.Yaml.Printable
import Synchrony.Proofs.Config.Scanned
import Synchrony.Proofs.Config.Saved
import Synchrony.Proofs.Store.Listing
import Synchrony.Proofs.Work.Listing
import Synchrony.Proofs.Notifying.Answers
import Synchrony.Proofs.Notifying.Deliveries
import Synchrony.Proofs.Notifying.Inbox
