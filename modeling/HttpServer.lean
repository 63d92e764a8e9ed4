import HttpServer.Library.Unicode
import HttpServer.Library.Numerals
import HttpServer.Library.OrderedMap
import HttpServer.Library.StateRun
import HttpServer.Text
import HttpServer.RequestHeaders
import HttpServer.Framing.Fields
import HttpServer.Core.Request
import HttpServer.Framing.Connection
import HttpServer.Framing.Lines
import HttpServer.Framing.Head
import HttpServer.Framing.Body
import HttpServer.Framing.Session
import HttpServer.Server.Proxy
import HttpServer.Server.Forwarding
import HttpServer.Core.Config
import HttpServer.Core.Security
import HttpServer.Core.Cache
import HttpServer.Core.Range
import HttpServer.Core.Mime
import HttpServer.Library.Dialogue
import HttpServer.StaticPlan.Plan
import HttpServer.StaticPlan.Runs
import HttpServer.StaticPlan.Regions
import HttpServer.StaticPlan.Confinement
import HttpServer.StaticPlan.Splitting
import HttpServer.CAbi.Memory
import HttpServer.CAbi.Frames
import HttpServer.CAbi.Accounts
import HttpServer.CAbi.Ledger
import HttpServer.Library.Transition
import HttpServer.CAbi.Bridge
import HttpServer.CAbi.Runtime
import HttpServer.CAbi.Tickets
import HttpServer.CAbi.Lifecycle
import HttpServer.CAbi.Calls
import HttpServer.CAbi.Work
import HttpServer.CAbi.Custody
import HttpServer.CAbi.Steps
import HttpServer.CAbi.Conservation
import HttpServer.CAbi.Exhaustion
import HttpServer.CAbi.Dormancy
import HttpServer.CAbi.Notices
import HttpServer.CAbi.Wakeups
import HttpServer.CAbi.Scopes
import HttpServer.CAbi.Retirement
import HttpServer.CAbi.Progress
import HttpServer.CAbi.Rest
import HttpServer.CAbi.Completion
import HttpServer.CAbi.Attention
import HttpServer.CAbi.Ending
import HttpServer.StaticPlan.Positions
import HttpServer.Core.FieldValues
import HttpServer.StaticPlan.Replies
import HttpServer.StaticPlan.Lengths
import HttpServer.StaticPlan.Encodings
import HttpServer.StaticPlan.Mirror
import HttpServer.StaticPlan.Siblings
import HttpServer.StaticPlan.Negotiation
import HttpServer.StaticPlan.Fallback
import HttpServer.Core.Routing
import HttpServer.Engine.Handle
import HttpServer.Server.Dispatch
import HttpServer.Server.PolicyGate
import HttpServer.Native.Executor
import HttpServer.Native.Counters
import HttpServer.Native.Service
import HttpServer.Native.Delivery
import HttpServer.Native.Safety
import HttpServer.Native.Credits
import HttpServer.Native.Notification
import HttpServer.Core.Credentials
import HttpServer.Library.LexicalPath
import HttpServer.Library.Percent
import HttpServer.Core.Resolution
import HttpServer.Library.FileTree
import HttpServer.Native.Components
import HttpServer.Framing.Fragments
import HttpServer.FrontEnds.Agreement
import HttpServer.Server.Replies
import HttpServer.Engine.Planned
import HttpServer.Server.Parity
import HttpServer.Server.Injection
import HttpServer.Core.Dates
import HttpServer.StaticPlan.Timestamps
import HttpServer.StaticPlan.Types
import HttpServer.Core.DateParsing
import HttpServer.Core.RealDates
import HttpServer.Core.DateForms
import HttpServer.Core.RangeForms
import HttpServer.Library.Groups
import HttpServer.Core.Overlong
import HttpServer.Core.Validators
import HttpServer.StaticPlan.Revalidation
import HttpServer.Engine.Roots
import HttpServer.Engine.Bodies
import HttpServer.Engine.Reading
import HttpServer.Engine.Transfers
import HttpServer.Server.Chunking
import HttpServer.Core.Base64
import HttpServer.StaticPlan.Weights
import HttpServer.StaticPlan.Markup
import HttpServer.Library.Tags
import HttpServer.StaticPlan.Placement
import HttpServer.StaticPlan.Rows
import HttpServer.StaticPlan.Redirects
import HttpServer.Core.Mounts
import HttpServer.StaticPlan.Origins
import HttpServer.StaticPlan.Mounting
import HttpServer.Engine.Entries
import HttpServer.Library.References
import HttpServer.StaticPlan.Links
import HttpServer.Server.HeaderNames
import HttpServer.Library.Messages
import HttpServer.Server.Wire
import HttpServer.Server.Delimiting
import HttpServer.Server.Sessions
import HttpServer.Cmd.Parse
import HttpServer.Server.Addresses
import HttpServer.Core.Rewriting
import HttpServer.Server.Targets
import HttpServer.Library.Bits
import HttpServer.Library.Sha1
import HttpServer.Server.WebSocketAccept
import HttpServer.FrontEnds.Settings
import HttpServer.Library.Updates
import HttpServer.FrontEnds.Configurations
import HttpServer.FrontEnds.Bridge
import HttpServer.Library.Depth
import HttpServer.StaticPlan.Depth
import HttpServer.FrontEnds.Serials
import HttpServer.Library.Descriptors
import HttpServer.Native.Handles
import HttpServer.Engine.Collecting
import HttpServer.Library.PathWalk
import HttpServer.Native.Portable
import HttpServer.Library.Cells
import HttpServer.Library.Fifo
import HttpServer.Tls.Rings
import HttpServer.Tls.Transport
import HttpServer.Tls.Gates
import HttpServer.Tls.Delivery
import HttpServer.Library.Routines
import HttpServer.Engine.Shared
import HttpServer.Engine.Calls
import HttpServer.Engine.Holdings
import HttpServer.Engine.Ledgers
import HttpServer.Engine.Moves
import HttpServer.Engine.Registry
import HttpServer.Engine.Turns
import HttpServer.Engine.Conduct
import HttpServer.Engine.Usage
import HttpServer.Engine.Lifetimes
import HttpServer.Engine.Guarantees
import HttpServer.Engine.Lifecycle
