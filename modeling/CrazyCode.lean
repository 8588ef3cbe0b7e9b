import CrazyCode.Library.Text
import CrazyCode.Library.Quoted
import CrazyCode.Library.Segments
import CrazyCode.Library.Decimal
import CrazyCode.Library.Outcome
import CrazyCode.Library.Recogniser
import CrazyCode.Library.Run
import CrazyCode.Library.Interleaving
import CrazyCode.Library.FileSystem
import CrazyCode.Config.Lexer
import CrazyCode.Config.Reading
import CrazyCode.Config.Tree
import CrazyCode.Config.Parser
import CrazyCode.Config.Termination
import CrazyCode.Config.Acceptance
import CrazyCode.Config.Printer
import CrazyCode.Config.ListenPort
import CrazyCode.Profile.Manager
import CrazyCode.Profile.Records
import CrazyCode.Profile.Database
import CrazyCode.Profile.Accounts
import CrazyCode.Profile.Emails
import CrazyCode.Profile.Ids
import CrazyCode.Profile.Concurrent
import CrazyCode.Profile.Throws
import CrazyCode.Profile.HashPass
import CrazyCode.Server.Message
import CrazyCode.Server.Router
import CrazyCode.Server.Locations
import CrazyCode.Server.Routes
import CrazyCode.Server.Safety
import CrazyCode.Server.Replies
import CrazyCode.Server.Logs
import CrazyCode.Static.Handler
import CrazyCode.Api.Handler
import CrazyCode.Api.Index
import CrazyCode.Api.Entries
import CrazyCode.Api.Scan
import CrazyCode.Api.Store
import CrazyCode.Api.Invariant
import CrazyCode.Api.Runs
import CrazyCode.Api.Crud
import CrazyCode.Api.Exact
import CrazyCode.Api.Refusal
import CrazyCode.Api.Refinement
import CrazyCode.Api.Agreement
import CrazyCode.Api.Lists
import CrazyCode.Api.Served
import CrazyCode.Api.Overflow
import CrazyCode.Api.Listing
import CrazyCode.Api.Stored
import CrazyCode.Api.Lowest
import CrazyCode.Api.Sorted
import CrazyCode.Api.Concurrent
import CrazyCode.Api.Containment
import CrazyCode.Api.Effects
import CrazyCode.Api.Shared
import CrazyCode.Api.Restarts
import CrazyCode.Session.Authentication
import CrazyCode.Session.Session
import CrazyCode.Session.Decoding
import CrazyCode.Session.Cookie
import CrazyCode.Session.Verification
import CrazyCode.Server.Configured
import CrazyCode.Http.RequestParser
import CrazyCode.Http.Grammar
import CrazyCode.Http.Reading
import CrazyCode.Http.Recognition
import CrazyCode.Http.Pieces
import CrazyCode.Site.Server
import CrazyCode.Site.Files
import CrazyCode.Site.Accounts
import CrazyCode.Site.Stores
import CrazyCode.Site.Progress
import CrazyCode.Site.Traces
import CrazyCode.Site.Connections
import CrazyCode.Site.Startup
import CrazyCode.Site.Lives
