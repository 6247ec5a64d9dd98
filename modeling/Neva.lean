import Neva.Calls.Prog
import Neva.Calls.System
import Neva.Calls.Contract
import Neva.Calls.Ensures
import Neva.Calls.Alone
import Neva.Raising
import Neva.Tables
import Neva.Earliest
import Neva.Separated
import Neva.Dict
import Neva.Shuffle
import Neva.Ranks
import Neva.Window
import Neva.Words
import Neva.Argparse
import Neva.Json.Value
import Neva.Json.Loads
import Neva.Json.Torn
import Neva.Json.Stored
import Neva.Schema
import Neva.Rendering
import Neva.Game.Languages
import Neva.Game.Labels
import Neva.Game.Config
import Neva.Game.Store
import Neva.Game.Join
import Neva.Game.Postgres
import Neva.Game.Memory
import Neva.Game.Matching
import Neva.Game.State
import Neva.Game.Version
import Neva.Game.Nicknames
import Neva.Game.Metrics
import Neva.Game.StoreContract
import Neva.Gemini.ModelGate
import Neva.Worker.Fingerprint
import Neva.Worker.Triage
import Neva.Worker.Golden
import Neva.Venue
import Neva.Deeds
import Neva.Turns
import Neva.Pact
import Neva.Play.OnePair
import Neva.Play.Lifecycle
import Neva.Play.Cap
import Neva.Play.HandOff
import Neva.Play.Accepted
import Neva.Play.AudioFile
import Neva.Play.Progress
import Neva.Play.Polling
import Neva.Play.Options
import Neva.Play.Ranking
import Neva.Play.LastResult
import Neva.Worker.Duplicates
import Neva.Worker.Retriage
import Neva.Worker.Jobs
import Neva.Worker.Completed
import Neva.Worker.Attempts
import Neva.Worker.Corpus
import Neva.Worker.TornTail
import Neva.Worker.Export
import Neva.Worker.ExactlyOnce
import Neva.Play.CostMetric
import Neva.Tune.Prepare
import Neva.Tune.Admin
import Neva.Tune.Supervisor
import Neva.Tune.Understood
import Neva.Deckgen.Concepts
import Neva.Deckgen.Review
import Neva.Deckgen.Requests
import Neva.Deckgen.Invention
import Neva.Deckgen.Translation
import Neva.Deckgen.Decoys
import Neva.Deckgen.Decks
import Neva.Deckgen.Build
import Neva.Deckgen.Publication
import Neva.Deckgen.Published
import Neva.Deckgen.Authorship
import Neva.Deckgen.AuthorshipKept
import Neva.Deckgen.Statuses
import Neva.Deckgen.OneLive
import Neva.Deckgen.Handlers
import Neva.Deckgen.Undisturbed
import Neva.Deckgen.Finished
import Neva.Deckgen.Integrity
import Neva.Json.Indented
import Neva.Ops.Trees
import Neva.Ops.Manifest
import Neva.Digests
import Neva.Ops.Integrity
import Neva.Ops.Exact
import Neva.Apportion
import Neva.Grouping
import Neva.Tune.Split
import Neva.Framed
import Neva.Tune.Digest
import Neva.Gemini.Redaction
import Neva.Web.PairRetry
import Neva.Web.Recorder
import Neva.Links
import Neva.Ops.Paths
import Neva.Calls.Always
import Neva.Tune.Processing
import Neva.Tune.Confinement
import Neva.Calls.Histories
import Neva.Deckgen.Images
import Neva.Deckgen.Accounting
import Neva.Json.Loaded
import Neva.Ops.Copies
import Neva.Ops.Index
import Neva.Ops.Finalized
import Neva.Ops.RoundTrip
import Neva.Migrations
import Neva.Ops.Acceptance
import Neva.Play.Alternation
import Neva.Play.Views
import Neva.Play.Points
import Neva.Gemini.Retries
import Neva.Tune.Queue
import Neva.Worker.Rotation
import Neva.Game.Remap
import Neva.Game.Sessions
import Neva.Play.Cards
import Neva.Play.Company
import Neva.Worker.Draining
import Neva.Tune.Attendance
