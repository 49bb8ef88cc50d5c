import CollabIDE.Persistence.LoadRace
import CollabIDE.Persistence.SharedLog
import CollabIDE.Persistence.Conservation
import CollabIDE.Persistence.LastFlush
import CollabIDE.Persistence.DerivedText
import CollabIDE.Persistence.Coverage
import CollabIDE.Persistence.Retries
import CollabIDE.Runner.Worker
import CollabIDE.Runner.Staging
import CollabIDE.Runner.Outcome
import CollabIDE.Execution.Wire
import CollabIDE.Execution.Streams
import CollabIDE.Execution.Opens
import CollabIDE.Projects.Members
import CollabIDE.Files.Orphans
import CollabIDE.Files.TreeShape
import CollabIDE.Collab.Visits
import CollabIDE.Collab.Registry
import CollabIDE.Collab.Convergence
import CollabIDE.Collab.Seeding
import CollabIDE.Collab.Revocation
import CollabIDE.Collab.Upgrades
import CollabIDE.Collab.Door
import CollabIDE.Collab.FanOut
import CollabIDE.Collab.FlushAll
import CollabIDE.Collab.Offline
import CollabIDE.Collab.Presence
import CollabIDE.Collab.Connection
import CollabIDE.Collab.FailedRooms
import CollabIDE.Http.App
import CollabIDE.Shared.DocIds
import CollabIDE.Search.Highlight
import CollabIDE.Search.Ranking
import CollabIDE.Search.ContentMatch
import CollabIDE.Search.TreeFilter
import CollabIDE.Search.SearchEnds
import CollabIDE.Editor.Bindings
import CollabIDE.Execution.Output
import CollabIDE.Terminal.RunStream
import CollabIDE.Auth.Accounts
import CollabIDE.Projects.Owners
import CollabIDE.Http.Policy
import CollabIDE.Runner.Sweeps
