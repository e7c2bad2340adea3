import Traintime.Core.Ojp.Timestamps
import Traintime.Core.Ojp.Escaping
import Traintime.Core.Ojp.Namespaces
import Traintime.CachePaths
import Traintime.Core.Auth
import Traintime.Core.BoundingBox
import Traintime.Core.Favourites
import Traintime.Core.Ojp.Request
import Traintime.Monitor
import Traintime.Monitor.Parity
import Traintime.Routes.CacheKeys
import Traintime.Routes.Departures
import Traintime.Routes.Nearby
import Traintime.Server.Fetch.Freshness
import Traintime.Server.Fetch.Joined
import Traintime.Server.Fetch.Provenance
import Traintime.Server.Memcached.Framing
import Traintime.Server.Memcached.Ownership
import Traintime.Routes.NearbyLog
import Traintime.Routes.NearbyResponse
import Traintime.Routes.FormationUrl
import Traintime.Scripts.DiffStations
import Traintime.Core.Formation.Output
import Traintime.Server.Cache.Isolation
import Traintime.StaleWindow
import Traintime.Server.Memcached.Replies
import Traintime.Lib.Js
import Traintime.Monitor.Verdicts
import Traintime.Core.Ojp.Elements
import Traintime.Lib.Xml.Parts
import Traintime.Server.Memcached.SkipWindow
import Traintime.Server.Fetch.Progress
import Traintime.Lib.Json.Reader
import Traintime.Routes.Boards
import Traintime.Routes.Formations
import Traintime.Routes.NearbyBoards
import Traintime.Scripts.SeedRuns
import Traintime.Core.Ojp.Patterns
import Traintime.Core.Ojp.Leaves
import Traintime.Monitor.Writes
import Traintime.Server.Fetch.Memory
import Traintime.FrontDoor
import Traintime.Core.Formation.Boundaries
