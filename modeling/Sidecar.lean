import Sidecar.SyncRun
import Sidecar.Polling
import Sidecar.Listing
import Sidecar.SharedPaths
import Sidecar.VersionCheck
import Sidecar.Isolation
import Sidecar.WholeCache
import Sidecar.Announcements
import Sidecar.FailedUpdates
import Sidecar.Reconnects
import Sidecar.FilesChanged
import Sidecar.Contact
import Sidecar.Moves
import Sidecar.UrlKeys
import Sidecar.Orphans
import Sidecar.Readded
import Sidecar.Retries
import Sidecar.FileModes
import Sidecar.UniqueNames
import Sidecar.Selection
import Sidecar.Bookkeeping
import Sidecar.StaleOrder
import Sidecar.Footprints
import Sidecar.RetryLoops
import Sidecar.Rotation
import Sidecar.Parked
import Sidecar.KindsApart
import Sidecar.Overlaps
import Sidecar.Lines
import Sidecar.BytesRepr
import Sidecar.Startup
import Sidecar.Origins
import Sidecar.Credentials
import Sidecar.JsonLines
import Sidecar.Upkeep
