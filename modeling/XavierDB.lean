import XavierDB.Auth.Access
import XavierDB.Auth.Session
import XavierDB.Base.Bincode
import XavierDB.Base.Codec
import XavierDB.Base.Paging
import XavierDB.Base.Run
import XavierDB.Base.SortedMap
import XavierDB.Base.Text
import XavierDB.Base.Zipper
import XavierDB.Config.Change
import XavierDB.Config.Crash
import XavierDB.Config.History
import XavierDB.Config.Ranges
import XavierDB.Dashboard.Archive
import XavierDB.Dashboard.Back
import XavierDB.Dashboard.Clients
import XavierDB.Dbq.CursorFilter
import XavierDB.Dbq.Cursors
import XavierDB.Dbq.Decimal
import XavierDB.Dbq.Faithful
import XavierDB.Dbq.FindDocs
import XavierDB.Dbq.Live
import XavierDB.Dbq.SingleType
import XavierDB.Error.Sanitize
import XavierDB.Log.Identity
import XavierDB.Log.Retention
import XavierDB.Log.Seq
import XavierDB.Log.Text
import XavierDB.Log.Timestamp
import XavierDB.Log.Walk
import XavierDB.Log.Window
import XavierDB.Metrics.Cap
import XavierDB.Metrics.Clients
import XavierDB.Metrics.Recovery
import XavierDB.Mongo.Filter
import XavierDB.Perms.Collections
import XavierDB.Perms.Entries
import XavierDB.Perms.Persist
import XavierDB.Perms.Save
import XavierDB.Perms.Watch
import XavierDB.Perms.Widget
import XavierDB.Routes.Browse
import XavierDB.Routes.ClientIp
import XavierDB.Routes.Command
import XavierDB.Routes.Index
import XavierDB.Routes.Upsert
import XavierDB.Settings.AdminHash
import XavierDB.Tls.Reload
