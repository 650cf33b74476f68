import CloudArchive.GoStrings
import CloudArchive.FilePath
import CloudArchive.Tags.TagMan
import CloudArchive.Tags.Load
import CloudArchive.Tags.Dict
import CloudArchive.Tags.Format
import CloudArchive.Tags.Invariant
import CloudArchive.Tags.Persist
import CloudArchive.Tags.Manager
import CloudArchive.Tags.Merge
import CloudArchive.Tags.Alloc
import CloudArchive.Tags.Closed
import CloudArchive.ShardPacker.Gob
import CloudArchive.ShardPacker.Codec
import CloudArchive.ShardPacker.RoundTrip
import CloudArchive.ShardPacker.Accept
import CloudArchive.Util.UploadTracker
import CloudArchive.Util.Shard
import CloudArchive.Store.Upload
import CloudArchive.Store.Pipeline
import CloudArchive.Store.Filestore
import CloudArchive.Store.ShardDir
import CloudArchive.Store.RoundTrip
import CloudArchive.Store.HandlerClean
import CloudArchive.Store.TagRequests
import CloudArchive.Store.Timeframe
import CloudArchive.Auth.Passwd
import CloudArchive.Auth.Users
import CloudArchive.Auth.Table
import CloudArchive.Store.Resolve
import CloudArchive.Store.FtpTags
import CloudArchive.Store.FtpPull
import CloudArchive.Store.FtpHealthy
import CloudArchive.Webserver.Auth
import CloudArchive.Store.Indexes
import CloudArchive.Webserver.Routes
import CloudArchive.Webserver.RateTimeout
import CloudArchive.Server.Config
import CloudArchive.Client.PushShard
