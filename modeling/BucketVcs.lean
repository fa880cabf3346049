import BucketVcs.Auth.Aliases
import BucketVcs.AuthReplica.Lease
import BucketVcs.BuildTrigger.Reconcile
import BucketVcs.Deliveries.Terminal
import BucketVcs.Gateway.AttemptBound
import BucketVcs.Gc.Freshness
import BucketVcs.Gc.LiveRoot
import BucketVcs.Gitbrowse
import BucketVcs.Gitcli
import BucketVcs.Lfs.Collector
import BucketVcs.Lfs.Quota
import BucketVcs.Lfs.Upload
import BucketVcs.Localfs.Cache
import BucketVcs.Manifest.Spelling
import BucketVcs.Mirror.Sentinel
import BucketVcs.Oidc
import BucketVcs.Pack.Delta
import BucketVcs.Pack.Idx
import BucketVcs.Policy.Paths
import BucketVcs.ReceivePack.Protected
import BucketVcs.Replica.Controller
import BucketVcs.Repo.CommitSafety
import BucketVcs.Revocation.Connections
import BucketVcs.Shiplog.Spool
import BucketVcs.Web.SafeNext
import BucketVcs.Writers.CompactOnly
import BucketVcs.Writers.ObjectMaps
