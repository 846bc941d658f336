import BigDb.Cluster.Exchange
import BigDb.Cluster.Undo
import BigDb.Cluster.Disruption
import BigDb.Cluster.Election
import BigDb.Cluster.LostUpdate
import BigDb.Cluster.Routing
import BigDb.Cluster.Move
import BigDb.Cluster.Replicas
import BigDb.Cluster.Repairing
import BigDb.Cluster.Digest
import BigDb.Cluster.Allocation
import BigDb.Cluster.Removal
import BigDb.Cluster.Lineage
import BigDb.Cluster.Promotion
import BigDb.Db.Writers
import BigDb.Db.Mutex
import BigDb.Db.Like
import BigDb.Sql.Run
import BigDb.Sql.Meaning
import BigDb.Pager.Recovery
import BigDb.Pager.Accounting
import BigDb.Pager.Reopen
import BigDb.Embed.Draining
import BigDb.Embed.Guards
import BigDb.Embed.Quantile
import BigDb.Proxy.Send
