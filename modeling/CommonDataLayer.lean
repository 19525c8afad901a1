import CommonDataLayer.DataRouter.AtLeastOnce
import CommonDataLayer.DataRouter.Entries
import CommonDataLayer.DataRouter.Failures
import CommonDataLayer.MessageOrdering
import CommonDataLayer.Versions
import CommonDataLayer.SchemaRegistry.Redelivery
import CommonDataLayer.SchemaRegistry.ReplicationOrder
import CommonDataLayer.SchemaRegistry.ReplicationWorkers
import CommonDataLayer.SchemaRegistry.FailedRequests
import CommonDataLayer.SchemaRegistry.VersionHistory
import CommonDataLayer.SchemaRegistry.ClosedDefinitions
import CommonDataLayer.SchemaRegistry.WholeImport
import CommonDataLayer.SchemaRegistry.ConcurrentVersions
import CommonDataLayer.SchemaRegistry.ConcurrentReads
import CommonDataLayer.SchemaRegistry.Records
import CommonDataLayer.DbShrinkerPostgres.Schedules
import CommonDataLayer.DbShrinkerPostgres.ConcurrentInserts
import CommonDataLayer.DbShrinkerPostgres.Queries
import CommonDataLayer.DbShrinkerPostgres.Replay
import CommonDataLayer.DbShrinkerPostgres.MergePaths
import CommonDataLayer.QueryRouter.Snapshots
import CommonDataLayer.QueryService.DocumentQueries
import CommonDataLayer.TimeSeries
import CommonDataLayer.CommandService.LineProtocolEncoding
import CommonDataLayer.CommandService.OutputPlugins
import CommonDataLayer.CommandService.Payloads
import CommonDataLayer.LeaderElector.Promotions
import CommonDataLayer.Utils.KafkaRedelivery
import CommonDataLayer.Utils.KafkaRestart
import CommonDataLayer.Utils.PermitQueue
import CommonDataLayer.Api.Subscriptions
import CommonDataLayer.Api.Mutation
import CommonDataLayer.CdlSite.Site
import CommonDataLayer.SchemaRegistry.MirroredRuns
import CommonDataLayer.Api.Definitions
import CommonDataLayer.CommandService.Deliveries
import CommonDataLayer.Visibility
import CommonDataLayer.Api.Events
import CommonDataLayer.Api.Sessions
import CommonDataLayer.DataRouter.Topics
