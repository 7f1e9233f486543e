import Sangria.Cluster.DependencyOrder
import Sangria.Cluster.Serializability
import Sangria.Common.Region
import Sangria.Common.TcpFastNetwork
import Sangria.Coordinator.Dependencies
import Sangria.Coordinator.Introduction
import Sangria.Coordinator.Leaders
import Sangria.Coordinator.NetEffect
import Sangria.Coordinator.RangeAssignmentOracle
import Sangria.Coordinator.Registration
import Sangria.Frontend.OpenClients
import Sangria.RangeServer.Cache.PointInTime
import Sangria.RangeServer.PrefetchingBuffer.SingleFlight
import Sangria.RangeServer.RangeManager.EarlyRelease
import Sangria.RangeServer.RangeManager.LockGrants
import Sangria.RangeServer.RangeManager.Logging
import Sangria.RangeServer.RangeManager.Prefetching
import Sangria.RangeServer.RangeManager.Retransmission
import Sangria.RangeServer.RangeManager.Rollback
import Sangria.RangeServer.Server.AssignedRanges
import Sangria.RangeServer.Server.Replay
import Sangria.RangeServer.Storage.Cassandra
import Sangria.RangeServer.Storage.Leadership
import Sangria.RangeServer.Wal.Fencing
import Sangria.RangeServer.Wal.Offsets
import Sangria.Resolver.FakeLoad
import Sangria.Resolver.Notifying
import Sangria.Resolver.RangeOrder
import Sangria.Resolver.ReadySet
import Sangria.TxStateStore.Decisions
import Sangria.Warden.Departures
import Sangria.Warden.Partition
import Sangria.Warden.Routing
import Sangria.Warden.Window
