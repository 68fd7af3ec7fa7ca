import AntzKV.Lib.SquareProbe
import AntzKV.Lib.OpenAddressing
import AntzKV.Lib.LinkedHeap
import AntzKV.Lib.SkipSearch
import AntzKV.Lib.ByteCursor
import AntzKV.Lib.Scanf
import AntzKV.Lib.Resp
import AntzKV.Lib.LineFraming
import AntzKV.Lib.ChainedTable
import AntzKV.Lib.Run
import AntzKV.Lib.Simulation
import AntzKV.Lib.Interleave
import AntzKV.Lib.LastWriteWins
import AntzKV.Lib.BoundedQueue
import AntzKV.Lib.IndexSlice
import AntzKV.Lib.Words
import AntzKV.Core.CString
import AntzKV.Core.Dlist
import AntzKV.Core.DlistTheorems
import AntzKV.Core.SimpleHt
import AntzKV.Core.SimpleHtTheorems
import AntzKV.Core.Zskiplist
import AntzKV.Core.ZskiplistTheorems
import AntzKV.Core.ZskiplistRunTheorems
import AntzKV.Core.Object
import AntzKV.Core.Table
import AntzKV.Core.Commands
import AntzKV.Core.Reads
import AntzKV.Core.Snapshot
import AntzKV.Core.TableTheorems
import AntzKV.Core.ProbeTheorems
import AntzKV.Core.TableRunTheorems
import AntzKV.Core.CommandsTheorems
import AntzKV.Core.KeySpaceTheorems
import AntzKV.Core.TypeSafetyTheorems
import AntzKV.Core.ExpiryTheorems
import AntzKV.Core.ConcurrentUpdates
import AntzKV.Core.ConcurrentUpdatesTheorems
import AntzKV.Core.CounterTheorems
import AntzKV.Core.SetnxTheorems
import AntzKV.Core.SortedSetTheorems
import AntzKV.Core.SnapshotTheorems
import AntzKV.Core.LoadBufferTheorems
import AntzKV.Core.SaveFaultTheorems
import AntzKV.Core.ContentTheorems
import AntzKV.Core.SetTheorems
import AntzKV.Core.SoundTheorems
import AntzKV.Core.OutArray
import AntzKV.Core.RankRangeTheorems
import AntzKV.Core.HashTheorems
import AntzKV.Core.RpoplpushTheorems
import AntzKV.Core.GetrangeTheorems
import AntzKV.Core.FrameTheorems
import AntzKV.Core.Database
import AntzKV.Core.DatabaseTheorems
import AntzKV.Core.DatabaseCallsTheorems
import AntzKV.Core.DatabaseReadsTheorems
import AntzKV.Core.DatabaseRunTheorems
import AntzKV.Cluster.Replica
import AntzKV.Cluster.ReplicaTheorems
import AntzKV.Cluster.DelMetaTheorems
import AntzKV.Cluster.VersionClock
import AntzKV.Cluster.VersionClockTheorems
import AntzKV.Cluster.ReplQueue
import AntzKV.Cluster.ReplQueueTheorems
import AntzKV.Cluster.Bus
import AntzKV.Cluster.BusTheorems
import AntzKV.Cluster.FullSync
import AntzKV.Cluster.FullSyncTheorems
import AntzKV.Cluster.GrammarTheorems
import AntzKV.Cluster.Conf
import AntzKV.Cluster.ConfTheorems
import AntzKV.Cluster.ConfLoadTheorems
import AntzKV.Cluster.FieldTheorems
import AntzKV.Cluster.Peers
import AntzKV.Cluster.HeartbeatTheorems
import AntzKV.Cluster.PeersTheorems
import AntzKV.Server.StringCommands
import AntzKV.Server.ClientLoop
import AntzKV.Server.PubSub
import AntzKV.Server.PubSubTheorems
import AntzKV.Server.PubSubHeap
import AntzKV.Server.PubSubHeapTheorems
import AntzKV.Server.PublishTheorems
import AntzKV.Server.Delivery
import AntzKV.Server.DeliveryTheorems
import AntzKV.Server.Dispatch
import AntzKV.Server.DispatchTheorems
import AntzKV.Server.Calls
import AntzKV.Server.CallsTheorems
import AntzKV.Server.CommandSpec
import AntzKV.Server.CommandSpecTheorems
import AntzKV.Server.Hub
import AntzKV.Server.HubTheorems
import AntzKV.Cluster.Mesh
import AntzKV.Cluster.MeshTheorems
import AntzKV.Server.CountReplyTheorems
import AntzKV.Server.Connection
import AntzKV.Server.ConnectionTheorems
import AntzKV.Server.ModeTheorems
import AntzKV.Server.ReplicationTheorems
import AntzKV.Server.TtlTheorems
import AntzKV.Server.SetLineTheorems
import AntzKV.Server.SetMessageTheorems
import AntzKV.Server.ThreadPool
import AntzKV.Server.ThreadPoolTheorems
import AntzKV.Cli.Reply
import AntzKV.Cli.ReplyTheorems
