import WombatKV.Proofs.Core.Metadata
import WombatKV.Proofs.Core.Reuse
import WombatKV.Proofs.Daemon.ArenaRace
import WombatKV.Proofs.Daemon.ArenaSlabs
import WombatKV.Proofs.Daemon.BatchGet
import WombatKV.Proofs.Daemon.Durability
import WombatKV.Proofs.Daemon.EvictionOrder
import WombatKV.Proofs.Daemon.EvictionRace
import WombatKV.Proofs.Daemon.Heartbeat
import WombatKV.Proofs.Daemon.LookupFetch
import WombatKV.Proofs.Daemon.PutRace
import WombatKV.Proofs.Daemon.Segmentation
import WombatKV.Proofs.Daemon.Shutdown
import WombatKV.Proofs.Daemon.TouchRace
import WombatKV.Proofs.Daemon.Transports
import WombatKV.Proofs.Dst.Fault
import WombatKV.Proofs.Dst.Oracle
import WombatKV.Proofs.Format.WalCorruption
import WombatKV.Proofs.Node.Bootstrap
import WombatKV.Proofs.Node.EvictionCycle
import WombatKV.Proofs.Node.Existence
import WombatKV.Proofs.Node.FlatRace
import WombatKV.Proofs.Node.KeyIsolation
import WombatKV.Proofs.Node.Metrics
import WombatKV.Proofs.Node.MixedBucket
import WombatKV.Proofs.Node.ReadYourWrites
import WombatKV.Proofs.Radix.RadixIndex
import WombatKV.Proofs.Radix.SharedIndex
import WombatKV.Proofs.Radix.Topology
import WombatKV.Proofs.Store.AtMostOnce
import WombatKV.Proofs.Store.CompareAndSwap
import WombatKV.Proofs.Store.ConditionalPut
import WombatKV.Proofs.Store.NamespaceIsolation
import WombatKV.Proofs.Store.ReadModifyWrite
import WombatKV.Proofs.Store.Recovery
import WombatKV.Proofs.Store.SegmentStore
import WombatKV.Proofs.Store.StandIn
import WombatKV.Proofs.Store.WalWriters
