import TeeDist.Lib.Apportion
import TeeDist.Lib.Bytes
import TeeDist.Lib.Clock
import TeeDist.Lib.CText
import TeeDist.Lib.Ledger
import TeeDist.Lib.Links
import TeeDist.Lib.Pool
import TeeDist.Lib.Probing
import TeeDist.Lib.Prog
import TeeDist.Lib.Remote
import TeeDist.Lib.Streams
import TeeDist.Lib.Sweep
import TeeDist.Lib.Views
import TeeDist.Lib.Voting
import TeeDist.Common
import TeeDist.Layout
import TeeDist.Store
import TeeDist.Crypto
import TeeDist.Cluster
import TeeDist.Probe
import TeeDist.Walk
import TeeDist.Table
import TeeDist.Phases
import TeeDist.Hostile
import TeeDist.Alone
import TeeDist.Sequential
import TeeDist.FiniteMap
import TeeDist.Room
import TeeDist.Replicas
import TeeDist.Failure
import TeeDist.Healing
import TeeDist.Commits
import TeeDist.Nonce
import TeeDist.CacheReads
import TeeDist.Paused
import TeeDist.Refinement
import TeeDist.Epochs
import TeeDist.Integrity
import TeeDist.Snapshot
import TeeDist.Winners
import TeeDist.Copies
import TeeDist.Torn
import TeeDist.Faults
import TeeDist.FaultyWrite
import TeeDist.Tolerance
import TeeDist.Wire
import TeeDist.Server
import TeeDist.Session
import TeeDist.Threads
import TeeDist.Eviction
import TeeDist.Locks
import TeeDist.Network
import TeeDist.Rdma
import TeeDist.Isolation
import TeeDist.Config
import TeeDist.Capacity
import TeeDist.Victims
import TeeDist.Survivors
import TeeDist.Leaks
import TeeDist.Frame
import TeeDist.ProbeSpec
import TeeDist.Absent
import TeeDist.Overrun
import TeeDist.Shares
import TeeDist.KeyMaterial
import TeeDist.Sizes
import TeeDist.Endpoints
import TeeDist.Comments
import TeeDist.Console
import TeeDist.Repl
import TeeDist.Footprint
import TeeDist.Consoles
import TeeDist.Owners
import TeeDist.Profile
import TeeDist.Accounting
import TeeDist.Handshake
