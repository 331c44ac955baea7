import Cijitter.Lib.Run
import Cijitter.Lib.SegmentList
import Cijitter.Lib.SegmentListProperties
import Cijitter.Lib.GoStrings
import Cijitter.Usermem.Access
import Cijitter.Mm.Vma
import Cijitter.Mm.Syscalls
import Cijitter.Mm.SyscallsProperties
import Cijitter.Mm.Io
import Cijitter.Maid.TargetAddr
import Cijitter.Kernel.Delay
import Cijitter.Kernel.DelayProperties
import Cijitter.Kernel.TargetThread
import Cijitter.Kernel.TargetThreadProperties
import Cijitter.Mm.IoProperties
import Cijitter.Lib.Bytes
import Cijitter.Lib.Decoder
import Cijitter.Monitor.OutputTargets
import Cijitter.Runsc.SampleLogs
import Cijitter.Runsc.SampleLogsProperties
import Cijitter.Lib.GoJson
import Cijitter.Runsc.Channel
import Cijitter.Bpf.Interpreter
import Cijitter.Bpf.InterpreterProperties
import Cijitter.Bpf.ProgramBuilder
import Cijitter.Bpf.ProgramBuilderProperties
import Cijitter.Seccomp.BuildProgram
import Cijitter.Seccomp.Semantics
import Cijitter.Pagetables.Walker
import Cijitter.Pagetables.WalkerProperties
import Cijitter.Pagetables.Lookup
import Cijitter.State.Wire
import Cijitter.State.WireProperties
import Cijitter.Lib.BinaryHeap
import Cijitter.Lib.BinaryHeapOrder
import Cijitter.Tcp.Receiver
import Cijitter.Fs.Lock
import Cijitter.Usermem.AddrRangeSeq
import Cijitter.Kernel.FdTable
import Cijitter.Buffer.View
import Cijitter.Pipe.Pipe
import Cijitter.Lib.CountMap
import Cijitter.Tcpip.Ports
import Cijitter.Tcpip.PortsProperties
import Cijitter.Lib.Memory
import Cijitter.Sharedmem.Pipe
import Cijitter.Kernel.Semaphore
import Cijitter.Kernel.Futex
import Cijitter.P9.Transport
import Cijitter.Loader.Elf
import Cijitter.Fs.Mounts
import Cijitter.Netfilter.SetEntries
import Cijitter.Stack.Iptables
import Cijitter.Lib.ListFamily
import Cijitter.Kernel.Epoll
import Cijitter.Kernel.EpollProperties
import Cijitter.Kernel.EpollDelivery
import Cijitter.Kernel.EpollRuns
import Cijitter.Runsc.Monitor
import Cijitter.Kernel.MonitorTimer
import Cijitter.Lib.TopK
import Cijitter.Monitor.Mapia
import Cijitter.Monitor.HashTable
import Cijitter.Monitor.HashTableRelease
import Cijitter.Seccomp.Rules
import Cijitter.Bpf.Reference
import Cijitter.Tcpip.VectorisedView
import Cijitter.Tcp.Sack
import Cijitter.Lib.OrderedTree
import Cijitter.Tcp.SackScoreboard
import Cijitter.Tcp.SackScoreboardProperties
import Cijitter.Tcp.SackScoreboardRun
import Cijitter.Network.Reassembler
import Cijitter.Network.Fragmentation
import Cijitter.Network.FragmentationAccounting
import Cijitter.Network.ReassemblerProperties
import Cijitter.Network.FragmentationReassembly
import Cijitter.Lib.Align
import Cijitter.Lib.SegmentGaps
import Cijitter.Pgalloc.FindAvailableRange
import Cijitter.Pgalloc.FindAvailableRangeProperties
import Cijitter.Tcpip.EphemeralPorts
import Cijitter.Sharedmem.RxPull
import Cijitter.Buffer.ViewProperties
import Cijitter.Header.Ipv6Options
import Cijitter.Header.Ipv6PayloadIterator
import Cijitter.Header.Ipv6PayloadChain
import Cijitter.Header.NdpDnsSearchList
import Cijitter.Header.NdpOptions
import Cijitter.Header.NdpOptionsRoundTrip
import Cijitter.Header.Checksum
import Cijitter.Header.ChecksumProperties
import Cijitter.Safemem.BlockSeq
import Cijitter.Safemem.BlockSeqProperties
import Cijitter.Auth.IdMap
import Cijitter.Auth.IdMapProperties
import Cijitter.Auth.UserNamespaceProperties
import Cijitter.Fspath.Path
import Cijitter.Fspath.PathProperties
import Cijitter.Ktime.Time
import Cijitter.Ktime.TimeProperties
import Cijitter.Compressio.Stream
import Cijitter.Shm.Registry
import Cijitter.Shm.RegistryProperties
import Cijitter.Lib.Arena
import Cijitter.Tcp.SynCookie
import Cijitter.Compressio.StreamProperties
import Cijitter.Header.Ipv4
import Cijitter.Network.Ipv4Fragments
import Cijitter.Network.Ipv4FragmentsProperties
import Cijitter.Network.Ipv4FragmentsReassembly
import Cijitter.Lib.SegmentWalk
import Cijitter.Fsutil.DirtySet
import Cijitter.Fsutil.DirtySetProperties
import Cijitter.Fsutil.DirtySetSync
