import BofStd.AvlTree
import BofStd.AvlTreeSpec
import BofStd.BinSerializer
import BofStd.BlockingCallsSpec
import BofStd.BofBit
import BofStd.BofBuffer
import BofStd.BofBufferSpec
import BofStd.BofCommandLineParser
import BofStd.BofCommandLineParserSpec
import BofStd.BofEvent
import BofStd.BofEventSpec
import BofStd.BofEventThreads
import BofStd.BofGetopt
import BofStd.BofGetoptSpec
import BofStd.BofHttpRequest
import BofStd.BofHttpRequestSpec
import BofStd.BofList
import BofStd.BofListSpec
import BofStd.BofPath
import BofStd.BofPathSpec
import BofStd.BofQueue
import BofStd.BofRpc
import BofStd.BofRpcSpec
import BofStd.BofSemaphore
import BofStd.BofShell
import BofStd.BofShellSpec
import BofStd.BofStack
import BofStd.BofStackSpec
import BofStd.BofString
import BofStd.BofStringSpec
import BofStd.BofThreadPool
import BofStd.BofUri
import BofStd.BofUriSpec
import BofStd.CallbackCollection
import BofStd.CircularBuffer
import BofStd.CircularBufferEvent
import BofStd.CircularBufferSpec
import BofStd.Crypto
import BofStd.CryptoSpec
import BofStd.DirGraph
import BofStd.DirGraphSpec
import BofStd.DumpMemoryZone
import BofStd.FifoOf
import BofStd.FifoOfSpec
import BofStd.Guid
import BofStd.IpAddress
import BofStd.IpAddressSpec
import BofStd.Lib.BitField
import BofStd.Lib.BitMask
import BofStd.Lib.Blocks
import BofStd.Lib.Cut
import BofStd.Lib.Escapes
import BofStd.Lib.Fips180
import BofStd.Lib.Forest
import BofStd.Lib.Hex
import BofStd.Lib.MergeRuns
import BofStd.Lib.Monitor
import BofStd.Lib.OrderedMap
import BofStd.Lib.Pointer
import BofStd.Lib.Regex
import BofStd.Lib.Replace
import BofStd.Lib.Retry
import BofStd.Lib.Run
import BofStd.Lib.Segment
import BofStd.Lib.Threads
import BofStd.Lib.Tokens
import BofStd.Lib.Traverse
import BofStd.ListOf
import BofStd.ListOfSpec
import BofStd.NaryTreeKv
import BofStd.NaryTreeKvSpec
import BofStd.Parameter
import BofStd.ParameterSpec
import BofStd.PoolOf
import BofStd.Pot
import BofStd.PotEvent
import BofStd.PotSpec
import BofStd.Proofs.AvlDeleteProofs
import BofStd.Proofs.AvlInsertProofs
import BofStd.Proofs.AvlIterateProofs
import BofStd.Proofs.AvlNearestProofs
import BofStd.Proofs.AvlRotateProofs
import BofStd.Proofs.AvlTreeProofs
import BofStd.Proofs.AvlWalkProofs
import BofStd.Proofs.BinSerializerProofs
import BofStd.Proofs.BlockingCallsProofs
import BofStd.Proofs.BofBitProofs
import BofStd.Proofs.BofBufferProofs
import BofStd.Proofs.BofCommandLineParserProofs
import BofStd.Proofs.BofEventProofs
import BofStd.Proofs.BofGetoptProofs
import BofStd.Proofs.BofHttpParseProofs
import BofStd.Proofs.BofHttpPathProofs
import BofStd.Proofs.BofHttpRequestProofs
import BofStd.Proofs.BofListProofs
import BofStd.Proofs.BofListSortProofs
import BofStd.Proofs.BofPathLoopsProofs
import BofStd.Proofs.BofPathNameProofs
import BofStd.Proofs.BofPathProofs
import BofStd.Proofs.BofPathRelativeProofs
import BofStd.Proofs.BofPathStackProofs
import BofStd.Proofs.BofRpcBoundsProofs
import BofStd.Proofs.BofRpcBuildProofs
import BofStd.Proofs.BofRpcChecksumProofs
import BofStd.Proofs.BofRpcCompositeFrameProofs
import BofStd.Proofs.BofRpcCompositeProofs
import BofStd.Proofs.BofRpcCompositeStackProofs
import BofStd.Proofs.BofRpcDamageProofs
import BofStd.Proofs.BofRpcParseProofs
import BofStd.Proofs.BofRpcProofs
import BofStd.Proofs.BofRpcRejectProofs
import BofStd.Proofs.BofShellParserProofs
import BofStd.Proofs.BofShellProofs
import BofStd.Proofs.BofStackProofs
import BofStd.Proofs.BofStringProofs
import BofStd.Proofs.BofUriPathProofs
import BofStd.Proofs.BofUriProofs
import BofStd.Proofs.BofUriQueryProofs
import BofStd.Proofs.CallbackCollectionProofs
import BofStd.Proofs.CircularBufferAccessProofs
import BofStd.Proofs.CircularBufferEventProofs
import BofStd.Proofs.CircularBufferJumpProofs
import BofStd.Proofs.CircularBufferProofs
import BofStd.Proofs.CircularBufferRunProofs
import BofStd.Proofs.CryptoProofs
import BofStd.Proofs.DirGraphProofs
import BofStd.Proofs.DumpMemoryZoneProofs
import BofStd.Proofs.FifoOfProofs
import BofStd.Proofs.GuidProofs
import BofStd.Proofs.IpAddressPartProofs
import BofStd.Proofs.IpAddressProofs
import BofStd.Proofs.ListOfProofs
import BofStd.Proofs.NaryTreeKvProofs
import BofStd.Proofs.NaryTreeRunProofs
import BofStd.Proofs.NaryTreeSearchProofs
import BofStd.Proofs.ParameterProofs
import BofStd.Proofs.PathReduceProofs
import BofStd.Proofs.PotEventProofs
import BofStd.Proofs.PotIterateProofs
import BofStd.Proofs.PotProofs
import BofStd.Proofs.RamDbAtomicProofs
import BofStd.Proofs.RamDbCursorProofs
import BofStd.Proofs.RamDbProofs
import BofStd.Proofs.RamDbTreeProofs
import BofStd.Proofs.RationalProofs
import BofStd.Proofs.RawAccountProofs
import BofStd.Proofs.RawAppendProofs
import BofStd.Proofs.RawCircularBufferProofs
import BofStd.Proofs.RawContiguousProofs
import BofStd.Proofs.RawFailureProofs
import BofStd.Proofs.RawFifoProofs
import BofStd.Proofs.RawSlotProofs
import BofStd.Proofs.ReadLineProofs
import BofStd.Proofs.Sha1TransformProofs
import BofStd.Proofs.SharedPoolProofs
import BofStd.Proofs.SocketAddressProofs
import BofStd.Proofs.SplitUriProofs
import BofStd.Proofs.StatisticsProofs
import BofStd.Proofs.StrCopyProofs
import BofStd.Proofs.StringCircularBufferProofs
import BofStd.Proofs.StringSnapshotProofs
import BofStd.Proofs.TimecodeProofs
import BofStd.Proofs.UrlCodeProofs
import BofStd.Proofs.VideoProofs
import BofStd.RamDb
import BofStd.RamDbSpec
import BofStd.Rational
import BofStd.RationalSpec
import BofStd.RawCallSpec
import BofStd.RawCircularBuffer
import BofStd.RawCircularBufferSpec
import BofStd.Sha1Transform
import BofStd.SharedPool
import BofStd.SocketAddress
import BofStd.SocketAddressSpec
import BofStd.SplitUri
import BofStd.Statistics
import BofStd.StringCircularBuffer
import BofStd.StringCircularBufferEvent
import BofStd.StringCircularBufferSpec
import BofStd.Timecode
import BofStd.UrlCode
import BofStd.Video
import BofStd.VideoSpec
