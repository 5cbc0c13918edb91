import VarnishCache.Acl
import VarnishCache.Argv
import VarnishCache.Backend
import VarnishCache.Ban
import VarnishCache.BanRef
import VarnishCache.BanSpec
import VarnishCache.BinaryHeap
import VarnishCache.CacheCenter
import VarnishCache.CliServe
import VarnishCache.CritBit
import VarnishCache.CritBitLookup
import VarnishCache.CritBitMap
import VarnishCache.Expire
import VarnishCache.FetchChunked
import VarnishCache.FetchObject
import VarnishCache.HashData
import VarnishCache.HshLookup
import VarnishCache.Http
import VarnishCache.HttpConn
import VarnishCache.HttpDissect
import VarnishCache.HttpHdr
import VarnishCache.Lib.CallGraph
import VarnishCache.Lib.CritBit
import VarnishCache.Lib.Fallible
import VarnishCache.Lib.HeapOrder
import VarnishCache.Lib.NestedIfs
import VarnishCache.Lib.PrefixOrder
import VarnishCache.Lib.RefCount
import VarnishCache.Lib.RingLog
import VarnishCache.Lib.Separated
import VarnishCache.Lib.Tiling
import VarnishCache.Objhead
import VarnishCache.Proofs.Acl
import VarnishCache.Proofs.AclOrder
import VarnishCache.Proofs.Argv
import VarnishCache.Proofs.Backend
import VarnishCache.Proofs.Ban
import VarnishCache.Proofs.BanBook
import VarnishCache.Proofs.BanDups
import VarnishCache.Proofs.BanEscape
import VarnishCache.Proofs.BanInsert
import VarnishCache.Proofs.BanLurker
import VarnishCache.Proofs.BanRefLurker
import VarnishCache.Proofs.BanRefRun
import VarnishCache.Proofs.BanRefSilo
import VarnishCache.Proofs.BanRefSteps
import VarnishCache.Proofs.BanRefWrites
import VarnishCache.Proofs.BanRender
import VarnishCache.Proofs.BanSpec
import VarnishCache.Proofs.BanSteps
import VarnishCache.Proofs.BanThreads
import VarnishCache.Proofs.BanTtl
import VarnishCache.Proofs.BinaryHeap
import VarnishCache.Proofs.BinaryHeapIndex
import VarnishCache.Proofs.BinaryHeapReach
import VarnishCache.Proofs.BinaryHeapRun
import VarnishCache.Proofs.CacheCenter
import VarnishCache.Proofs.CacheCenterFit
import VarnishCache.Proofs.CacheCenterMoves
import VarnishCache.Proofs.CacheCenterRefs
import VarnishCache.Proofs.CliServe
import VarnishCache.Proofs.CritBit
import VarnishCache.Proofs.CritBitLookup
import VarnishCache.Proofs.CritBitMap
import VarnishCache.Proofs.Expire
import VarnishCache.Proofs.ExpireRun
import VarnishCache.Proofs.FetchChunked
import VarnishCache.Proofs.FetchObject
import VarnishCache.Proofs.HashData
import VarnishCache.Proofs.HshLookup
import VarnishCache.Proofs.HttpCollect
import VarnishCache.Proofs.HttpConn
import VarnishCache.Proofs.HttpConnRun
import VarnishCache.Proofs.HttpDissect
import VarnishCache.Proofs.HttpDissectEnd
import VarnishCache.Proofs.HttpDissectLines
import VarnishCache.Proofs.HttpFilter
import VarnishCache.Proofs.Objhead
import VarnishCache.Proofs.ObjheadRefcnt
import VarnishCache.Proofs.ObjheadSteps
import VarnishCache.Proofs.ObjheadStranded
import VarnishCache.Proofs.ObjheadWaiters
import VarnishCache.Proofs.SmpSilo
import VarnishCache.Proofs.SmpUsers
import VarnishCache.Proofs.StorageFile
import VarnishCache.Proofs.StorageFileOpen
import VarnishCache.Proofs.StorageFileOps
import VarnishCache.Proofs.StorageFileRun
import VarnishCache.Proofs.Vary
import VarnishCache.Proofs.VaryMatch
import VarnishCache.Proofs.VclConf
import VarnishCache.Proofs.Vrt
import VarnishCache.Proofs.Workspace
import VarnishCache.Proofs.WrkPool
import VarnishCache.Proofs.Wrw
import VarnishCache.Proofs.Xref
import VarnishCache.SmpSilo
import VarnishCache.SmpUsers
import VarnishCache.StorageFile
import VarnishCache.Vary
import VarnishCache.VclConf
import VarnishCache.Vrt
import VarnishCache.Workspace
import VarnishCache.WrkPool
import VarnishCache.Wrw
import VarnishCache.Xref
