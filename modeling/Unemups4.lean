import Unemups4.CacheCoherence
import Unemups4.SpirvFaithful
import Unemups4.Replay
import Unemups4.DisplaySync
import Unemups4.UploadOrder
import Unemups4.TwinRuns
import Unemups4.DeferredDraw
import Unemups4.Alu
import Unemups4.Interp
import Unemups4.InterpCfg
import Unemups4.LaneView
import Unemups4.LaneStep
import Unemups4.LaneBlocks
import Unemups4.Pm4
import Unemups4.VertexFetch
import Unemups4.HostMaps
import Unemups4.HostMirror
import Unemups4.ObjectLifetime
import Unemups4.ShaderBinary
import Unemups4.ShaderCache
import Unemups4.PipelineKeys
import Unemups4.RenderedTargets
import Unemups4.Descriptors
import Unemups4.SamplerWords
import Unemups4.Registers
import Unemups4.ShaderBinds
import Unemups4.BindOrder
import Unemups4.StreamFrame
import Unemups4.SplitStreams
import Unemups4.CommandSlots
import Unemups4.SyncManager
import Unemups4.SyncLocks
import Unemups4.MutexOwner
import Unemups4.SyncRuns
import Unemups4.CompletionLabels
import Unemups4.ThreadExit
import Unemups4.Blit
import Unemups4.Detile
import Unemups4.Readback
import Unemups4.DisplayLoop
import Unemups4.GuestCalls
import Unemups4.LaneIndependence
import Unemups4.LoadFrame
import Unemups4.SymbolOrder
import Unemups4.ModuleStarts
import Unemups4.ImportBinding
import Unemups4.SelfContainer
import Unemups4.SlotRuns
import Unemups4.RenderRuns
import Unemups4.FreshMaps
import Unemups4.RangedAccess
import Unemups4.DirectSums
import Unemups4.MapCursor
import Unemups4.DirectMaps
import Unemups4.RequestedBase
import Unemups4.LinkSums
import Unemups4.SceReader
import Unemups4.Dirents
import Unemups4.ShaderSets
import Unemups4.FetchWindow
import Unemups4.BufferPool
import Unemups4.Semaphores
import Unemups4.ShaderScan
import Unemups4.VirtualClock
import Unemups4.StoredBytes
import Unemups4.ThreadLocals
import Unemups4.SegmentPages
import Unemups4.ImageContents
import Unemups4.ImageProtection
import Unemups4.HleArena
import Unemups4.FileReads
import Unemups4.FileCalls
import Unemups4.OnceCalls
import Unemups4.ThreadCreation
import Unemups4.SortedDelta
import Unemups4.RegisterDeltas
import Unemups4.SnapshotFiles
import Unemups4.TimedWaits
import Unemups4.StaticObjects
import Unemups4.DecimalText
import Unemups4.JsonReader
import Unemups4.JsonTexts
import Unemups4.JsonRoom
import Unemups4.JsonWritten
import Unemups4.DrawRecords
import Unemups4.DrawsReadBack
import Unemups4.BlockPartition
import Unemups4.BlockWalks
import Unemups4.MergePoints
import Unemups4.TiledTexels
import Unemups4.CStrings
import Unemups4.LinearDecode
import Unemups4.Checksums
import Unemups4.PngFormat
import Unemups4.PngImages
import Unemups4.CacheAccounting
import Unemups4.FetchShader
import Unemups4.FetchSources
import Unemups4.FetchCall
import Unemups4.BufferFetch
import Unemups4.RecentSlots
import Unemups4.Breadcrumbs
import Unemups4.ScrapeLink
import Unemups4.ScrapeRuns
import Unemups4.Handles
import Unemups4.AudioRing
