import Segarecomp.Z80.Classify
import Segarecomp.Z80.Locality
import Segarecomp.Media.BpsCorrect
import Segarecomp.Media.Iso9660Lookup
import Segarecomp.Media.InflateCorrect
import Segarecomp.M68k.ExceptionNest
import Segarecomp.M68k.DirectFlowRun
import Segarecomp.M68k.EffectsSound
import Segarecomp.SegaCd.CdcDma
import Segarecomp.SegaCd.Gfx
import Segarecomp.SegaCd.PcmSlicing
import Segarecomp.SegaCd.WordRamOwner
import Segarecomp.SegaCd.InputReplay
import Segarecomp.Media.DiscLayout
import Segarecomp.Genesis.MixerStreams
import Segarecomp.Genesis.Z80Activation
import Segarecomp.Genesis.Z80Materialization
import Segarecomp.Genesis.Z80Scheduler
import Segarecomp.Genesis.DmaDrain
import Segarecomp.Sms.RunSlicing
import Segarecomp.SegaCd.HintCounterArmed
import Segarecomp.Genesis.HybridAdmissionClosure
import Segarecomp.Genesis.VdpPort
import Segarecomp.M68k.StaticWalkPartition
import Segarecomp.Genesis.FrameRow
import Segarecomp.Genesis.FrameProducer
import Segarecomp.Genesis.RasterWrites
import Segarecomp.Genesis.RasterJournal
import Segarecomp.M68k.ShiftRotateAgree
import Segarecomp.Genesis.M68kCopyAliasRun
import Segarecomp.Genesis.M68kCopyAliasCanonical
import Segarecomp.Sms.MapperImages
import Segarecomp.Media.KosinskiCorrect
import Segarecomp.Psg.PcmWindows
import Segarecomp.Codegen.CompiledEntryMaps
import Segarecomp.Sms.RendererFrames
import Segarecomp.Codegen.SourceRelativeProbes
import Segarecomp.M68k.StopWake
import Segarecomp.SegaCd.OverlayView
import Segarecomp.SegaCd.CdcHost
import Segarecomp.M68k.MultiPrecision
import Segarecomp.M68k.ReturnEdges
import Segarecomp.Z80.IdleTime
import Segarecomp.Z80.BlockRun
import Segarecomp.Genesis.Sha256
import Segarecomp.Media.ZipSafe
import Segarecomp.SegaCd.CddGrid
import Segarecomp.SegaCd.RelocEvidence
import Segarecomp.SegaCd.RelocRun
import Segarecomp.SegaCd.SourceFound
import Segarecomp.SegaCd.FileClosure
import Segarecomp.Genesis.DmaPort
import Segarecomp.Genesis.EepromTransactions
import Segarecomp.Genesis.Z80DeviceTimes
import Segarecomp.Genesis.StopWaitEnds
import Segarecomp.Sms.PauseTrace
import Segarecomp.Media.DiscStart
import Segarecomp.Genesis.PixelReference
import Segarecomp.Genesis.FrameExtension
import Segarecomp.Genesis.FrameDigest
import Segarecomp.SegaCd.CdcDecode
import Segarecomp.M68k.BranchTargets
import Segarecomp.SegaCd.VdpFifo
import Segarecomp.SegaCd.Ledger
import Segarecomp.Genesis.Base64
import Segarecomp.M68k.DivisionTiming
import Segarecomp.Genesis.HybridAdmissionPlans
