import PipecatVoice.Lib.Runs
import PipecatVoice.Lib.RingBuf
import PipecatVoice.Lib.Refractory
import PipecatVoice.Lib.SlidingWindow
import PipecatVoice.G722Lockstep
import PipecatVoice.Validator
import PipecatVoice.Transcript
import PipecatVoice.PeerPhase
import PipecatVoice.Handover
import PipecatVoice.TurnClock
import PipecatVoice.EchoGuard
import PipecatVoice.TurnBudget
import PipecatVoice.Uplink
import PipecatVoice.IdleRing
import PipecatVoice.Lib.Unwinding
import PipecatVoice.SessionMirror
import PipecatVoice.TranscriptFanout
import PipecatVoice.Stun
import PipecatVoice.TurnCredentials
import PipecatVoice.TurnPairs
import PipecatVoice.TurnPermission
import PipecatVoice.CorpusSync
import PipecatVoice.WakeUpload
import PipecatVoice.WakeStore
import PipecatVoice.FormUrlencoded
import PipecatVoice.Provisioning
import PipecatVoice.G722Checked
import PipecatVoice.G722Ranges
import PipecatVoice.Lib.History
import PipecatVoice.WakeTrace
import PipecatVoice.WakeWindow
import PipecatVoice.G722Qmf
import PipecatVoice.G722Tracking
import PipecatVoice.Backlog
import PipecatVoice.WakeCapture
import PipecatVoice.Lib.Dedup
import PipecatVoice.StackchanEvents
import PipecatVoice.SubscriberLeak
import PipecatVoice.FormScan
import PipecatVoice.Lib.Rewriting
import PipecatVoice.Lib.TextLines
import PipecatVoice.SdpMunge
import PipecatVoice.Lib.NewtonSqrt
import PipecatVoice.MicGate
import PipecatVoice.Lib.Awaiting
import PipecatVoice.Ota
import PipecatVoice.StalledUpload
import PipecatVoice.UiMemory
import PipecatVoice.Lib.SlotTable
import PipecatVoice.LogClients
import PipecatVoice.SendIndication
import PipecatVoice.TurnAllocate
import PipecatVoice.StunReads
import PipecatVoice.TurnUnwrap
import PipecatVoice.Lib.StreamBuffer
import PipecatVoice.Playback
import PipecatVoice.Lib.Stamps
import PipecatVoice.LedRecency
import PipecatVoice.Lib.Windows
import PipecatVoice.AutoTrim
import PipecatVoice.SharedWhisper
import PipecatVoice.Lib.FillCache
import PipecatVoice.Training
import PipecatVoice.Lib.Disk
import PipecatVoice.WakeFiles
import PipecatVoice.Lib.PosixPath
import PipecatVoice.Lib.Newest
import PipecatVoice.WakeRotation
import PipecatVoice.WakeRefinement
import PipecatVoice.Lib.Crc
import PipecatVoice.PairChecks
import PipecatVoice.StunAuth
import PipecatVoice.BindingCheck
import PipecatVoice.Lib.Overlap
import PipecatVoice.Lib.BitSqrt
import PipecatVoice.Spectrum
import PipecatVoice.Filterbank
import PipecatVoice.NoiseFloor
import PipecatVoice.LogScale
import PipecatVoice.WakeFeatures
import PipecatVoice.Rtp
import PipecatVoice.RtpVideo
import PipecatVoice.MediaPath
import PipecatVoice.Lib.RetryBudget
import PipecatVoice.Boot
import PipecatVoice.Lib.Decimal
import PipecatVoice.SessionDescription
import PipecatVoice.CandidateLine
import PipecatVoice.DescriptionLines
import PipecatVoice.DescriptionExchange
import PipecatVoice.AnswerPath
