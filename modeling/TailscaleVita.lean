import TailscaleVita.ApiBody
import TailscaleVita.ApiJson
import TailscaleVita.ChanTimeout
import TailscaleVita.ChanWake
import TailscaleVita.CtlBootstrap
import TailscaleVita.CtlGzip
import TailscaleVita.CtlHandle
import TailscaleVita.CtlKeyText
import TailscaleVita.CtlNoiseEof
import TailscaleVita.CtlSelf
import TailscaleVita.DemoDate
import TailscaleVita.DemoProxy
import TailscaleVita.DemoSwap
import TailscaleVita.DerpHome
import TailscaleVita.DerpIo
import TailscaleVita.DerpProbe
import TailscaleVita.FtpAccess
import TailscaleVita.FtpLogin
import TailscaleVita.FtpPassive
import TailscaleVita.FtpPaths
import TailscaleVita.FtpRename
import TailscaleVita.FtpStor
import TailscaleVita.LogRotate
import TailscaleVita.MsCallMe
import TailscaleVita.MsCandidates
import TailscaleVita.MsIndex
import TailscaleVita.MsPing
import TailscaleVita.MsStun
import TailscaleVita.NetOwnership
import TailscaleVita.PeerNaming
import TailscaleVita.PeerReserve
import TailscaleVita.RtFilter
import TailscaleVita.RtMagic
import TailscaleVita.RtOffline
import TailscaleVita.RtSelf
import TailscaleVita.SyncLazy
import TailscaleVita.SyncOnce
import TailscaleVita.WgAddressing
import TailscaleVita.WgFragments
import TailscaleVita.WgRouting
import TailscaleVita.WgSession
import TailscaleVita.WgTimers
import TailscaleVita.WgTrust
