import OtaLoader.Mem
import OtaLoader.Machine
import OtaLoader.VmRecover
import OtaLoader.Ap
import OtaLoader.ApRecv
import OtaLoader.ApPackets
import OtaLoader.ApBounds
import OtaLoader.ApRead
import OtaLoader.CString
import OtaLoader.Sta
import OtaLoader.StaParse
import OtaLoader.StaWindow
import OtaLoader.StaRead
import OtaLoader.Ownership
import OtaLoader.Loop
import OtaLoader.VmLog
import OtaLoader.VmReplay
import OtaLoader.VmCover
import OtaLoader.Msg
import OtaLoader.UpdateLoop
import OtaLoader.ApSession
import OtaLoader.ApSide
import OtaLoader.ApSem
import OtaLoader.Lines
import OtaLoader.WifiConf
import OtaLoader.BlockRead
import OtaLoader.BlockPlain
import OtaLoader.BlockAhead
import OtaLoader.StaTable
import OtaLoader.WifiFilter
import OtaLoader.BleUpdate
import OtaLoader.Ltv
import OtaLoader.CustomCfg
import OtaLoader.BleServer
import OtaLoader.Watchdog
import OtaLoader.Links
import OtaLoader.Gaps
import OtaLoader.Lbuf
import OtaLoader.LbufLists
import OtaLoader.LbufRep
import OtaLoader.LbufRun
import OtaLoader.LbufLaws
import OtaLoader.LbufQueue
import OtaLoader.LbufOrder
import OtaLoader.LbufTwice
import OtaLoader.LbufChunks
import OtaLoader.AppMem
import OtaLoader.Realloc
import OtaLoader.StaUrl
import OtaLoader.Windows
import OtaLoader.BlockFrame
import OtaLoader.BlockOffsets
import OtaLoader.VmEnds
import OtaLoader.ApInit
import OtaLoader.CfgReads
import OtaLoader.AdvScan
import OtaLoader.Sink
import OtaLoader.Numeral
import OtaLoader.Vsnprintf
import OtaLoader.VsnprintfText
import OtaLoader.Render
import OtaLoader.Stdarg
import OtaLoader.Vsprintf
import OtaLoader.Formats
import OtaLoader.Requests
import OtaLoader.Vsscanf
import OtaLoader.Scan
import OtaLoader.Dump
import OtaLoader.BleReport
import OtaLoader.VmRestart
import OtaLoader.RequestLines
import OtaLoader.BlockFinish
import OtaLoader.BlockStarve
import OtaLoader.ApServed
