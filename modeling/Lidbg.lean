import Lidbg.Machine.Run
import Lidbg.Machine.CInt
import Lidbg.Machine.ByteFifo
import Lidbg.Machine.CStr
import Lidbg.Machine.Decimal
import Lidbg.Drivers.Lpc
import Lidbg.Drivers.LpcFraming
import Lidbg.Drivers.LpcWork
import Lidbg.Core.FsCmn
import Lidbg.Host.LidbgDecode
import Lidbg.Core.Servicer
import Lidbg.Hal.Userver
import Lidbg.Hal.UserverSound
import Lidbg.Core.Uevent
import Lidbg.Core.TsEvent
import Lidbg.Core.TsEventGate
import Lidbg.Core.FsKeyvalue
import Lidbg.Core.FsKeyvalueSave
import Lidbg.Core.FsKeyvalueRegister
import Lidbg.Hal.ClientMobile
import Lidbg.Host.ServerPc
import Lidbg.Core.MemLog
import Lidbg.Core.Msg
import Lidbg.Drivers.Acc
import Lidbg.Drivers.Fastboot
import Lidbg.Drivers.FastbootRetry
import Lidbg.Drivers.I2cIo
import Lidbg.Machine.TwoWire
import Lidbg.Drivers.I2cIoWire
import Lidbg.Drivers.I2cIoLock
import Lidbg.Hal.GpsUblox
import Lidbg.Machine.Registry
import Lidbg.Core.WakelockStat
import Lidbg.Core.RegisterRace
import Lidbg.Core.Cmn
import Lidbg.Core.Misc
import Lidbg.Core.Cmd
import Lidbg.Core.FsKeyvalueUpdate
import Lidbg.Core.FsKeyvalueIdempotent
import Lidbg.Core.FsKeyvalueMeaning
import Lidbg.Core.FsPollfile
import Lidbg.Core.FsFindString
import Lidbg.Core.FsKeyvalueHook
import Lidbg.Core.Ts
import Lidbg.Drivers.Gt9xx
import Lidbg.Drivers.Gps
import Lidbg.Core.FsCopy
import Lidbg.Core.FsUpdate
import Lidbg.Core.MemLogDevice
import Lidbg.Core.MemLogDump
import Lidbg.Core.MemLogWrite
import Lidbg.Machine.Loop
import Lidbg.Core.FsLog
import Lidbg.Core.Readdir
import Lidbg.Core.FsConf
import Lidbg.Core.TraceMsg
import Lidbg.Core.TraceMsgFifo
import Lidbg.Machine.StrsepAt
import Lidbg.Core.LidbgDev
import Lidbg.Machine.BitField
import Lidbg.Core.Mem
import Lidbg.Core.I2c
import Lidbg.Core.I2cRace
import Lidbg.Drivers.UnsafeClk
import Lidbg.Drivers.KillScan
import Lidbg.Drivers.DevWrite
import Lidbg.Core.Mounts
import Lidbg.Drivers.GpsBuffers
import Lidbg.Drivers.VideoInitConfig
import Lidbg.Hal.GpsSv
import Lidbg.Drivers.Tw9912
import Lidbg.Machine.Triple
import Lidbg.Drivers.Tw9912Chip
import Lidbg.Drivers.Tc358746xbg
import Lidbg.Hal.FlyCamera
import Lidbg.Hal.FlyCameraRows
import Lidbg.Hal.FlyCameraSplit
import Lidbg.Hal.FlyCameraDelay
import Lidbg.Hal.GuiLine
import Lidbg.Hal.GuiLineDraw
import Lidbg.Hal.GuiPixel
import Lidbg.Hal.GuiPrintf
import Lidbg.Machine.Serial8N1
import Lidbg.Core.Uart
import Lidbg.Drivers.Monkey
import Lidbg.Core.FsIsFileUpdated
import Lidbg.Core.FsCopyFile
import Lidbg.Machine.Ledger
import Lidbg.Soc.Io
import Lidbg.Core.TsEventNul
import Lidbg.Machine.Store
import Lidbg.Machine.StrAt
import Lidbg.Core.FsFillList
import Lidbg.Hal.LidbgServicer
import Lidbg.Hal.GpsGroup
import Lidbg.Hal.GpsThread
import Lidbg.Hal.GpsLocation
import Lidbg.Hal.GpsReader
import Lidbg.Hal.GpsChip
import Lidbg.Drivers.I2cIoRead
import Lidbg.Drivers.I2cIoDevice
import Lidbg.Machine.KeyDev
import Lidbg.Core.Key
import Lidbg.Drivers.AdKey
import Lidbg.Drivers.DevicesFan
