import OpenHarmonyMac.Infra.Transition
import OpenHarmonyMac.Infra.Ledger
import OpenHarmonyMac.Appspawn.Framing
import OpenHarmonyMac.Appspawn.Answering
import OpenHarmonyMac.Appspawn.Truthful
import OpenHarmonyMac.Appspawn.Tracking
import OpenHarmonyMac.Appspawn.Ownership
import OpenHarmonyMac.Appspawn.Confinement
import OpenHarmonyMac.Appspawn.CrashBurst
import OpenHarmonyMac.Appspawn.ReceiveTimer
import OpenHarmonyMac.Appspawn.PidfdWatcher
import OpenHarmonyMac.Appspawn.ColdStart
import OpenHarmonyMac.Appspawn.PreforkMessage
import OpenHarmonyMac.Appspawn.Child
import OpenHarmonyMac.Appspawn.LockStatus
import OpenHarmonyMac.Appspawn.Preload
import OpenHarmonyMac.ModuleMgr.Modules
import OpenHarmonyMac.InitService.Service
import OpenHarmonyMac.InitService.Stopping
import OpenHarmonyMac.InitService.Timers
import OpenHarmonyMac.InitService.CrashWindow
import OpenHarmonyMac.InitService.HeldFds
import OpenHarmonyMac.InitService.Capabilities
import OpenHarmonyMac.InitService.Permissions
import OpenHarmonyMac.InitService.ChildProcess
import OpenHarmonyMac.InitService.SocketWatch
import OpenHarmonyMac.Composer.VsyncWorker
import OpenHarmonyMac.Composer.VsyncDelivery
import OpenHarmonyMac.Composer.Service
import OpenHarmonyMac.Composer.Loading
import OpenHarmonyMac.Composer.Callbacks
import OpenHarmonyMac.Composer.Registrations
import OpenHarmonyMac.Composer.Layers
import OpenHarmonyMac.Composer.Driver
import OpenHarmonyMac.Devmgr.Service
import OpenHarmonyMac.Devmgr.Starting
import OpenHarmonyMac.Devmgr.ClientState
import OpenHarmonyMac.Devmgr.StartTimeout
import OpenHarmonyMac.Devmgr.LeftDriver
import OpenHarmonyMac.Devmgr.Power
import OpenHarmonyMac.Musl.Takeover
import OpenHarmonyMac.Musl.CxaFinalize
import OpenHarmonyMac.Musl.Setxid
import OpenHarmonyMac.HcGen.Lexer
import OpenHarmonyMac.HcGen.Buffering
import OpenHarmonyMac.HcGen.Comments
import OpenHarmonyMac.HcGen.Numbers
import OpenHarmonyMac.HcGen.Strings
import OpenHarmonyMac.HcGen.LineNumbers
import OpenHarmonyMac.HcGen.Termination
import OpenHarmonyMac.Override.Sysmacros
import OpenHarmonyMac.Hilog.FlowControl
import OpenHarmonyMac.Hilog.LogPrint
import OpenHarmonyMac.Hilog.LogUtils
import OpenHarmonyMac.Hilog.GenerateHash
import OpenHarmonyMac.Hilog.GetId
import OpenHarmonyMac.Ldso.Destructors
import OpenHarmonyMac.Ldso.RefCount
import OpenHarmonyMac.Mesa.EglLog
import OpenHarmonyMac.Scripts.ApplyPatches
import OpenHarmonyMac.Scripts.UpdaterImage
import OpenHarmonyMac.Scripts.RustcDepfile
import OpenHarmonyMac.Scripts.RustcExterns
import OpenHarmonyMac.Scripts.RunArk
import OpenHarmonyMac.Tools.PtraceTool
import OpenHarmonyMac.Tools.DumpWchan
import OpenHarmonyMac.Tools.Kmsg
import OpenHarmonyMac.LumeBinaryCompile.Rofs
import OpenHarmonyMac.LumeBinaryCompile.Reproducible
import OpenHarmonyMac.LumeBinaryCompile.Coff
import OpenHarmonyMac.LumeBinaryCompile.Elf
import OpenHarmonyMac.LumeBinaryCompile.Macho
import OpenHarmonyMac.Sandbox.References
import OpenHarmonyMac.Sandbox.DepTable
import OpenHarmonyMac.Sandbox.MountGroups
import OpenHarmonyMac.Sandbox.Entries
