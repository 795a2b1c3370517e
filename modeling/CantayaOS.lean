import CantayaOS.Shared.Tidy
import CantayaOS.Memory.HeapSystem
import CantayaOS.Memory.VmmExtend
import CantayaOS.Boot.KernelImage
import CantayaOS.Boot.MemoryMap
import CantayaOS.Sched.Sleep
import CantayaOS.Sched.RunningTask
import CantayaOS.Sched.ContextIntegrity
import CantayaOS.Sched.StackSafety
import CantayaOS.Net.Delivery
import CantayaOS.Net.ArpCache
import CantayaOS.Storage.Mount
import CantayaOS.Storage.WorkingDir
import CantayaOS.Storage.ReadBack
import CantayaOS.Storage.Mirror
import CantayaOS.Virtio.Protocol
import CantayaOS.Virtio.BlockTransfer
import CantayaOS.Graphics.Terminal
import CantayaOS.Desktop.Drag
import CantayaOS.Desktop.Minesweeper
import CantayaOS.Shell.Calendar
import CantayaOS.Shell.CommandLine
