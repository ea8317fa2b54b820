import NewOS.Basic
import NewOS.Thread.Sched
import NewOS.Thread.SchedInv
import NewOS.Thread.DeathStack
import NewOS.Proc.Procs
import NewOS.Kernel
import NewOS.Thread.Consistency
import NewOS.Thread.Priority
import NewOS.Thread.Select
import NewOS.Thread.TimeAcct
import NewOS.Thread.NextThreadInfo
import NewOS.Proc.CreationWindow
import NewOS.Proc.Spec
import NewOS.Proc.Steps
import NewOS.Proc.Tree
import NewOS.Proc.ProcTree
import NewOS.Proc.IdWrap
import NewOS.Proc.Groups
import NewOS.Proc.GroupRace
import NewOS.Proc.Orphans
import NewOS.Proc.ProcInfo
import NewOS.Proc.CreateFail
import NewOS.Proc.ArgCopy
import NewOS.Proc.ArgOwnership
import NewOS.Thread.ThreadLists
import NewOS.Thread.TranslationMap
import NewOS.Net.Checksum
import NewOS.Net.Udp
import NewOS.Net.UdpQueue
import NewOS.Net.EndpointRace
import NewOS.Vm.DeviceStore
