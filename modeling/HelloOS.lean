import HelloOS.Lib.Bitmap
import HelloOS.Mm.Basic
import HelloOS.Mm.Init
import HelloOS.Mm.Alloc
import HelloOS.Mm.Zones
import HelloOS.Mm.Layout
import HelloOS.Mm.InitSpec
import HelloOS.Lib.Count
import HelloOS.Mm.Accounting
import HelloOS.Mm.Window
import HelloOS.Mm.Calls
import HelloOS.Mm.Search
import HelloOS.Mm.NoDouble
import HelloOS.Sched.Current
import HelloOS.Lib.Memory
import HelloOS.Kstring
import HelloOS.Lib.Ring
import HelloOS.Sched.List
import HelloOS.Sched.Fork
import HelloOS.Sched.ForkRun
import HelloOS.Sched.Pid
import HelloOS.Sched.TaskRing
import HelloOS.Lib.X86
import HelloOS.Entry.Regs
import HelloOS.Entry.Irq
import HelloOS.Entry.Syscall
import HelloOS.Sched.Stacks
import HelloOS.Sched.Switch
import HelloOS.Sched.SwitchRun
import HelloOS.Sched.SwitchStep
import HelloOS.Sched.Transparent
import HelloOS.Sched.EntryStack
import HelloOS.Drivers.Keyboard
import HelloOS.Lib.Pic8259
import HelloOS.Irq.DoIrq
import HelloOS.Irq.Acknowledge
import HelloOS.Entry.Dispatch
import HelloOS.Drivers.Ata
import HelloOS.Drivers.DataPort
import HelloOS.Lib.AtaDisk
import HelloOS.Drivers.AtaWrite
import HelloOS.Lib.Paging
import HelloOS.Boot.Paging
import HelloOS.Boot.Multiboot
import HelloOS.Boot.MemoryMap
import HelloOS.Boot.ParseInfo
import HelloOS.Sched.FirstSwitch
import HelloOS.Sched.ForkChild
import HelloOS.Sched.KernelThread
import HelloOS.Printk.Format
import HelloOS.Printk.Verbatim
import HelloOS.Lib.Page
import HelloOS.Printk.Console
import HelloOS.Printk.Layout
import HelloOS.Mm.Footprint
import HelloOS.Mm.Stores
import HelloOS.Mm.FreeRuns
import HelloOS.Mm.ZoneBounds
import HelloOS.Mm.AllocFrame
import HelloOS.Mm.Reads
import HelloOS.Sched.ForkFail
import HelloOS.Sched.ForkFrame
import HelloOS.Boot.MapBounds
import HelloOS.Boot.InfoBounds
import HelloOS.Lib.Numeral
import HelloOS.Printk.Loops
import HelloOS.Printk.Number
import HelloOS.Printk.Robust
import HelloOS.Printk.Directives
import HelloOS.Printk.Signed
import HelloOS.Printk.Output
import HelloOS.Printk.BufferFit
import HelloOS.Printk.Messages
import HelloOS.Lib.Access
import HelloOS.Printk.OnScreen
import HelloOS.Printk.Interrupted
import HelloOS.Boot.Descriptors
import HelloOS.Entry.Ignore
import HelloOS.Drivers.AtaRead
import HelloOS.Sched.ListRing
import HelloOS.Sched.ListOrder
import HelloOS.Drivers.Typing
import HelloOS.Mm.Progress
import HelloOS.Lib.Preempt
import HelloOS.Entry.Preempted
import HelloOS.Sched.UserEntry
import HelloOS.Sched.UserInterrupt
import HelloOS.Boot.Stores
import HelloOS.Irq.Idt
import HelloOS.Irq.Accepted
import HelloOS.Irq.Log
import HelloOS.Sched.PreemptedSwitch
import HelloOS.Sched.Heritage
import HelloOS.Boot.Handover
import HelloOS.Drivers.DiskStore
import HelloOS.Drivers.AtaInit
import HelloOS.Printk.Shown
import HelloOS.Irq.Screen
import HelloOS.Irq.DiskCalls
import HelloOS.Lib.Nesting
import HelloOS.Entry.Nesting
import HelloOS.Lib.Session
import HelloOS.Entry.UserProgram
