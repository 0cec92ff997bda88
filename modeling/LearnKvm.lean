import LearnKvm.Lib.Bits
import LearnKvm.Lib.ByteMemory
import LearnKvm.Lib.LinkForest
import LearnKvm.Lib.Ownership
import LearnKvm.Lib.AccessLog
import LearnKvm.Lib.EventRun
import LearnKvm.Lib.PageCopy
import LearnKvm.Lib.TwoLevelSet
import LearnKvm.Vmx
import LearnKvm.Kvm
import LearnKvm.Mmu.Pte
import LearnKvm.Mmu.Pages
import LearnKvm.Mmu.Paging
import LearnKvm.Mmu.Context
import LearnKvm.Mmu.Tables
import LearnKvm.Mmu.Path
import LearnKvm.Mmu.Walk
import LearnKvm.Mmu.Leaf
import LearnKvm.Mmu.Conserve
import LearnKvm.Mmu.Fault
import LearnKvm.Mmu.PageFault
import LearnKvm.Mmu.Nonpaging
import LearnKvm.Mmu.Conservation
import LearnKvm.Mmu.Sound
import LearnKvm.Mmu.Run
import LearnKvm.Mmu.Access
import LearnKvm.Mmu.Exact
import LearnKvm.Mmu.Bounds
import LearnKvm.ControlRegisters
import LearnKvm.Registers
import LearnKvm.Mmu.Frame
import LearnKvm.CrWrites
import LearnKvm.VcpuSetup
import LearnKvm.GuestWrites
import LearnKvm.LongMode
import LearnKvm.Sregs
import LearnKvm.CrShadow
import LearnKvm.ExceptionBitmap
import LearnKvm.Mmu.ContextKept
import LearnKvm.ModeContext
import LearnKvm.GuestMemory
import LearnKvm.RealMode
import LearnKvm.Interrupts
import LearnKvm.IrqDelivery
import LearnKvm.SregsRoundTrip
import LearnKvm.TaskRegister
import LearnKvm.CreateVcpu
import LearnKvm.MemoryRegion
import LearnKvm.RegionAccounting
import LearnKvm.MemoryCalls
import LearnKvm.MemoryOwnership
import LearnKvm.Machine
import LearnKvm.BitmapLifetime
import LearnKvm.DirtyLog
import LearnKvm.Mmu.Leaves
import LearnKvm.MappedPages
import LearnKvm.ModuleWrites
import LearnKvm.VmcsOwnership
import LearnKvm.ArrayBounds
import LearnKvm.Lib.Calls
import LearnKvm.Emulate.Insn
import LearnKvm.Emulate.Decode
import LearnKvm.Emulate.Execute
import LearnKvm.Emulate.Restart
import LearnKvm.Emulate.Instruction
import LearnKvm.Emulate.Decoded
import LearnKvm.Emulate.RegisterWrites
import LearnKvm.Emulate.Contract
import LearnKvm.Emulate.Exchange
import LearnKvm.Emulate.Cmpxchg
import LearnKvm.Emulate.Encoding
import LearnKvm.Emulate.EffectiveAddress
import LearnKvm.Emulate.Length
import LearnKvm.Emulate.Addressing
import LearnKvm.Emulate.EffectiveAddress16
import LearnKvm.Emulate.Segmentation
import LearnKvm.Emulate.Loads
import LearnKvm.Emulate.Head
import LearnKvm.Emulate.RepStrings
import LearnKvm.Emulate.PrefixSets
import LearnKvm.Emulate.Progress
import LearnKvm.Emulate.Stores
import LearnKvm.Libkvm
import LearnKvm.ExitProtocol
import LearnKvm.ExactlyOnce
import LearnKvm.ReplyDelivery
import LearnKvm.Mmu.GuestPhysical
import LearnKvm.Mmu.GlobalPages
import LearnKvm.Mmu.GuestPages
import LearnKvm.Mmu.InvalPage
import LearnKvm.Mmu.Accessed
import LearnKvm.Mmu.AccessedRun
import LearnKvm.Mmu.Retry
import LearnKvm.Pdptrs
import LearnKvm.Emulate.MovCr
import LearnKvm.MsrAccess
import LearnKvm.Translation
import LearnKvm.GuestCopy
import LearnKvm.Emulate.ReadCallbacks
import LearnKvm.RmodeInterrupt
import LearnKvm.Emulate.Pop
import LearnKvm.Lib.BitString
import LearnKvm.Emulate.BitStrings
import LearnKvm.Lib.PageWalk
import LearnKvm.GuestTranslation
import LearnKvm.RegionOverlap
import LearnKvm.SlotPages
import LearnKvm.RmodeTss
import LearnKvm.Debugger
import LearnKvm.IoCount
import LearnKvm.VmdkSnapshot
import LearnKvm.QemuRegs
import LearnKvm.StringIo
import LearnKvm.Lib.FileIo
import LearnKvm.Lib.Packing
import LearnKvm.DirtyBitmap
import LearnKvm.Lib.TruncatedDiv
import LearnKvm.Div64
import LearnKvm.Lib.FieldBuffer
import LearnKvm.GdbRegisters
import LearnKvm.Lib.ThreadPool
import LearnKvm.SmpCallMask
import LearnKvm.SendReschedule
import LearnKvm.Lib.Checklist
import LearnKvm.EntryTestGuest
import LearnKvm.EntryTestHost
import LearnKvm.WriteProtection
import LearnKvm.Lib.AllocTrace
import LearnKvm.ClosedVm
import LearnKvm.LoggedLeaves
import LearnKvm.LoggedStores
import LearnKvm.Lib.TableCache
import LearnKvm.Mmu.VirtualTlb
import LearnKvm.Lib.StackCode
import LearnKvm.WorldSwitch
import LearnKvm.HostState
import LearnKvm.Lib.Eratosthenes
import LearnKvm.TestSieve
import LearnKvm.ModuleLifetime
import LearnKvm.PreemptNotifiers
import LearnKvm.Lib.RefCount
import LearnKvm.UserMapping
