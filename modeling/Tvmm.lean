import Tvmm.Alloc
import Tvmm.AllocContract
import Tvmm.AllocExact
import Tvmm.AllocIndex
import Tvmm.AllocInit
import Tvmm.AllocInv
import Tvmm.AllocPacked
import Tvmm.AllocRefine
import Tvmm.AllocRuns
import Tvmm.BootTables
import Tvmm.Console
import Tvmm.Cpu
import Tvmm.CpuCheck
import Tvmm.E820
import Tvmm.Elf
import Tvmm.ElfConsole
import Tvmm.ElfImage
import Tvmm.ElfInput
import Tvmm.ElfLoad
import Tvmm.ElfOverlap
import Tvmm.FrameCount
import Tvmm.FreeSet
import Tvmm.GuestBoot
import Tvmm.GuestReach
import Tvmm.GuestView
import Tvmm.ImagePlace
import Tvmm.Lib.AccessedDirty
import Tvmm.Lib.BitField
import Tvmm.Lib.Bitmap
import Tvmm.Lib.ByteMem
import Tvmm.Lib.CInt
import Tvmm.Lib.Exec
import Tvmm.Lib.FirstFit
import Tvmm.Lib.GuestRun
import Tvmm.Lib.LongMode
import Tvmm.Lib.NestedPaging
import Tvmm.Lib.RadixTree
import Tvmm.Lib.Simulation
import Tvmm.Lib.Terminal
import Tvmm.Lib.TwoRuns
import Tvmm.Lib.X86
import Tvmm.Lib.X86Code
import Tvmm.Machine
import Tvmm.Memmove
import Tvmm.MemoryMap
import Tvmm.MemoryMapEnds
import Tvmm.MemoryMapReads
import Tvmm.NestedTable
import Tvmm.Page
import Tvmm.PageMap
import Tvmm.PageTree
import Tvmm.Printf
import Tvmm.PrintfBuffer
import Tvmm.ReadBack
import Tvmm.Report
import Tvmm.Setup
import Tvmm.Sos
import Tvmm.StartVmm
import Tvmm.String
import Tvmm.SvmLaunch
import Tvmm.TempTable
import Tvmm.Vm
import Tvmm.VmBoot
import Tvmm.VmCreate
import Tvmm.VmImage
import Tvmm.VmIsolation
import Tvmm.Vmcb
import Tvmm.VmcbCheck
import Tvmm.VmcbTable
