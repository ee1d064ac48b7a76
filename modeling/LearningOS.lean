import LearningOS.Lib.Run
import LearningOS.Lib.Stack
import LearningOS.Lib.Word
import LearningOS.Lib.Dyadic
import LearningOS.Lib.Exchange
import LearningOS.Lib.Cut
import LearningOS.Lib.Bytes
import LearningOS.Lib.Linked
import LearningOS.Lib.Radix
import LearningOS.Lib.Retry
import LearningOS.Lib.Chain
import LearningOS.Lib.Numeral
import LearningOS.Lib.CString
import LearningOS.Lib.Arena
import LearningOS.Lib.Table
import LearningOS.Utility.Math
import LearningOS.Utility.Strings
import LearningOS.Utility.InPlace
import LearningOS.Utility.Bootinfo
import LearningOS.Utility.Itoa
import LearningOS.Boot.InitPt
import LearningOS.Mm.Bitmap
import LearningOS.Mm.BootMmap
import LearningOS.Mm.KernelImage
import LearningOS.Mm.Reservations
import LearningOS.Mm.BootRegions
import LearningOS.Mm.GlobalPageMap
import LearningOS.Mm.Buddy.Model
import LearningOS.Mm.Buddy.Primitives
import LearningOS.Mm.Buddy.Index
import LearningOS.Mm.Buddy.PairMap
import LearningOS.Mm.Buddy.Freelist
import LearningOS.Mm.Buddy.Effect
import LearningOS.Mm.Buddy.Alloc
import LearningOS.Mm.Buddy.Free
import LearningOS.Mm.Buddy.Shrink
import LearningOS.Mm.Buddy.Populate
import LearningOS.Mm.Buddy.System
import LearningOS.Mm.Buddy.Conservation
import LearningOS.Mm.Buddy.Placement
import LearningOS.Mm.Buddy.PairBits
import LearningOS.Mm.Buddy.Coalescing
import LearningOS.Mm.Buddy.Frame
import LearningOS.Mm.Buddy.Split
import LearningOS.Mm.Buddy.Keep
import LearningOS.Mm.Buddy.Coverage
import LearningOS.Mm.Phys.Model
import LearningOS.Mm.Phys.Exhaustion
import LearningOS.Mm.Phys.PoolSize
import LearningOS.Mm.Slab.Model
import LearningOS.Mm.Slab.Layout
import LearningOS.Mm.Slab.Pool
import LearningOS.Mm.Slab.Refine
import LearningOS.Mm.Slab.Alloc
import LearningOS.Mm.Slab.Free
import LearningOS.Mm.Slab.Objects
import LearningOS.Mm.Slab.System
import LearningOS.Mm.Kmalloc.Model
import LearningOS.Mm.Kmalloc.System
import LearningOS.Mm.Vm.Entry
import LearningOS.Mm.Vm.Model
import LearningOS.Mm.Vm.Tables
import LearningOS.Mm.Vm.Contiguous
import LearningOS.Mm.Vm.Blocks
import LearningOS.Mm.Vm.Init
import LearningOS.Mm.Vm.System
import LearningOS.Mm.Vm.FreeStack
import LearningOS.Mm.Vm.Heap
import LearningOS.Mm.Vm.Release
import LearningOS.Mm.Vm.Flags
import LearningOS.Mm.Vm.Containment
import LearningOS.Mm.Vm.Lookup
import LearningOS.Mm.Vm.Mapping
import LearningOS.Mm.Vm.ShrinkErrors
import LearningOS.Mm.Vm.FreedPages
import LearningOS.Mm.Vm.MapPages
import LearningOS.Mm.Vm.PtInit
import LearningOS.Mm.Vm.Edits
import LearningOS.Mm.Vm.DirectMap
import LearningOS.Mm.Vm.Spaces
import LearningOS.Mm.Page
import LearningOS.Mm.GeneralPages
import LearningOS.Mm.PageAlloc
import LearningOS.Mm.Translate
import LearningOS.Driver.Vga
import LearningOS.Driver.Console
import LearningOS.Driver.Pic
import LearningOS.Cpu.Isr
import LearningOS.Cpu.IsrDefs
import LearningOS.Driver.PicPorts
import LearningOS.Cpu.Idt
import LearningOS.Cpu.Interrupt
import LearningOS.Log.Specifier
import LearningOS.Log.Render
import LearningOS.Log.Numbers
import LearningOS.Log.Printf
import LearningOS.Log.Printk
import LearningOS.Log.Format
import LearningOS.Mm.PrintMmap
