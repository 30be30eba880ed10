import KessOS.Kernel.Equiv.Log
import KessOS.Util.Equiv.Strncmp
import KessOS.Video.Equiv.Paint
import KessOS.Kernel.Equiv.Mapped
import KessOS.Video.Equiv.Columns
import KessOS.Acpi.Equiv.Rsdt
import KessOS.Acpi.Equiv.Rsdp
import KessOS.Acpi.Equiv.Madt
import KessOS.Boot.Equiv.HandOff
import KessOS.Boot.Equiv.Rsdp
import KessOS.Timer.Equiv.Pit
import KessOS.Pci.Equiv.Config
import KessOS.Vmm.Equiv.Order
import KessOS.Vmm.Equiv.Tlb
import KessOS.Vmm.Equiv.Touch
import KessOS.Vmm.Equiv.Permissions
import KessOS.Vmm.Equiv.Stray
import KessOS.Vmm.Equiv.Init
import KessOS.Vmm.Equiv.Segment
import KessOS.Vmm.Equiv.Cost
import KessOS.Memory.Equiv.Size
import KessOS.Vmm.Equiv.Tree
import KessOS.Boot.Equiv.Image
import KessOS.Boot.Equiv.Keys
import KessOS.Boot.Equiv.Main
import KessOS.Interrupt.Equiv.Irq
import KessOS.Interrupt.Equiv.Idt
import KessOS.Interrupt.Equiv.Idle
import KessOS.Interrupt.Equiv.FaultCode
import KessOS.Kernel.Equiv.Init
import KessOS.Video.Equiv.Square
import KessOS.Vmm.Equiv.Space
import KessOS.Boot.Equiv.Picture
