import KessOS.Io.Port

/-!
# The legacy interrupt controllers

`arch/io/impl/legacy-pic.c`.
-/

namespace KessOS

def icw1Init : BitVec 8 := 0x10
def icw1Icw4 : BitVec 8 := 0x01
def icw48086 : BitVec 8 := 0x01
def picEoi : BitVec 8 := 0x20

/-- `init_pic`. -/
def initPic : PortM Unit := do
  outportb pic1Command (icw1Init ||| icw1Icw4)
  ioWait
  outportb pic2Command (icw1Init ||| icw1Icw4)
  ioWait
  outportb pic1Data 0x20
  ioWait
  outportb pic2Data 0x28
  ioWait
  outportb pic1Data 4
  ioWait
  outportb pic2Data 2
  ioWait
  outportb pic1Data icw48086
  ioWait
  outportb pic2Data icw48086
  ioWait
  outportb pic1Data 0xFF
  ioWait
  outportb pic2Data 0xFF

/-- `PIC_sendEOI`. -/
def picSendEoi (irq : BitVec 8) : PortM Unit := do
  if irq ≥ 8 then outportb pic2Command picEoi
  outportb pic1Command picEoi

end KessOS
