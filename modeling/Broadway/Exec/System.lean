import Broadway.Exec.Branch

/-!
# System instructions

Moves of special registers, the system call and the return from an interrupt. A system call saves
the machine state in SRR1 and enters the guest's own handler; the return restores it. Three masks
say which bits are saved, which are cleared on entry and which never come back.
-/

namespace Broadway

/-- Bits of the machine state that an interrupt saves in SRR1 and a return restores. -/
def Msr.saved : Word := 0x87C0FF73#32

/-- Bits of the machine state that an interrupt clears. -/
def Msr.clearedOnInterrupt : Word := 0x0004EF36#32

/-- The offset of the system call handler. -/
def systemCallVector : Word := 0x0C00#32

namespace Registers

/-- The number of the segment register that is meant. -/
def segmentNumber (r : Registers) : Segment → BitVec 4
  | .direct n => n
  | .indirect rb => (r.gpr.read rb).extractLsb' 28 4

/-- Where the interrupt handlers lie. -/
def vectorBase (r : Registers) : Word :=
  if r.msr &&& Msr.ip != 0 then 0xFFF00000#32 else 0x80000000#32

end Registers

namespace SystemInstr

def exec (i : SystemInstr) (r : Registers) : Registers :=
  match i with
  | .fromSpecial rd n => r.setGpr rd (r.special n.toNat)
  | .toSpecial n rs =>
    let value := r.gpr.read rs
    r.setSpecial n.toNat (if n.toNat = Spr.xer then value &&& Xer.writable else value)
  | .fromTimeBase rd false => r.setGpr rd (r.tb.extractLsb' 0 32)
  | .fromTimeBase rd true => r.setGpr rd (r.tb.extractLsb' 32 32)
  | .fromMsr rd => r.setGpr rd r.msr
  | .toMsr rs => { r with msr := r.gpr.read rs }
  | .fromSegment rd s => r.setGpr rd (r.sr.read (r.segmentNumber s))
  | .toSegment s rs => { r with sr := r.sr.write (r.segmentNumber s) (r.gpr.read rs) }
  | .call =>
    { r with
      srr0 := r.pc + 4
      srr1 := r.msr &&& Msr.saved
      msr := r.msr &&& ~~~Msr.clearedOnInterrupt
      npc := r.vectorBase ||| systemCallVector }
  | .returnFromInterrupt =>
    { r with
      msr := ((r.msr &&& ~~~Msr.saved) ||| (r.srr1 &&& Msr.saved)) &&& ~~~Msr.pow
      npc := aligned r.srr0
      reservation := none }
  | .nothing => r

end SystemInstr

end Broadway
