import Broadway.Float.Arithmetic
import Broadway.Float.Integer
import Broadway.Float.Single
import Broadway.Registers

/-!
# Floating point instructions

Scalar instructions work on `ps0`. A double precision result leaves `ps1` alone; a single precision
result is rounded and fills both lanes. Arithmetic records the class of its result, moves do not.
Writes to the status register leave its two summary bits to be computed anew.
-/

namespace Broadway

namespace Fpscr

/-- The status after a comparison. An ordered comparison with a NaN is invalid; if the NaN is
signalling and invalid operations are enabled, that alone is reported. -/
def compare (ordered : Bool) (s : Word) (a b : Double) : Word :=
  let s := setCode s (compareCode a b)
  if a.isSignaling || b.isSignaling then
    raise s (vxsnan ||| if ordered && s &&& ve == 0 then vxvc else 0)
  else if ordered && (a.isNaN || b.isNaN) then raise s vxvc
  else s

/-- Sets one bit; a sticky exception is raised by it. The bit is numbered from the most significant
one. -/
def setBit (s : Word) (b : BitVec 5) : Word :=
  let bit := 0x80000000#32 >>> b.toNat
  summarize (if bit &&& anyX != 0 then raise s bit else s ||| bit)

def clearBit (s : Word) (b : BitVec 5) : Word :=
  summarize (s &&& ~~~(0x80000000#32 >>> b.toNat))

def setField (s : Word) (n : BitVec 3) (v : BitVec 4) : Word :=
  summarize (Condition.setField s n v)

/-- Replaces the fields whose mask bit is set. -/
def setFields (s : Word) (mask : BitVec 8) (v : Word) : Word := summarize (Condition.blend mask s v)

/-- Clears the sticky bits of a field. -/
def clearField (s : Word) (n : BitVec 3) : Word :=
  summarize (s &&& ~~~((0xF#32 <<< Condition.shift n) &&& (fx ||| anyX)))

end Fpscr

/-- Whether a number is not below zero; a NaN is not, a negative zero is. -/
def Double.atLeastZero (x : Double) : Bool := !x.isNaN && (!x.negative || x.isZero)

namespace Registers

def setFpscr (r : Registers) (s : Word) : Registers := { r with fpscr := s }

/-- Records the exception summaries in the condition register, if asked to. -/
def recordStatusIf (r : Registers) (rc : Bool) : Registers := if rc then r.recordStatus else r

/-- Writes a result in the precision asked for and records its class. -/
def finishFloat (r : Registers) (precision : Precision) (frt : Reg) (rc : Bool)
    (x : Double × Word) : Registers :=
  match precision with
  | .double => ((r.setPs0 frt x.1).setFpscr (Fpscr.setClass x.2 x.1)).recordStatusIf rc
  | .single =>
    let y := Single.round x.1
    ((r.setFpr frt (.both y)).setFpscr (Fpscr.setClass x.2 y)).recordStatusIf rc

/-- Writes bits to `ps0` without a record of their class. -/
def finishMove (r : Registers) (frt : Reg) (rc : Bool) (x : Double) : Registers :=
  (r.setPs0 frt x).recordStatusIf rc

/-- The first lane of a floating point register. -/
def ps0 (r : Registers) (i : Reg) : Double := (r.fpr.read i).ps0

end Registers

namespace FloatInstr

def exec (i : FloatInstr) (r : Registers) : Registers :=
  match i with
  | .arith op precision frt fra frb frc rc =>
    r.finishFloat precision frt rc (op.eval r.fpscr (r.ps0 fra) (r.ps0 frb) (r.ps0 frc))
  | .select frt fra frb frc rc =>
    r.finishMove frt rc (if (r.ps0 fra).atLeastZero then r.ps0 frc else r.ps0 frb)
  | .move op frt frb rc => r.finishMove frt rc (op.eval (r.ps0 frb))
  | .roundToSingle frt frb rc =>
    let x := r.ps0 frb
    let s := if x.isSignaling then Fpscr.raise r.fpscr Fpscr.vxsnan else r.fpscr
    r.finishFloat .single frt rc (x, s)
  | .toInteger truncate frt frb rc =>
    let mode := if truncate then .towardZero else Rounding.ofStatus r.fpscr
    let (bits, s) := Double.toInteger mode r.fpscr (r.ps0 frb)
    (r.setFpscr s).finishMove frt rc bits
  | .compare ordered field fra frb =>
    let a := r.ps0 fra
    let b := r.ps0 frb
    (r.setFpscr (Fpscr.compare ordered r.fpscr a b)).setCrField field (Fpscr.compareCode a b)
  | .fromStatus frt rc => r.finishMove frt rc (Double.ofWord r.fpscr)
  | .clearStatusBit b rc => (r.setFpscr (Fpscr.clearBit r.fpscr b)).recordStatusIf rc
  | .setStatusBit b rc => (r.setFpscr (Fpscr.setBit r.fpscr b)).recordStatusIf rc
  | .setStatusField n v rc => (r.setFpscr (Fpscr.setField r.fpscr n v)).recordStatusIf rc
  | .setStatusFields mask frb rc =>
    (r.setFpscr (Fpscr.setFields r.fpscr mask ((r.ps0 frb).setWidth 32))).recordStatusIf rc
  | .statusToCondition target source =>
    (r.setFpscr (Fpscr.clearField r.fpscr source)).setCrField target
      (Condition.field r.fpscr source)

end FloatInstr

end Broadway
