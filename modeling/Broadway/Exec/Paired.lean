import Broadway.Exec.Float

/-!
# Paired single instructions

Arithmetic works on both lanes, the first before the second, so that the status collects the
exceptions of both; both results are rounded to single precision. The class on record is that of
the first lane, or of the lane that a sum is written to.
-/

namespace Broadway

def Lanes.lane (l : Lanes) : Lane → Double
  | .ps0 => l.ps0
  | .ps1 => l.ps1

namespace Registers

/-- Writes two results, rounded to single precision, and records the class of the first. -/
def finishPair (r : Registers) (frt : Reg) (rc : Bool) (ps0 ps1 : Double) (s : Word) :
    Registers :=
  let x := Single.round ps0
  let y := Single.round ps1
  ((r.setFpr frt ⟨x, y⟩).setFpscr (Fpscr.setClass s x)).recordStatusIf rc

/-- Writes both lanes without a record of their class. -/
def finishPairMove (r : Registers) (frt : Reg) (rc : Bool) (x : Lanes) : Registers :=
  (r.setFpr frt x).recordStatusIf rc

end Registers

namespace PairedInstr

/-- The operand that both lanes take from frC: each its own lane, or one lane for both. -/
def broadcastLanes (l : Lanes) : Option Lane → Lanes
  | none => l
  | some lane => .both (l.lane lane)

def exec (i : PairedInstr) (r : Registers) : Registers :=
  match i with
  | .arith op broadcast frt fra frb frc rc =>
    let a := r.fpr.read fra
    let b := r.fpr.read frb
    let c := broadcastLanes (r.fpr.read frc) broadcast
    let (x, s) := op.eval r.fpscr a.ps0 b.ps0 c.ps0
    let (y, s) := op.eval s a.ps1 b.ps1 c.ps1
    r.finishPair frt rc x y s
  | .sum lane frt fra frb frc rc =>
    let (x, s) := Fpu.add r.fpscr (r.fpr.read fra).ps0 (r.fpr.read frb).ps1
    let c := r.fpr.read frc
    match lane with
    | .ps0 => r.finishPair frt rc x c.ps1 s
    | .ps1 =>
      let y := Single.round x
      ((r.setFpr frt ⟨Single.round c.ps0, y⟩).setFpscr (Fpscr.setClass s y)).recordStatusIf rc
  | .select frt fra frb frc rc =>
    let a := r.fpr.read fra
    let b := r.fpr.read frb
    let c := r.fpr.read frc
    r.finishPairMove frt rc
      ⟨if a.ps0.atLeastZero then c.ps0 else b.ps0, if a.ps1.atLeastZero then c.ps1 else b.ps1⟩
  | .move op frt frb rc =>
    let b := r.fpr.read frb
    r.finishPairMove frt rc ⟨op.eval b.ps0, op.eval b.ps1⟩
  | .merge fromA fromB frt fra frb rc =>
    r.finishPairMove frt rc ⟨(r.fpr.read fra).lane fromA, (r.fpr.read frb).lane fromB⟩
  | .compare lane ordered field fra frb =>
    let a := (r.fpr.read fra).lane lane
    let b := (r.fpr.read frb).lane lane
    (r.setFpscr (Fpscr.compare ordered r.fpscr a b)).setCrField field (Fpscr.compareCode a b)

end PairedInstr

end Broadway
