import Broadway.Exec.Paired
import Broadway.Proofs.Checked.Registers

/-!
# Floating point with checked arithmetic

The scalar and the paired floating point instructions once more. Arithmetic on doubles cannot stop:
what has no value is a NaN, and what is too large for an integer is clamped. What can stop is the
upkeep of the status register, where classes, codes, fields and summaries are found by shifts; so
each operation is written again as far as it raises an exception.

* Both units do under checks what they do without (`Checked.execFloat_eq`,
  `Checked.execPaired_eq`).
-/

namespace Broadway.Checked

/-! ## The status register -/

/-- Computes the two summaries anew. -/
def summarize (s : Word) : Checked Word := do
  let s := Fpscr.assign s Fpscr.vx (s &&& Fpscr.vxAny != 0)
  let causes ← shr s 22
  return Fpscr.assign s Fpscr.fex (causes &&& s &&& 0xF8#32 != 0)

def raise (s mask : Word) : Checked Word :=
  if mask = 0 then .ok s
  else summarize ((if s &&& mask != mask then s ||| Fpscr.fx else s) ||| mask)

def raiseIf (p : Bool) (s mask : Word) : Checked Word := if p then raise s mask else .ok s

/-- Records the class of a result. -/
def setClass (s : Word) (x : Double) : Checked Word := do
  let c ← shl ((Fpscr.classify x).setWidth 32) 12
  return (s &&& ~~~Fpscr.fprf) ||| c

/-- Records the condition code of a comparison. -/
def setCode (s : Word) (code : BitVec 4) : Checked Word := do
  let c ← shl (code.setWidth 32) 12
  return (s &&& ~~~Fpscr.fpcc) ||| c

/-- The status after a comparison. -/
def compareStatus (ordered : Bool) (s : Word) (a b : Double) : Checked Word := do
  let s ← setCode s (Fpscr.compareCode a b)
  if a.isSignaling || b.isSignaling then
    raise s (Fpscr.vxsnan ||| if ordered && s &&& Fpscr.ve == 0 then Fpscr.vxvc else 0)
  else raiseIf (ordered && (a.isNaN || b.isNaN)) s Fpscr.vxvc

def setStatusBit (s : Word) (b : BitVec 5) : Checked Word := do
  let bit ← shr 0x80000000#32 b.toNat
  let s ← if bit &&& Fpscr.anyX != 0 then raise s bit else .ok (s ||| bit)
  summarize s

def clearStatusBit (s : Word) (b : BitVec 5) : Checked Word := do
  let bit ← shr 0x80000000#32 b.toNat
  summarize (s &&& ~~~bit)

def setStatusField (s : Word) (n : BitVec 3) (v : BitVec 4) : Checked Word := do
  summarize (← writeField s n v)

/-- Replaces the fields whose mask bit is set. -/
def setStatusFields (s : Word) (mask : Byte) (v : Word) : Checked Word := do
  let fields ← spread statusShift mask
  summarize ((s &&& ~~~fields) ||| (v &&& fields))

/-- A field of the status register, and the register without the sticky bits of the field. -/
def takeStatusField (s : Word) (n : BitVec 3) : Checked (BitVec 4 × Word) := do
  let place ← statusShift n
  let field ← shr s place.toNat
  let mask ← shl 0xF#32 place.toNat
  return (field.setWidth 4, ← summarize (s &&& ~~~(mask &&& (Fpscr.fx ||| Fpscr.anyX))))

@[simp]
theorem summarize_eq (s : Word) : summarize s = .ok (Fpscr.summarize s) := by
  rw [summarize, shr_eq (by decide), ok_bind, pure_eq]
  rfl

@[simp]
theorem raise_eq (s mask : Word) : raise s mask = .ok (Fpscr.raise s mask) := by
  unfold raise Fpscr.raise
  split
  · rfl
  · exact summarize_eq _

@[simp]
theorem raiseIf_eq (p : Bool) (s mask : Word) :
    raiseIf p s mask = .ok (if p then Fpscr.raise s mask else s) := by
  cases p with
  | false => rfl
  | true => exact raise_eq s mask

@[simp]
theorem setClass_eq (s : Word) (x : Double) : setClass s x = .ok (Fpscr.setClass s x) := by
  rw [setClass, shl_eq (by decide), ok_bind, pure_eq, Fpscr.setClass]

@[simp]
theorem setCode_eq (s : Word) (code : BitVec 4) : setCode s code = .ok (Fpscr.setCode s code) := by
  rw [setCode, shl_eq (by decide), ok_bind, pure_eq, Fpscr.setCode]

@[simp]
theorem compareStatus_eq (ordered : Bool) (s : Word) (a b : Double) :
    compareStatus ordered s a b = .ok (Fpscr.compare ordered s a b) := by
  simp only [compareStatus, Fpscr.compare, setCode_eq, ok_bind, raise_eq, raiseIf_eq]
  split <;> rfl

@[simp]
theorem setStatusBit_eq (s : Word) (b : BitVec 5) :
    setStatusBit s b = .ok (Fpscr.setBit s b) := by
  rw [setStatusBit, shr_eq (by omega), ok_bind, Fpscr.setBit]
  by_cases hsticky : 0x80000000#32 >>> b.toNat &&& Fpscr.anyX != 0
  · simp only [hsticky, if_true, raise_eq, ok_bind, summarize_eq]
  · simp only [hsticky, Bool.false_eq_true, if_false, ok_bind, summarize_eq]

@[simp]
theorem clearStatusBit_eq (s : Word) (b : BitVec 5) :
    clearStatusBit s b = .ok (Fpscr.clearBit s b) := by
  rw [clearStatusBit, shr_eq (by omega), ok_bind, summarize_eq, Fpscr.clearBit]

@[simp]
theorem setStatusField_eq (s : Word) (n : BitVec 3) (v : BitVec 4) :
    setStatusField s n v = .ok (Fpscr.setField s n v) := by
  rw [setStatusField, writeField_eq, ok_bind, summarize_eq, Fpscr.setField]

@[simp]
theorem setStatusFields_eq (s : Word) (mask : Byte) (v : Word) :
    setStatusFields s mask v = .ok (Fpscr.setFields s mask v) := by
  rw [setStatusFields, spread_eq statusShift_eq, ok_bind, summarize_eq, Fpscr.setFields,
    Condition.blend]

@[simp]
theorem takeStatusField_eq (s : Word) (n : BitVec 3) :
    takeStatusField s n = .ok (Condition.field s n, Fpscr.clearField s n) := by
  rw [takeStatusField, statusShift_eq, ok_bind, toNat_shift, shr_eq (shift_lt n), ok_bind,
    shl_eq (shift_lt n), ok_bind, summarize_eq, ok_bind, pure_eq]
  rfl

/-! ## Arithmetic with status -/

/-- The result of an operation that has no value. -/
def invalid (s : Word) (inputs : List Double) (cause : Word) : Checked (Double × Word) := do
  let s ← raiseIf (inputs.any (·.isSignaling)) s Fpscr.vxsnan
  match inputs.find? (·.isNaN) with
  | some x => return (x.quiet, s)
  | none => return (Double.defaultNaN, ← raise s cause)

/-- An operation whose value, if there is one, raises nothing. -/
def valueOr (value : Option Double) (s : Word) (inputs : List Double) (cause : Word) :
    Checked (Double × Word) :=
  match value with
  | some x => .ok (x, s)
  | none => invalid s inputs cause

/-- A quotient, whose value raises the division by zero. -/
def quotientOr (value : Option Double) (s : Word) (b : Double) (inputs : List Double)
    (cause : Word) : Checked (Double × Word) := do
  match value with
  | some x => return (x, ← raiseIf b.isZero s Fpscr.zx)
  | none => invalid s inputs cause

def reciprocalSqrt (s : Word) (b : Double) : Checked (Double × Word) := do
  if b.isNaN then invalid s [b] 0
  else if b.isZero then return (Double.infinity b.negative, ← raise s Fpscr.zx)
  else
    match b.sqrt?.bind (Double.div? .one) with
    | some x => return (x, s)
    | none => return (Double.defaultNaN, ← raise s Fpscr.vxsqrt)

/-- The result of an operation and the status after it. -/
def evalFloat (op : FloatOp) (s : Word) (a b c : Double) : Checked (Double × Word) :=
  match op with
  | .add => valueOr (a.add? b) s [a, b] Fpscr.vxisi
  | .sub => valueOr (a.sub? b) s [a, b] Fpscr.vxisi
  | .mul => valueOr (a.mul? c) s [a, c] Fpscr.vximz
  | .div => quotientOr (a.div? b) s b [a, b] (Fpu.divCause a b)
  | .madd => valueOr (a.mulAdd? c b) s [a, b, c] (Fpu.fusedCause a c)
  | .msub => valueOr (a.mulSub? c b) s [a, b, c] (Fpu.fusedCause a c)
  | .nmadd => do
    let x ← valueOr (a.mulAdd? c b) s [a, b, c] (Fpu.fusedCause a c)
    return x.map Fpu.negateResult id
  | .nmsub => do
    let x ← valueOr (a.mulSub? c b) s [a, b, c] (Fpu.fusedCause a c)
    return x.map Fpu.negateResult id
  | .reciprocal => quotientOr (Double.div? .one b) s b [b] 0
  | .reciprocalSqrt => reciprocalSqrt s b

/-- The register contents and the status after the conversion of a double to an integer. -/
def toInteger (mode : Rounding) (s : Word) (x : Double) : Checked (Double × Word) := do
  let s ← raiseIf x.isSignaling s Fpscr.vxsnan
  let conversion := Conversion.ofDouble mode x
  let bits := Double.ofWord conversion.word
  let bits := if conversion.word = 0 ∧ x.negative then bits ||| 1#64 <<< 32 else bits
  match conversion with
  | .clamped _ => return (bits, ← raise s Fpscr.vxcvi)
  | .rounded _ inexact grown =>
    let s := Fpscr.assign (Fpscr.assign s Fpscr.fi inexact) Fpscr.fr (inexact && grown)
    return (bits, ← raiseIf inexact s Fpscr.xx)

@[simp]
theorem invalid_eq (s : Word) (inputs : List Double) (cause : Word) :
    invalid s inputs cause = .ok (Fpu.invalid s inputs cause) := by
  simp only [invalid, Fpu.invalid, raiseIf_eq, raise_eq, ok_bind, pure_eq]
  cases inputs.find? (·.isNaN) <;> rfl

@[simp]
theorem reciprocalSqrt_eq (s : Word) (b : Double) :
    reciprocalSqrt s b = .ok (Fpu.reciprocalSqrt s b) := by
  simp only [reciprocalSqrt, Fpu.reciprocalSqrt, invalid_eq, raise_eq, ok_bind, pure_eq]
  split
  · rfl
  · split
    · rfl
    · cases b.sqrt?.bind (Double.div? .one) <;> rfl

theorem valueOr_eq (value : Option Double) (s : Word) (inputs : List Double) (cause : Word) :
    valueOr value s inputs cause
      = .ok (match value with
        | some x => (x, s)
        | none => Fpu.invalid s inputs cause) := by
  cases value with
  | some => rfl
  | none => exact invalid_eq s inputs cause

theorem quotientOr_eq (value : Option Double) (s : Word) (b : Double) (inputs : List Double)
    (cause : Word) :
    quotientOr value s b inputs cause
      = .ok (match value with
        | some x => (x, if b.isZero then Fpscr.raise s Fpscr.zx else s)
        | none => Fpu.invalid s inputs cause) := by
  cases value with
  | some => simp only [quotientOr, raiseIf_eq, ok_bind, pure_eq]
  | none => exact invalid_eq s inputs cause

@[simp]
theorem evalFloat_eq (op : FloatOp) (s : Word) (a b c : Double) :
    evalFloat op s a b c = .ok (op.eval s a b c) := by
  cases op with
  | div | reciprocal => exact quotientOr_eq ..
  | reciprocalSqrt => exact reciprocalSqrt_eq s b
  | nmadd | nmsub => simp only [evalFloat, valueOr_eq, ok_bind, pure_eq]; rfl
  | _ => exact valueOr_eq ..

@[simp]
theorem toInteger_eq (mode : Rounding) (s : Word) (x : Double) :
    toInteger mode s x = .ok (Double.toInteger mode s x) := by
  simp only [toInteger, Double.toInteger, raiseIf_eq, raise_eq, ok_bind, pure_eq]
  cases Conversion.ofDouble mode x <;> rfl

/-! ## Results -/

/-- Writes a result in the precision asked for and records its class. -/
def finishFloat (r : Registers) (precision : Precision) (frt : Reg) (rc : Bool)
    (x : Double × Word) : Checked Registers := do
  match precision with
  | .double => recordStatusIf ((r.setPs0 frt x.1).setFpscr (← setClass x.2 x.1)) rc
  | .single =>
    let y := Single.round x.1
    recordStatusIf ((r.setFpr frt (.both y)).setFpscr (← setClass x.2 y)) rc

/-- Writes both lanes, rounded to single precision, and records the class of one of them. -/
def finishPair (r : Registers) (frt : Reg) (rc : Bool) (lane : Lane) (ps0 ps1 : Double)
    (s : Word) : Checked Registers := do
  let x : Lanes := ⟨Single.round ps0, Single.round ps1⟩
  recordStatusIf ((r.setFpr frt x).setFpscr (← setClass s (x.lane lane))) rc

/-! ## Units -/

def execFloat (i : FloatInstr) (r : Registers) : Checked Registers := do
  match i with
  | .arith op precision frt fra frb frc rc =>
    finishFloat r precision frt rc
      (← evalFloat op r.fpscr (r.ps0 fra) (r.ps0 frb) (r.ps0 frc))
  | .select frt fra frb frc rc =>
    recordStatusIf
      (r.setPs0 frt (if (r.ps0 fra).atLeastZero then r.ps0 frc else r.ps0 frb)) rc
  | .move op frt frb rc => recordStatusIf (r.setPs0 frt (op.eval (r.ps0 frb))) rc
  | .roundToSingle frt frb rc =>
    let x := r.ps0 frb
    let s ← raiseIf x.isSignaling r.fpscr Fpscr.vxsnan
    finishFloat r .single frt rc (x, s)
  | .toInteger truncate frt frb rc =>
    let mode := if truncate then .towardZero else Rounding.ofStatus r.fpscr
    let (bits, s) ← toInteger mode r.fpscr (r.ps0 frb)
    recordStatusIf ((r.setFpscr s).setPs0 frt bits) rc
  | .compare ordered field fra frb =>
    let a := r.ps0 fra
    let b := r.ps0 frb
    setCrField (r.setFpscr (← compareStatus ordered r.fpscr a b)) field (Fpscr.compareCode a b)
  | .fromStatus frt rc => recordStatusIf (r.setPs0 frt (Double.ofWord r.fpscr)) rc
  | .clearStatusBit b rc => recordStatusIf (r.setFpscr (← clearStatusBit r.fpscr b)) rc
  | .setStatusBit b rc => recordStatusIf (r.setFpscr (← setStatusBit r.fpscr b)) rc
  | .setStatusField n v rc => recordStatusIf (r.setFpscr (← setStatusField r.fpscr n v)) rc
  | .setStatusFields mask frb rc =>
    let s ← setStatusFields r.fpscr mask ((r.ps0 frb).setWidth 32)
    recordStatusIf (r.setFpscr s) rc
  | .statusToCondition target source =>
    let (field, s) ← takeStatusField r.fpscr source
    setCrField (r.setFpscr s) target field

def execPaired (i : PairedInstr) (r : Registers) : Checked Registers := do
  match i with
  | .arith op broadcast frt fra frb frc rc =>
    let a := r.fpr.read fra
    let b := r.fpr.read frb
    let c := PairedInstr.broadcastLanes (r.fpr.read frc) broadcast
    let (x, s) ← evalFloat op r.fpscr a.ps0 b.ps0 c.ps0
    let (y, s) ← evalFloat op s a.ps1 b.ps1 c.ps1
    finishPair r frt rc .ps0 x y s
  | .sum lane frt fra frb frc rc =>
    let (x, s) ← evalFloat .add r.fpscr (r.fpr.read fra).ps0 (r.fpr.read frb).ps1 0
    let c := r.fpr.read frc
    match lane with
    | .ps0 => finishPair r frt rc .ps0 x c.ps1 s
    | .ps1 => finishPair r frt rc .ps1 c.ps0 x s
  | .select frt fra frb frc rc =>
    let a := r.fpr.read fra
    let b := r.fpr.read frb
    let c := r.fpr.read frc
    recordStatusIf
      (r.setFpr frt
        ⟨if a.ps0.atLeastZero then c.ps0 else b.ps0,
          if a.ps1.atLeastZero then c.ps1 else b.ps1⟩) rc
  | .move op frt frb rc =>
    let b := r.fpr.read frb
    recordStatusIf (r.setFpr frt ⟨op.eval b.ps0, op.eval b.ps1⟩) rc
  | .merge fromA fromB frt fra frb rc =>
    recordStatusIf
      (r.setFpr frt ⟨(r.fpr.read fra).lane fromA, (r.fpr.read frb).lane fromB⟩) rc
  | .compare lane ordered field fra frb =>
    let a := (r.fpr.read fra).lane lane
    let b := (r.fpr.read frb).lane lane
    setCrField (r.setFpscr (← compareStatus ordered r.fpscr a b)) field (Fpscr.compareCode a b)

@[simp]
theorem finishFloat_eq (r : Registers) (precision : Precision) (frt : Reg) (rc : Bool)
    (x : Double × Word) :
    finishFloat r precision frt rc x = .ok (r.finishFloat precision frt rc x) := by
  cases precision <;>
    simp only [finishFloat, Registers.finishFloat, setClass_eq, ok_bind, recordStatusIf_eq]

@[simp]
theorem finishPair_eq (r : Registers) (frt : Reg) (rc : Bool) (lane : Lane) (ps0 ps1 : Double)
    (s : Word) :
    finishPair r frt rc lane ps0 ps1 s
      = .ok (((r.setFpr frt ⟨Single.round ps0, Single.round ps1⟩).setFpscr
        (Fpscr.setClass s (Lanes.lane ⟨Single.round ps0, Single.round ps1⟩ lane))).recordStatusIf
          rc) := by
  simp only [finishPair, setClass_eq, ok_bind, recordStatusIf_eq]

theorem execFloat_eq (i : FloatInstr) (r : Registers) : execFloat i r = .ok (i.exec r) := by
  cases i <;> simp [execFloat, FloatInstr.exec, Registers.finishMove]

theorem execPaired_eq (i : PairedInstr) (r : Registers) : execPaired i r = .ok (i.exec r) := by
  cases i with
  | sum lane => cases lane <;> simp [execPaired, PairedInstr.exec] <;> rfl
  | arith => simp [execPaired, PairedInstr.exec]; rfl
  | _ => simp [execPaired, PairedInstr.exec, Registers.finishPairMove]

end Broadway.Checked
