import Broadway.Float.Status
import Broadway.Instr

/-!
# Arithmetic with status

What the processor makes of an operation on doubles: the result, and the status with the exceptions
that the operation raised. One rule (`invalid`) says what an operation without a value gives: the
first operand that is a NaN, made quiet, or else the default NaN with the cause of the failure.
-/

namespace Broadway.Fpu

/-- The result of an operation that has no value. `inputs` are the operands in the order in which
a NaN among them is passed on; `cause` is raised if none of them is a NaN. -/
def invalid (s : Word) (inputs : List Double) (cause : Word) : Double × Word :=
  let s := if inputs.any (·.isSignaling) then Fpscr.raise s Fpscr.vxsnan else s
  match inputs.find? (·.isNaN) with
  | some x => (x.quiet, s)
  | none => (Double.defaultNaN, Fpscr.raise s cause)

def add (s : Word) (a b : Double) : Double × Word :=
  match a.add? b with
  | some x => (x, s)
  | none => invalid s [a, b] Fpscr.vxisi

def sub (s : Word) (a b : Double) : Double × Word :=
  match a.sub? b with
  | some x => (x, s)
  | none => invalid s [a, b] Fpscr.vxisi

def mul (s : Word) (a c : Double) : Double × Word :=
  match a.mul? c with
  | some x => (x, s)
  | none => invalid s [a, c] Fpscr.vximz

/-- Why a quotient has no value. -/
def divCause (a b : Double) : Word :=
  if b.isZero then Fpscr.vxzdz
  else if a.isInfinite && b.isInfinite then Fpscr.vxidi
  else 0

/-- A quotient over zero that has a value raises the division by zero. -/
def div (s : Word) (a b : Double) : Double × Word :=
  match a.div? b with
  | some x => (x, if b.isZero then Fpscr.raise s Fpscr.zx else s)
  | none => invalid s [a, b] (divCause a b)

/-- Why a fused operation has no value: its product has none, or its sum. -/
def fusedCause (a c : Double) : Word := if (a.mul? c).isNone then Fpscr.vximz else Fpscr.vxisi

/-- `a * c + b` with one rounding. -/
def madd (s : Word) (a c b : Double) : Double × Word :=
  match a.mulAdd? c b with
  | some x => (x, s)
  | none => invalid s [a, b, c] (fusedCause a c)

/-- `a * c - b` with one rounding. -/
def msub (s : Word) (a c b : Double) : Double × Word :=
  match a.mulSub? c b with
  | some x => (x, s)
  | none => invalid s [a, b, c] (fusedCause a c)

/-- Negates a result; a NaN keeps its sign. -/
def negateResult (x : Double) : Double := if x.isNaN then x else x.negate

/-- The reciprocal, correctly rounded. -/
def reciprocal (s : Word) (b : Double) : Double × Word :=
  match Double.div? .one b with
  | some x => (x, if b.isZero then Fpscr.raise s Fpscr.zx else s)
  | none => invalid s [b] 0

/-- The reciprocal of the correctly rounded square root. -/
def reciprocalSqrt (s : Word) (b : Double) : Double × Word :=
  if b.isNaN then invalid s [b] 0
  else if b.isZero then (Double.infinity b.negative, Fpscr.raise s Fpscr.zx)
  else
    match b.sqrt?.bind (Double.div? .one) with
    | some x => (x, s)
    | none => (Double.defaultNaN, Fpscr.raise s Fpscr.vxsqrt)

end Broadway.Fpu

namespace Broadway.FloatOp

/-- The result of an operation and the status after it. Products are of `a` and `c`. -/
def eval (op : FloatOp) (s : Word) (a b c : Double) : Double × Word :=
  match op with
  | .add => Fpu.add s a b
  | .sub => Fpu.sub s a b
  | .mul => Fpu.mul s a c
  | .div => Fpu.div s a b
  | .madd => Fpu.madd s a c b
  | .msub => Fpu.msub s a c b
  | .nmadd => (Fpu.madd s a c b).map Fpu.negateResult id
  | .nmsub => (Fpu.msub s a c b).map Fpu.negateResult id
  | .reciprocal => Fpu.reciprocal s b
  | .reciprocalSqrt => Fpu.reciprocalSqrt s b

end Broadway.FloatOp

namespace Broadway.FloatMove

def eval : FloatMove → Double → Double
  | .copy, x => x
  | .negate, x => x.negate
  | .absolute, x => x.absolute
  | .negativeAbsolute, x => x.negativeAbsolute

end Broadway.FloatMove
