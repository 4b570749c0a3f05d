import Broadway.Encoding.Field

/-!
# Instruction forms

An instruction word is laid out in one of seventeen forms. Each form is a structure with one
component per operand field, together with the function that reads it from a word and the function
that builds the word. Reading is total: every word has a value in every form, and whether that
value is an instruction is a later question.

Components have a whole number of bytes, as an assembler hands them over; `encode` keeps the bits
for which the field has room, so that an operand which is too wide never spills into the next
field. Signed components (`li`, `bd`, `d`, `ds`) are in two's complement.

Components named for one operand serve others too: `rt` is also rS, frD, frS, TO, or the target
field and length bit of a compare; `ra` is also frA, BI or a segment register number; `rb` is also
frB, a shift amount or a byte count.
-/

namespace Broadway

/-- A value at its place in a word, its least significant bit `lo` places up. -/
def place {n : Nat} (v : BitVec n) (lo : Nat) : Word := v.setWidth 32 <<< lo

/-- A flag at its place in a word. -/
def placeBit (b : Bool) (lo : Nat) : Word := place (BitVec.ofBool b) lo

/-- Six bits that stand in the word with the most significant one last. -/
def rotateSix (v : BitVec 6) : BitVec 6 := v.extractLsb' 0 5 ++ v.extractLsb' 5 1

/-- The inverse of `rotateSix`. -/
def unrotateSix (v : BitVec 6) : BitVec 6 := v.extractLsb' 0 1 ++ v.extractLsb' 1 5

/-- Unconditional branch. -/
structure IForm where
  opcd : BitVec 8
  /-- Byte displacement. -/
  li : Word
  aa : Bool
  lk : Bool
  deriving DecidableEq

namespace IForm

def decode (w : Word) : IForm where
  opcd := (Field.opcd w).setWidth 8
  li := Field.li w
  aa := Field.aa w
  lk := Field.bit31 w

def encode (f : IForm) : Word :=
  place (f.opcd.setWidth 6) 26 ||| place (f.li.extractLsb' 2 24) 2 ||| placeBit f.aa 1
    ||| placeBit f.lk 0

end IForm

/-- Conditional branch. -/
structure BForm where
  opcd : BitVec 8
  bo : BitVec 8
  bi : BitVec 8
  /-- Byte displacement. -/
  bd : Word
  aa : Bool
  lk : Bool
  deriving DecidableEq

namespace BForm

def decode (w : Word) : BForm where
  opcd := (Field.opcd w).setWidth 8
  bo := (Field.rt w).setWidth 8
  bi := (Field.ra w).setWidth 8
  bd := Field.bd w
  aa := Field.aa w
  lk := Field.bit31 w

def encode (f : BForm) : Word :=
  place (f.opcd.setWidth 6) 26 ||| place (f.bo.setWidth 5) 21 ||| place (f.bi.setWidth 5) 16
    ||| place (f.bd.extractLsb' 2 14) 2 ||| placeBit f.aa 1 ||| placeBit f.lk 0

end BForm

/-- System call. -/
structure ScForm where
  opcd : BitVec 8
  lev : BitVec 8
  deriving DecidableEq

namespace ScForm

def decode (w : Word) : ScForm where
  opcd := (Field.opcd w).setWidth 8
  lev := (Field.lev w).setWidth 8

/-- Bit 30 of a system call is always set. -/
def encode (f : ScForm) : Word :=
  place (f.opcd.setWidth 6) 26 ||| place (f.lev.setWidth 7) 5 ||| placeBit true 1

end ScForm

/-- Register and 16-bit immediate: arithmetic, logic, compares, traps, loads and stores. -/
structure DForm where
  opcd : BitVec 8
  rt : BitVec 8
  ra : BitVec 8
  /-- Immediate or byte displacement. -/
  d : Half
  deriving DecidableEq

namespace DForm

def decode (w : Word) : DForm where
  opcd := (Field.opcd w).setWidth 8
  rt := (Field.rt w).setWidth 8
  ra := (Field.ra w).setWidth 8
  d := Field.immediate w

def encode (f : DForm) : Word :=
  place (f.opcd.setWidth 6) 26 ||| place (f.rt.setWidth 5) 21 ||| place (f.ra.setWidth 5) 16
    ||| place f.d 0

/-- The condition register field that a compare writes. -/
def crfd (f : DForm) : BitVec 8 := f.rt >>> 2

/-- The length bit of a compare. -/
def l (f : DForm) : Bool := f.rt.getLsbD 0

end DForm

/-- Doubleword load or store; the processor has none, the form can still be read. -/
structure DsForm where
  opcd : BitVec 8
  rt : BitVec 8
  ra : BitVec 8
  /-- Byte displacement. -/
  ds : Half
  xo : BitVec 8
  deriving DecidableEq

namespace DsForm

def decode (w : Word) : DsForm where
  opcd := (Field.opcd w).setWidth 8
  rt := (Field.rt w).setWidth 8
  ra := (Field.ra w).setWidth 8
  ds := w.extractLsb' 2 14 ++ 0#2
  xo := (w.extractLsb' 0 2).setWidth 8

def encode (f : DsForm) : Word :=
  place (f.opcd.setWidth 6) 26 ||| place (f.rt.setWidth 5) 21 ||| place (f.ra.setWidth 5) 16
    ||| place (f.ds.extractLsb' 2 14) 2 ||| place (f.xo.setWidth 2) 0

end DsForm

/-- Three registers and a ten-bit extended opcode. -/
structure XForm where
  opcd : BitVec 8
  rt : BitVec 8
  ra : BitVec 8
  rb : BitVec 8
  xo : BitVec 16
  rc : Bool
  deriving DecidableEq

namespace XForm

def decode (w : Word) : XForm where
  opcd := (Field.opcd w).setWidth 8
  rt := (Field.rt w).setWidth 8
  ra := (Field.ra w).setWidth 8
  rb := (Field.rb w).setWidth 8
  xo := (Field.xo10 w).setWidth 16
  rc := Field.bit31 w

def encode (f : XForm) : Word :=
  place (f.opcd.setWidth 6) 26 ||| place (f.rt.setWidth 5) 21 ||| place (f.ra.setWidth 5) 16
    ||| place (f.rb.setWidth 5) 11 ||| place (f.xo.setWidth 10) 1 ||| placeBit f.rc 0

/-- The condition register field that a compare writes. -/
def crfd (f : XForm) : BitVec 8 := f.rt >>> 2

/-- The length bit of a compare. -/
def l (f : XForm) : Bool := f.rt.getLsbD 0

/-- The status field that a move to the condition register reads. -/
def crfs (f : XForm) : BitVec 8 := f.ra >>> 2

/-- The segment register of a segment register move. -/
def sr (f : XForm) : BitVec 8 := f.ra &&& 0xF#8

end XForm

/-- Branch to a register, condition register logic. -/
structure XlForm where
  opcd : BitVec 8
  bt : BitVec 8
  ba : BitVec 8
  bb : BitVec 8
  xo : BitVec 16
  lk : Bool
  deriving DecidableEq

namespace XlForm

def decode (w : Word) : XlForm where
  opcd := (Field.opcd w).setWidth 8
  bt := (Field.rt w).setWidth 8
  ba := (Field.ra w).setWidth 8
  bb := (Field.rb w).setWidth 8
  xo := (Field.xo10 w).setWidth 16
  lk := Field.bit31 w

def encode (f : XlForm) : Word :=
  place (f.opcd.setWidth 6) 26 ||| place (f.bt.setWidth 5) 21 ||| place (f.ba.setWidth 5) 16
    ||| place (f.bb.setWidth 5) 11 ||| place (f.xo.setWidth 10) 1 ||| placeBit f.lk 0

end XlForm

/-- Moves of special purpose registers and of condition register fields. -/
structure XfxForm where
  opcd : BitVec 8
  rt : BitVec 8
  /-- Bits 11-20 as they stand in the word. -/
  field : BitVec 16
  xo : BitVec 16
  deriving DecidableEq

namespace XfxForm

def decode (w : Word) : XfxForm where
  opcd := (Field.opcd w).setWidth 8
  rt := (Field.rt w).setWidth 8
  field := (Field.sprField w).setWidth 16
  xo := (Field.xo10 w).setWidth 16

def encode (f : XfxForm) : Word :=
  place (f.opcd.setWidth 6) 26 ||| place (f.rt.setWidth 5) 21 ||| place (f.field.setWidth 10) 11
    ||| place (f.xo.setWidth 10) 1

/-- The number of the special purpose register. -/
def spr (f : XfxForm) : BitVec 10 := Field.swapHalves (f.field.setWidth 10)

/-- The mask of condition register fields. -/
def crm (f : XfxForm) : BitVec 8 := f.field.extractLsb' 1 8

end XfxForm

/-- Move to fields of the floating point status. -/
structure XflForm where
  opcd : BitVec 8
  fm : BitVec 8
  frb : BitVec 8
  xo : BitVec 16
  rc : Bool
  deriving DecidableEq

namespace XflForm

def decode (w : Word) : XflForm where
  opcd := (Field.opcd w).setWidth 8
  fm := Field.fm w
  frb := (Field.rb w).setWidth 8
  xo := (Field.xo10 w).setWidth 16
  rc := Field.bit31 w

def encode (f : XflForm) : Word :=
  place (f.opcd.setWidth 6) 26 ||| place f.fm 17 ||| place (f.frb.setWidth 5) 11
    ||| place (f.xo.setWidth 10) 1 ||| placeBit f.rc 0

end XflForm

/-- Doubleword shift by an immediate; the low five bits of the amount stand apart from the
sixth. -/
structure XsForm where
  opcd : BitVec 8
  rs : BitVec 8
  ra : BitVec 8
  sh : BitVec 8
  xo : BitVec 16
  rc : Bool
  deriving DecidableEq

namespace XsForm

def decode (w : Word) : XsForm where
  opcd := (Field.opcd w).setWidth 8
  rs := (Field.rt w).setWidth 8
  ra := (Field.ra w).setWidth 8
  sh := (w.extractLsb' 1 1 ++ Field.rb w).setWidth 8
  xo := (w.extractLsb' 2 9).setWidth 16
  rc := Field.bit31 w

def encode (f : XsForm) : Word :=
  place (f.opcd.setWidth 6) 26 ||| place (f.rs.setWidth 5) 21 ||| place (f.ra.setWidth 5) 16
    ||| place (f.sh.setWidth 5) 11 ||| place (f.xo.setWidth 9) 2
    ||| place (f.sh.extractLsb' 5 1) 1 ||| placeBit f.rc 0

end XsForm

/-- Register arithmetic that may record overflow. -/
structure XoForm where
  opcd : BitVec 8
  rt : BitVec 8
  ra : BitVec 8
  rb : BitVec 8
  oe : Bool
  xo : BitVec 16
  rc : Bool
  deriving DecidableEq

namespace XoForm

def decode (w : Word) : XoForm where
  opcd := (Field.opcd w).setWidth 8
  rt := (Field.rt w).setWidth 8
  ra := (Field.ra w).setWidth 8
  rb := (Field.rb w).setWidth 8
  oe := Field.oe w
  xo := (Field.xo9 w).setWidth 16
  rc := Field.bit31 w

def encode (f : XoForm) : Word :=
  place (f.opcd.setWidth 6) 26 ||| place (f.rt.setWidth 5) 21 ||| place (f.ra.setWidth 5) 16
    ||| place (f.rb.setWidth 5) 11 ||| placeBit f.oe 10 ||| place (f.xo.setWidth 9) 1
    ||| placeBit f.rc 0

end XoForm

/-- Floating point arithmetic with up to three operands. -/
structure AForm where
  opcd : BitVec 8
  frt : BitVec 8
  fra : BitVec 8
  frb : BitVec 8
  frc : BitVec 8
  xo : BitVec 8
  rc : Bool
  deriving DecidableEq

namespace AForm

def decode (w : Word) : AForm where
  opcd := (Field.opcd w).setWidth 8
  frt := (Field.rt w).setWidth 8
  fra := (Field.ra w).setWidth 8
  frb := (Field.rb w).setWidth 8
  frc := (Field.rc w).setWidth 8
  xo := (Field.xo5 w).setWidth 8
  rc := Field.bit31 w

def encode (f : AForm) : Word :=
  place (f.opcd.setWidth 6) 26 ||| place (f.frt.setWidth 5) 21 ||| place (f.fra.setWidth 5) 16
    ||| place (f.frb.setWidth 5) 11 ||| place (f.frc.setWidth 5) 6 ||| place (f.xo.setWidth 5) 1
    ||| placeBit f.rc 0

end AForm

/-- Rotate and mask. -/
structure MForm where
  opcd : BitVec 8
  rs : BitVec 8
  ra : BitVec 8
  /-- The rotation, or the register that holds it. -/
  rb : BitVec 8
  mb : BitVec 8
  me : BitVec 8
  rc : Bool
  deriving DecidableEq

namespace MForm

def decode (w : Word) : MForm where
  opcd := (Field.opcd w).setWidth 8
  rs := (Field.rt w).setWidth 8
  ra := (Field.ra w).setWidth 8
  rb := (Field.rb w).setWidth 8
  mb := (Field.rc w).setWidth 8
  me := (Field.me w).setWidth 8
  rc := Field.bit31 w

def encode (f : MForm) : Word :=
  place (f.opcd.setWidth 6) 26 ||| place (f.rs.setWidth 5) 21 ||| place (f.ra.setWidth 5) 16
    ||| place (f.rb.setWidth 5) 11 ||| place (f.mb.setWidth 5) 6 ||| place (f.me.setWidth 5) 1
    ||| placeBit f.rc 0

end MForm

/-- Doubleword rotate by an immediate; shift amount and mask bound are split fields. -/
structure MdForm where
  opcd : BitVec 8
  rs : BitVec 8
  ra : BitVec 8
  sh : BitVec 8
  mb : BitVec 8
  xo : BitVec 8
  rc : Bool
  deriving DecidableEq

namespace MdForm

def decode (w : Word) : MdForm where
  opcd := (Field.opcd w).setWidth 8
  rs := (Field.rt w).setWidth 8
  ra := (Field.ra w).setWidth 8
  sh := (w.extractLsb' 1 1 ++ Field.rb w).setWidth 8
  mb := (unrotateSix (w.extractLsb' 5 6)).setWidth 8
  xo := (w.extractLsb' 2 3).setWidth 8
  rc := Field.bit31 w

def encode (f : MdForm) : Word :=
  place (f.opcd.setWidth 6) 26 ||| place (f.rs.setWidth 5) 21 ||| place (f.ra.setWidth 5) 16
    ||| place (f.sh.setWidth 5) 11 ||| place (rotateSix (f.mb.setWidth 6)) 5
    ||| place (f.xo.setWidth 3) 2 ||| place (f.sh.extractLsb' 5 1) 1 ||| placeBit f.rc 0

end MdForm

/-- Doubleword rotate by a register; the mask bound is a split field. -/
structure MdsForm where
  opcd : BitVec 8
  rs : BitVec 8
  ra : BitVec 8
  rb : BitVec 8
  mb : BitVec 8
  xo : BitVec 8
  rc : Bool
  deriving DecidableEq

namespace MdsForm

def decode (w : Word) : MdsForm where
  opcd := (Field.opcd w).setWidth 8
  rs := (Field.rt w).setWidth 8
  ra := (Field.ra w).setWidth 8
  rb := (Field.rb w).setWidth 8
  mb := (unrotateSix (w.extractLsb' 5 6)).setWidth 8
  xo := (w.extractLsb' 1 4).setWidth 8
  rc := Field.bit31 w

def encode (f : MdsForm) : Word :=
  place (f.opcd.setWidth 6) 26 ||| place (f.rs.setWidth 5) 21 ||| place (f.ra.setWidth 5) 16
    ||| place (f.rb.setWidth 5) 11 ||| place (rotateSix (f.mb.setWidth 6)) 5
    ||| place (f.xo.setWidth 4) 1 ||| placeBit f.rc 0

end MdsForm

/-- Quantized load or store with a displacement. -/
structure PsqForm where
  opcd : BitVec 8
  frt : BitVec 8
  ra : BitVec 8
  w : Bool
  i : BitVec 8
  /-- Byte displacement. -/
  d : Half
  deriving DecidableEq

namespace PsqForm

def decode (w : Word) : PsqForm where
  opcd := (Field.opcd w).setWidth 8
  frt := (Field.rt w).setWidth 8
  ra := (Field.ra w).setWidth 8
  w := Field.psqW w
  i := (Field.psqI w).setWidth 8
  d := Field.psqD w

def encode (f : PsqForm) : Word :=
  place (f.opcd.setWidth 6) 26 ||| place (f.frt.setWidth 5) 21 ||| place (f.ra.setWidth 5) 16
    ||| placeBit f.w 15 ||| place (f.i.setWidth 3) 12 ||| place (f.d.setWidth 12) 0

end PsqForm

/-- Quantized load or store with an index register. -/
structure PsqxForm where
  opcd : BitVec 8
  frt : BitVec 8
  ra : BitVec 8
  rb : BitVec 8
  w : Bool
  i : BitVec 8
  xo : BitVec 8
  deriving DecidableEq

namespace PsqxForm

def decode (w : Word) : PsqxForm where
  opcd := (Field.opcd w).setWidth 8
  frt := (Field.rt w).setWidth 8
  ra := (Field.ra w).setWidth 8
  rb := (Field.rb w).setWidth 8
  w := Field.psqWx w
  i := (Field.psqIx w).setWidth 8
  xo := (Field.xo6 w).setWidth 8

def encode (f : PsqxForm) : Word :=
  place (f.opcd.setWidth 6) 26 ||| place (f.frt.setWidth 5) 21 ||| place (f.ra.setWidth 5) 16
    ||| place (f.rb.setWidth 5) 11 ||| placeBit f.w 10 ||| place (f.i.setWidth 3) 7
    ||| place (f.xo.setWidth 6) 1

end PsqxForm

/-- The seventeen layouts of an instruction word. -/
inductive FormKind
  | i | b | sc | d | ds | x | xl | xfx | xfl | xs | xo | a | m | md | mds | psq | psqx
  deriving DecidableEq

/-- An instruction word that has been taken apart. -/
inductive Form
  | i (f : IForm)
  | b (f : BForm)
  | sc (f : ScForm)
  | d (f : DForm)
  | ds (f : DsForm)
  | x (f : XForm)
  | xl (f : XlForm)
  | xfx (f : XfxForm)
  | xfl (f : XflForm)
  | xs (f : XsForm)
  | xo (f : XoForm)
  | a (f : AForm)
  | m (f : MForm)
  | md (f : MdForm)
  | mds (f : MdsForm)
  | psq (f : PsqForm)
  | psqx (f : PsqxForm)
  deriving DecidableEq

namespace Form

/-- The layout that a form has. -/
def kind : Form → FormKind
  | .i _ => .i
  | .b _ => .b
  | .sc _ => .sc
  | .d _ => .d
  | .ds _ => .ds
  | .x _ => .x
  | .xl _ => .xl
  | .xfx _ => .xfx
  | .xfl _ => .xfl
  | .xs _ => .xs
  | .xo _ => .xo
  | .a _ => .a
  | .m _ => .m
  | .md _ => .md
  | .mds _ => .mds
  | .psq _ => .psq
  | .psqx _ => .psqx

/-- The word that a form is laid out in. -/
def encode : Form → Word
  | .i f => f.encode
  | .b f => f.encode
  | .sc f => f.encode
  | .d f => f.encode
  | .ds f => f.encode
  | .x f => f.encode
  | .xl f => f.encode
  | .xfx f => f.encode
  | .xfl f => f.encode
  | .xs f => f.encode
  | .xo f => f.encode
  | .a f => f.encode
  | .m f => f.encode
  | .md f => f.encode
  | .mds f => f.encode
  | .psq f => f.encode
  | .psqx f => f.encode

/-- Reads a word in a given layout. -/
def decode (k : FormKind) (w : Word) : Form :=
  match k with
  | .i => .i (.decode w)
  | .b => .b (.decode w)
  | .sc => .sc (.decode w)
  | .d => .d (.decode w)
  | .ds => .ds (.decode w)
  | .x => .x (.decode w)
  | .xl => .xl (.decode w)
  | .xfx => .xfx (.decode w)
  | .xfl => .xfl (.decode w)
  | .xs => .xs (.decode w)
  | .xo => .xo (.decode w)
  | .a => .a (.decode w)
  | .m => .m (.decode w)
  | .md => .md (.decode w)
  | .mds => .mds (.decode w)
  | .psq => .psq (.decode w)
  | .psqx => .psqx (.decode w)

@[simp]
theorem kind_decode (k : FormKind) (w : Word) : (decode k w).kind = k := by
  cases k <;> rfl

end Form

end Broadway
