import Broadway.Encoding.Layout
import Broadway.Failure
import Broadway.Instr

/-!
# From forms to instructions

`Instr.ofForm` gives the instruction that a form stands for, or the reason why it stands for none:
an opcode that the processor does not have, or operands that the architecture forbids. All that an
instruction does is decided by its form; the word is not looked at again.
-/

namespace Broadway.Instr

open Opcode

/-- An operand component as a register number. -/
def reg (b : BitVec 8) : Reg := b.setWidth 5

/-- An operand component as a condition register field: its high three bits of five. -/
def crField (b : BitVec 8) : BitVec 3 := b.extractLsb' 2 3

/-- The base and displacement of a form with an immediate. -/
def displaced (f : DForm) : Address := .displaced (reg f.ra) (f.d.signExtend 32)

/-- The base and index of a form with three registers. -/
def indexed (f : XForm) : Address := .indexed (reg f.ra) (reg f.rb)

/-- An access that updates its base must have one. -/
def withBase (mnemonic : String) (base : Reg) (i : MemoryInstr) : Except Invalid Instr :=
  if base = 0 then .error (.baseUpdate mnemonic) else .ok (.memory i)

/-- A load that updates its base must have one, and another target. -/
def loadWithBase (mnemonic : String) (kind : Load) (rd : Reg) (address : Address) :
    Except Invalid Instr :=
  if address.base = 0 ∨ address.base = rd then .error (.loadUpdate mnemonic address.base rd)
  else .ok (.memory (.load kind rd address true))

/-- A floating point load or a store that updates its base. -/
def updating (mnemonic : String) (address : Address) (i : Address → Bool → MemoryInstr) :
    Except Invalid Instr :=
  withBase mnemonic address.base (i address true)

/-- A memory instruction that leaves its base alone. -/
def plain (address : Address) (i : Address → Bool → MemoryInstr) : Except Invalid Instr :=
  .ok (.memory (i address false))

/-- A compare of words; the length bit asks for doublewords, which the processor has not. -/
def compareWords (mnemonic : String) (doubleword signed : Bool) (field : BitVec 3) (ra : Reg)
    (b : Operand) : Except Invalid Instr :=
  if doubleword then .error (.doublewordCompare mnemonic)
  else .ok (.fixed (.compare signed field ra b))

def ofIForm (f : IForm) : Instr :=
  .branch (.always (if f.aa then .absolute f.li else .relative f.li) f.lk)

def ofBForm (f : BForm) : Instr :=
  .branch (.conditional (reg f.bo) (reg f.bi) (if f.aa then .absolute f.bd else .relative f.bd)
    f.lk)

def ofDForm (f : DForm) : Except Invalid Instr :=
  let rt := reg f.rt
  let ra := reg f.ra
  let signed := f.d.signExtend 32
  let unsigned := f.d.setWidth 32
  let logic (op : Logic) (value : Word) (rc : Bool) : Except Invalid Instr :=
    .ok (.fixed (.logic op ra rt (.imm value) rc))
  match Primary.ofCode? f.opcd.toNat with
  | some .twi => .ok (.trap rt ra (.imm signed))
  | some .mulli => .ok (.fixed (.multiplyImmediate rt ra signed))
  | some .subfic => .ok (.fixed (.subtractFromImmediate rt ra signed))
  | some .cmpli => compareWords "cmpli" f.l false (crField f.rt) ra (.imm unsigned)
  | some .cmpi => compareWords "cmpi" f.l true (crField f.rt) ra (.imm signed)
  | some .addic => .ok (.fixed (.addImmediateCarrying rt ra signed false))
  | some .addicRc => .ok (.fixed (.addImmediateCarrying rt ra signed true))
  | some .addi => .ok (.fixed (.addImmediate rt ra signed))
  | some .addis => .ok (.fixed (.addImmediate rt ra (signed <<< 16)))
  | some .ori => logic .or unsigned false
  | some .oris => logic .or (unsigned <<< 16) false
  | some .xori => logic .xor unsigned false
  | some .xoris => logic .xor (unsigned <<< 16) false
  | some .andiRc => logic .and unsigned true
  | some .andisRc => logic .and (unsigned <<< 16) true
  | some .lwz => plain (displaced f) (.load .word rt)
  | some .lwzu => loadWithBase "lwzu" .word rt (displaced f)
  | some .lbz => plain (displaced f) (.load .byte rt)
  | some .lbzu => loadWithBase "lbzu" .byte rt (displaced f)
  | some .lhz => plain (displaced f) (.load .half rt)
  | some .lhzu => loadWithBase "lhzu" .half rt (displaced f)
  | some .lha => plain (displaced f) (.load .halfAlgebraic rt)
  | some .lhau => loadWithBase "lhau" .halfAlgebraic rt (displaced f)
  | some .stw => plain (displaced f) (.store .word rt)
  | some .stwu => updating "stwu" (displaced f) (.store .word rt)
  | some .stb => plain (displaced f) (.store .byte rt)
  | some .stbu => updating "stbu" (displaced f) (.store .byte rt)
  | some .sth => plain (displaced f) (.store .half rt)
  | some .sthu => updating "sthu" (displaced f) (.store .half rt)
  | some .lmw =>
    if rt ≤ ra then .error (.multipleOverBase ra rt)
    else .ok (.memory (.loadMultiple rt (displaced f)))
  | some .stmw => .ok (.memory (.storeMultiple rt (displaced f)))
  | some .lfs => plain (displaced f) (.load .single rt)
  | some .lfsu => updating "lfsu" (displaced f) (.load .single rt)
  | some .lfd => plain (displaced f) (.load .double rt)
  | some .lfdu => updating "lfdu" (displaced f) (.load .double rt)
  | some .stfs => plain (displaced f) (.store .single rt)
  | some .stfsu => updating "stfsu" (displaced f) (.store .single rt)
  | some .stfd => plain (displaced f) (.store .double rt)
  | some .stfdu => updating "stfdu" (displaced f) (.store .double rt)
  | _ => .error (.unknown f.encode)

def ofXForm31 (f : XForm) : Except Invalid Instr :=
  let rt := reg f.rt
  let ra := reg f.ra
  let rb := reg f.rb
  let segment : BitVec 4 := f.ra.setWidth 4
  let logic (op : Logic) : Except Invalid Instr :=
    .ok (.fixed (.logic op ra rt (.reg rb) f.rc))
  let unary (op : Unary) : Except Invalid Instr := .ok (.fixed (.unary op ra rt f.rc))
  let shift (op : Shift) (amount : Operand) : Except Invalid Instr :=
    .ok (.fixed (.shift op ra rt amount f.rc))
  match Fixed.ofCode? f.xo.toNat with
  | some .cmp => compareWords "cmp" f.l true (crField f.rt) ra (.reg rb)
  | some .cmpl => compareWords "cmpl" f.l false (crField f.rt) ra (.reg rb)
  | some .tw => .ok (.trap rt ra (.reg rb))
  | some .and => logic .and
  | some .andc => logic .andc
  | some .or => logic .or
  | some .orc => logic .orc
  | some .xor => logic .xor
  | some .nand => logic .nand
  | some .nor => logic .nor
  | some .eqv => logic .eqv
  | some .cntlzw => unary .countLeadingZeros
  | some .extsb => unary .extendByte
  | some .extsh => unary .extendHalf
  | some .slw => shift .left (.reg rb)
  | some .srw => shift .right (.reg rb)
  | some .sraw => shift .algebraic (.reg rb)
  | some .srawi => shift .algebraic (.imm (rb.setWidth 32))
  | some .mfcr => .ok (.condition (.toRegister rt))
  | some .mcrxr => .ok (.condition (.fromXer (crField f.rt)))
  | some .mfmsr => .ok (.system (.fromMsr rt))
  | some .mtmsr => .ok (.system (.toMsr rt))
  | some .mfsr => .ok (.system (.fromSegment rt (.direct segment)))
  | some .mfsrin => .ok (.system (.fromSegment rt (.indirect rb)))
  | some .mtsr => .ok (.system (.toSegment (.direct segment) rt))
  | some .mtsrin => .ok (.system (.toSegment (.indirect rb) rt))
  | some .lwzx => plain (indexed f) (.load .word rt)
  | some .lwzux => loadWithBase "lwzux" .word rt (indexed f)
  | some .lbzx => plain (indexed f) (.load .byte rt)
  | some .lbzux => loadWithBase "lbzux" .byte rt (indexed f)
  | some .lhzx => plain (indexed f) (.load .half rt)
  | some .lhzux => loadWithBase "lhzux" .half rt (indexed f)
  | some .lhax => plain (indexed f) (.load .halfAlgebraic rt)
  | some .lhaux => loadWithBase "lhaux" .halfAlgebraic rt (indexed f)
  | some .stwx => plain (indexed f) (.store .word rt)
  | some .stwux => updating "stwux" (indexed f) (.store .word rt)
  | some .stbx => plain (indexed f) (.store .byte rt)
  | some .stbux => updating "stbux" (indexed f) (.store .byte rt)
  | some .sthx => plain (indexed f) (.store .half rt)
  | some .sthux => updating "sthux" (indexed f) (.store .half rt)
  | some .lwbrx => plain (indexed f) (.load .wordReversed rt)
  | some .lhbrx => plain (indexed f) (.load .halfReversed rt)
  | some .stwbrx => plain (indexed f) (.store .wordReversed rt)
  | some .sthbrx => plain (indexed f) (.store .halfReversed rt)
  | some .lswi => .ok (.memory (.loadString rt (.displaced ra 0) (.immediate rb)))
  | some .lswx => .ok (.memory (.loadString rt (indexed f) .fromXer))
  | some .stswi => .ok (.memory (.storeString rt (.displaced ra 0) (.immediate rb)))
  | some .stswx => .ok (.memory (.storeString rt (indexed f) .fromXer))
  | some .lwarx => .ok (.memory (.loadReserve rt (indexed f)))
  | some .stwcx => .ok (.memory (.storeConditional rt (indexed f)))
  | some .eciwx => plain (indexed f) (.load .external rt)
  | some .ecowx => plain (indexed f) (.store .external rt)
  | some .lfsx => plain (indexed f) (.load .single rt)
  | some .lfsux => updating "lfsux" (indexed f) (.load .single rt)
  | some .lfdx => plain (indexed f) (.load .double rt)
  | some .lfdux => updating "lfdux" (indexed f) (.load .double rt)
  | some .stfsx => plain (indexed f) (.store .single rt)
  | some .stfsux => updating "stfsux" (indexed f) (.store .single rt)
  | some .stfdx => plain (indexed f) (.store .double rt)
  | some .stfdux => updating "stfdux" (indexed f) (.store .double rt)
  | some .stfiwx => plain (indexed f) (.store .floatWord rt)
  | some .dcbz => .ok (.memory (.clearBlock (indexed f)))
  | some .dcbst | some .dcbf | some .dcbtst | some .dcbt | some .dcbi | some .icbi | some .sync
  | some .eieio | some .tlbie | some .tlbsync => .ok (.system .nothing)
  | some .mtcrf | some .mfspr | some .mftb | some .mtspr | none => .error (.unknown f.encode)

def ofXForm63 (f : XForm) : Except Invalid Instr :=
  let rt := reg f.rt
  let ra := reg f.ra
  let rb := reg f.rb
  let move (op : FloatMove) : Except Invalid Instr := .ok (.float (.move op rt rb f.rc))
  match DoubleMove.ofCode? f.xo.toNat with
  | some .fcmpu => .ok (.float (.compare false (crField f.rt) ra rb))
  | some .fcmpo => .ok (.float (.compare true (crField f.rt) ra rb))
  | some .frsp => .ok (.float (.roundToSingle rt rb f.rc))
  | some .fctiw => .ok (.float (.toInteger false rt rb f.rc))
  | some .fctiwz => .ok (.float (.toInteger true rt rb f.rc))
  | some .fmr => move .copy
  | some .fneg => move .negate
  | some .fabs => move .absolute
  | some .fnabs => move .negativeAbsolute
  | some .mffs => .ok (.float (.fromStatus rt f.rc))
  | some .mtfsb0 => .ok (.float (.clearStatusBit rt f.rc))
  | some .mtfsb1 => .ok (.float (.setStatusBit rt f.rc))
  | some .mtfsfi => .ok (.float (.setStatusField (crField f.rt) (f.rb.extractLsb' 1 4) f.rc))
  | some .mcrfs => .ok (.float (.statusToCondition (crField f.rt) (crField f.ra)))
  | some .mtfsf | none => .error (.unknown f.encode)

def ofXForm4 (f : XForm) : Except Invalid Instr :=
  let rt := reg f.rt
  let ra := reg f.ra
  let rb := reg f.rb
  let move (op : FloatMove) : Except Invalid Instr := .ok (.paired (.move op rt rb f.rc))
  let merge (a b : Lane) : Except Invalid Instr := .ok (.paired (.merge a b rt ra rb f.rc))
  let compare (lane : Lane) (ordered : Bool) : Except Invalid Instr :=
    .ok (.paired (.compare lane ordered (crField f.rt) ra rb))
  match PairedMove.ofCode? f.xo.toNat with
  | some .cmpu0 => compare .ps0 false
  | some .cmpo0 => compare .ps0 true
  | some .cmpu1 => compare .ps1 false
  | some .cmpo1 => compare .ps1 true
  | some .neg => move .negate
  | some .mr => move .copy
  | some .nabs => move .negativeAbsolute
  | some .abs => move .absolute
  | some .merge00 => merge .ps0 .ps0
  | some .merge01 => merge .ps0 .ps1
  | some .merge10 => merge .ps1 .ps0
  | some .merge11 => merge .ps1 .ps1
  | some .dcbzL => .ok (.system .nothing)
  | none => .error (.unknown f.encode)

def ofXForm (f : XForm) : Except Invalid Instr :=
  match Primary.ofCode? f.opcd.toNat with
  | some .table4 => ofXForm4 f
  | some .table31 => ofXForm31 f
  | some .table63 => ofXForm63 f
  | _ => .error (.unknown f.encode)

def ofXlForm (f : XlForm) : Except Invalid Instr :=
  let bt := reg f.bt
  let ba := reg f.ba
  let combine (op : Logic) : Except Invalid Instr :=
    .ok (.condition (.combine op bt ba (reg f.bb)))
  match Control.ofCode? f.xo.toNat with
  | some .mcrf => .ok (.condition (.moveField (crField f.bt) (crField f.ba)))
  | some .bclr => .ok (.branch (.conditional bt ba .link f.lk))
  | some .bcctr =>
    if bt.getLsbD 2 then .ok (.branch (.conditional bt ba .count f.lk))
    else .error (.countingBranch bt)
  | some .crnor => combine .nor
  | some .crandc => combine .andc
  | some .crxor => combine .xor
  | some .crnand => combine .nand
  | some .crand => combine .and
  | some .creqv => combine .eqv
  | some .crorc => combine .orc
  | some .cror => combine .or
  | some .rfi => .ok (.system .returnFromInterrupt)
  | some .isync => .ok (.system .nothing)
  | none => .error (.unknown f.encode)

def ofXfxForm (f : XfxForm) : Except Invalid Instr :=
  let rt := reg f.rt
  match Fixed.ofCode? f.xo.toNat with
  | some .mtcrf => .ok (.condition (.fromRegister f.crm rt))
  | some .mfspr => .ok (.system (.fromSpecial rt f.spr))
  | some .mtspr => .ok (.system (.toSpecial f.spr rt))
  | some .mftb =>
    if f.spr = 268 then .ok (.system (.fromTimeBase rt false))
    else if f.spr = 269 then .ok (.system (.fromTimeBase rt true))
    else .error (.timeBase f.spr)
  | _ => .error (.unknown f.encode)

def ofXoForm (f : XoForm) : Except Invalid Instr :=
  match FixedArith.ofCode? f.xo.toNat with
  | some op => .ok (.fixed (.arith op (reg f.rt) (reg f.ra) (reg f.rb) f.oe f.rc))
  | none => .error (.unknown f.encode)

def ofMForm (f : MForm) : Except Invalid Instr :=
  let ra := reg f.ra
  let rs := reg f.rs
  let first := reg f.mb
  let last := reg f.me
  let amount : Operand := .imm ((reg f.rb).setWidth 32)
  match Primary.ofCode? f.opcd.toNat with
  | some .rlwimi => .ok (.fixed (.rotateInsert ra rs amount first last f.rc))
  | some .rlwinm => .ok (.fixed (.rotateAnd ra rs amount first last f.rc))
  | some .rlwnm => .ok (.fixed (.rotateAnd ra rs (.reg (reg f.rb)) first last f.rc))
  | _ => .error (.unknown f.encode)

def ofAForm59 (f : AForm) : Except Invalid Instr :=
  let arith (op : FloatOp) : Except Invalid Instr :=
    .ok (.float (.arith op .single (reg f.frt) (reg f.fra) (reg f.frb) (reg f.frc) f.rc))
  match SingleArith.ofCode? f.xo.toNat with
  | some .fdivs => arith .div
  | some .fsubs => arith .sub
  | some .fadds => arith .add
  | some .fres => arith .reciprocal
  | some .fmuls => arith .mul
  | some .fmsubs => arith .msub
  | some .fmadds => arith .madd
  | some .fnmsubs => arith .nmsub
  | some .fnmadds => arith .nmadd
  | none => .error (.unknown f.encode)

def ofAForm63 (f : AForm) : Except Invalid Instr :=
  let arith (op : FloatOp) : Except Invalid Instr :=
    .ok (.float (.arith op .double (reg f.frt) (reg f.fra) (reg f.frb) (reg f.frc) f.rc))
  match DoubleArith.ofCode? f.xo.toNat with
  | some .fdiv => arith .div
  | some .fsub => arith .sub
  | some .fadd => arith .add
  | some .fsel => .ok (.float (.select (reg f.frt) (reg f.fra) (reg f.frb) (reg f.frc) f.rc))
  | some .fmul => arith .mul
  | some .frsqrte => arith .reciprocalSqrt
  | some .fmsub => arith .msub
  | some .fmadd => arith .madd
  | some .fnmsub => arith .nmsub
  | some .fnmadd => arith .nmadd
  | none => .error (.unknown f.encode)

def ofAForm4 (f : AForm) : Except Invalid Instr :=
  let arith (op : FloatOp) (broadcast : Option Lane) : Except Invalid Instr :=
    .ok (.paired (.arith op broadcast (reg f.frt) (reg f.fra) (reg f.frb) (reg f.frc) f.rc))
  let sum (lane : Lane) : Except Invalid Instr :=
    .ok (.paired (.sum lane (reg f.frt) (reg f.fra) (reg f.frb) (reg f.frc) f.rc))
  match PairedArith.ofCode? f.xo.toNat with
  | some .sum0 => sum .ps0
  | some .sum1 => sum .ps1
  | some .muls0 => arith .mul (some .ps0)
  | some .muls1 => arith .mul (some .ps1)
  | some .madds0 => arith .madd (some .ps0)
  | some .madds1 => arith .madd (some .ps1)
  | some .div => arith .div none
  | some .sub => arith .sub none
  | some .add => arith .add none
  | some .sel => .ok (.paired (.select (reg f.frt) (reg f.fra) (reg f.frb) (reg f.frc) f.rc))
  | some .res => arith .reciprocal none
  | some .mul => arith .mul none
  | some .rsqrte => arith .reciprocalSqrt none
  | some .msub => arith .msub none
  | some .madd => arith .madd none
  | some .nmsub => arith .nmsub none
  | some .nmadd => arith .nmadd none
  | none => .error (.unknown f.encode)

def ofAForm (f : AForm) : Except Invalid Instr :=
  match Primary.ofCode? f.opcd.toNat with
  | some .table4 => ofAForm4 f
  | some .table59 => ofAForm59 f
  | some .table63 => ofAForm63 f
  | _ => .error (.unknown f.encode)

def ofPsqForm (f : PsqForm) : Except Invalid Instr :=
  let frt := reg f.frt
  let address : Address := .displaced (reg f.ra) (f.d.signExtend 32)
  let gqr : BitVec 3 := f.i.setWidth 3
  match Primary.ofCode? f.opcd.toNat with
  | some .psqL => plain address (.loadQuantized frt · f.w gqr)
  | some .psqLu => updating "psq_lu" address (.loadQuantized frt · f.w gqr)
  | some .psqSt => plain address (.storeQuantized frt · f.w gqr)
  | some .psqStu => updating "psq_stu" address (.storeQuantized frt · f.w gqr)
  | _ => .error (.unknown f.encode)

def ofPsqxForm (f : PsqxForm) : Except Invalid Instr :=
  let frt := reg f.frt
  let address : Address := .indexed (reg f.ra) (reg f.rb)
  let gqr : BitVec 3 := f.i.setWidth 3
  match PairedIndexed.ofCode? f.xo.toNat with
  | some .psqLx => plain address (.loadQuantized frt · f.w gqr)
  | some .psqLux => updating "psq_lux" address (.loadQuantized frt · f.w gqr)
  | some .psqStx => plain address (.storeQuantized frt · f.w gqr)
  | some .psqStux => updating "psq_stux" address (.storeQuantized frt · f.w gqr)
  | none => .error (.unknown f.encode)

/-- The instruction that a form stands for. -/
def ofForm : Form → Except Invalid Instr
  | .i f => .ok (ofIForm f)
  | .b f => .ok (ofBForm f)
  | .sc _ => .ok (.system .call)
  | .d f => ofDForm f
  | .x f => ofXForm f
  | .xl f => ofXlForm f
  | .xfx f => ofXfxForm f
  | .xfl f => .ok (.float (.setStatusFields f.fm (reg f.frb) f.rc))
  | .xo f => ofXoForm f
  | .a f => ofAForm f
  | .m f => ofMForm f
  | .psq f => ofPsqForm f
  | .psqx f => ofPsqxForm f
  | .ds f => .error (.unknown f.encode)
  | .xs f => .error (.unknown f.encode)
  | .md f => .error (.unknown f.encode)
  | .mds f => .error (.unknown f.encode)

/-- The instruction that a word stands for. -/
def ofWord (w : Word) : Except Invalid Instr := ofForm (.ofWord w)

end Broadway.Instr
