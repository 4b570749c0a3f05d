/-!
# Opcode tables

The primary opcode selects an instruction or a group of instructions, and an extended opcode selects
within the group. Each table is an enumeration with the number of each member (`code`) and the
member of a number (`ofCode?`); a number without a member is an instruction that the processor does
not have.

* In every table `ofCode?` finds exactly the member whose number was asked for
  (`Primary.ofCode?_eq_some_iff` and its fellows).
-/

namespace Broadway.Opcode

/-- Primary opcodes. A group opcode (`table4`, `table19`, `table31`, `table59`, `table63`) leaves
the instruction to an extended opcode. -/
inductive Primary
  | twi | table4 | mulli | subfic | cmpli | cmpi | addic | addicRc | addi | addis | bc | sc | b
  | table19 | rlwimi | rlwinm | rlwnm | ori | oris | xori | xoris | andiRc | andisRc | table31
  | lwz | lwzu | lbz | lbzu | stw | stwu | stb | stbu | lhz | lhzu | lha | lhau | sth | sthu
  | lmw | stmw | lfs | lfsu | lfd | lfdu | stfs | stfsu | stfd | stfdu | psqL | psqLu | table59
  | psqSt | psqStu | table63
  deriving DecidableEq

namespace Primary

def code : Primary → Nat
  | .twi => 3
  | .table4 => 4
  | .mulli => 7
  | .subfic => 8
  | .cmpli => 10
  | .cmpi => 11
  | .addic => 12
  | .addicRc => 13
  | .addi => 14
  | .addis => 15
  | .bc => 16
  | .sc => 17
  | .b => 18
  | .table19 => 19
  | .rlwimi => 20
  | .rlwinm => 21
  | .rlwnm => 23
  | .ori => 24
  | .oris => 25
  | .xori => 26
  | .xoris => 27
  | .andiRc => 28
  | .andisRc => 29
  | .table31 => 31
  | .lwz => 32
  | .lwzu => 33
  | .lbz => 34
  | .lbzu => 35
  | .stw => 36
  | .stwu => 37
  | .stb => 38
  | .stbu => 39
  | .lhz => 40
  | .lhzu => 41
  | .lha => 42
  | .lhau => 43
  | .sth => 44
  | .sthu => 45
  | .lmw => 46
  | .stmw => 47
  | .lfs => 48
  | .lfsu => 49
  | .lfd => 50
  | .lfdu => 51
  | .stfs => 52
  | .stfsu => 53
  | .stfd => 54
  | .stfdu => 55
  | .psqL => 56
  | .psqLu => 57
  | .table59 => 59
  | .psqSt => 60
  | .psqStu => 61
  | .table63 => 63

def ofCode? : Nat → Option Primary
  | 3 => some .twi
  | 4 => some .table4
  | 7 => some .mulli
  | 8 => some .subfic
  | 10 => some .cmpli
  | 11 => some .cmpi
  | 12 => some .addic
  | 13 => some .addicRc
  | 14 => some .addi
  | 15 => some .addis
  | 16 => some .bc
  | 17 => some .sc
  | 18 => some .b
  | 19 => some .table19
  | 20 => some .rlwimi
  | 21 => some .rlwinm
  | 23 => some .rlwnm
  | 24 => some .ori
  | 25 => some .oris
  | 26 => some .xori
  | 27 => some .xoris
  | 28 => some .andiRc
  | 29 => some .andisRc
  | 31 => some .table31
  | 32 => some .lwz
  | 33 => some .lwzu
  | 34 => some .lbz
  | 35 => some .lbzu
  | 36 => some .stw
  | 37 => some .stwu
  | 38 => some .stb
  | 39 => some .stbu
  | 40 => some .lhz
  | 41 => some .lhzu
  | 42 => some .lha
  | 43 => some .lhau
  | 44 => some .sth
  | 45 => some .sthu
  | 46 => some .lmw
  | 47 => some .stmw
  | 48 => some .lfs
  | 49 => some .lfsu
  | 50 => some .lfd
  | 51 => some .lfdu
  | 52 => some .stfs
  | 53 => some .stfsu
  | 54 => some .stfd
  | 55 => some .stfdu
  | 56 => some .psqL
  | 57 => some .psqLu
  | 59 => some .table59
  | 60 => some .psqSt
  | 61 => some .psqStu
  | 63 => some .table63
  | _ => none

@[simp]
theorem ofCode?_code (op : Primary) : ofCode? op.code = some op := by
  cases op <;> rfl

theorem code_of_ofCode? {n : Nat} {op : Primary} (h : ofCode? n = some op) : op.code = n := by
  unfold ofCode? at h
  split at h <;> first | contradiction | (cases h; rfl)

theorem ofCode?_eq_some_iff {n : Nat} {op : Primary} : ofCode? n = some op ↔ op.code = n :=
  ⟨code_of_ofCode?, fun h => h ▸ ofCode?_code op⟩

end Primary

/-- Paired single arithmetic: group 4, extended opcode of five bits. -/
inductive PairedArith
  | sum0 | sum1 | muls0 | muls1 | madds0 | madds1 | div | sub | add | sel | res | mul | rsqrte
  | msub | madd | nmsub | nmadd
  deriving DecidableEq

namespace PairedArith

def code : PairedArith → Nat
  | .sum0 => 10
  | .sum1 => 11
  | .muls0 => 12
  | .muls1 => 13
  | .madds0 => 14
  | .madds1 => 15
  | .div => 18
  | .sub => 20
  | .add => 21
  | .sel => 23
  | .res => 24
  | .mul => 25
  | .rsqrte => 26
  | .msub => 28
  | .madd => 29
  | .nmsub => 30
  | .nmadd => 31

def ofCode? : Nat → Option PairedArith
  | 10 => some .sum0
  | 11 => some .sum1
  | 12 => some .muls0
  | 13 => some .muls1
  | 14 => some .madds0
  | 15 => some .madds1
  | 18 => some .div
  | 20 => some .sub
  | 21 => some .add
  | 23 => some .sel
  | 24 => some .res
  | 25 => some .mul
  | 26 => some .rsqrte
  | 28 => some .msub
  | 29 => some .madd
  | 30 => some .nmsub
  | 31 => some .nmadd
  | _ => none

@[simp]
theorem ofCode?_code (op : PairedArith) : ofCode? op.code = some op := by
  cases op <;> rfl

theorem code_of_ofCode? {n : Nat} {op : PairedArith} (h : ofCode? n = some op) : op.code = n := by
  unfold ofCode? at h
  split at h <;> first | contradiction | (cases h; rfl)

theorem ofCode?_eq_some_iff {n : Nat} {op : PairedArith} : ofCode? n = some op ↔ op.code = n :=
  ⟨code_of_ofCode?, fun h => h ▸ ofCode?_code op⟩

end PairedArith

/-- Indexed quantized loads and stores: group 4, extended opcode of six bits. -/
inductive PairedIndexed
  | psqLx | psqStx | psqLux | psqStux
  deriving DecidableEq

namespace PairedIndexed

def code : PairedIndexed → Nat
  | .psqLx => 6
  | .psqStx => 7
  | .psqLux => 38
  | .psqStux => 39

def ofCode? : Nat → Option PairedIndexed
  | 6 => some .psqLx
  | 7 => some .psqStx
  | 38 => some .psqLux
  | 39 => some .psqStux
  | _ => none

@[simp]
theorem ofCode?_code (op : PairedIndexed) : ofCode? op.code = some op := by
  cases op <;> rfl

theorem code_of_ofCode? {n : Nat} {op : PairedIndexed} (h : ofCode? n = some op) : op.code = n := by
  unfold ofCode? at h
  split at h <;> first | contradiction | (cases h; rfl)

theorem ofCode?_eq_some_iff {n : Nat} {op : PairedIndexed} : ofCode? n = some op ↔ op.code = n :=
  ⟨code_of_ofCode?, fun h => h ▸ ofCode?_code op⟩

end PairedIndexed

/-- Paired single moves, compares and merges: group 4, extended opcode of ten bits. -/
inductive PairedMove
  | cmpu0 | cmpo0 | neg | cmpu1 | mr | cmpo1 | nabs | abs | merge00 | merge01 | merge10 | merge11
  | dcbzL
  deriving DecidableEq

namespace PairedMove

def code : PairedMove → Nat
  | .cmpu0 => 0
  | .cmpo0 => 32
  | .neg => 40
  | .cmpu1 => 64
  | .mr => 72
  | .cmpo1 => 96
  | .nabs => 136
  | .abs => 264
  | .merge00 => 528
  | .merge01 => 560
  | .merge10 => 592
  | .merge11 => 624
  | .dcbzL => 1014

def ofCode? : Nat → Option PairedMove
  | 0 => some .cmpu0
  | 32 => some .cmpo0
  | 40 => some .neg
  | 64 => some .cmpu1
  | 72 => some .mr
  | 96 => some .cmpo1
  | 136 => some .nabs
  | 264 => some .abs
  | 528 => some .merge00
  | 560 => some .merge01
  | 592 => some .merge10
  | 624 => some .merge11
  | 1014 => some .dcbzL
  | _ => none

@[simp]
theorem ofCode?_code (op : PairedMove) : ofCode? op.code = some op := by
  cases op <;> rfl

theorem code_of_ofCode? {n : Nat} {op : PairedMove} (h : ofCode? n = some op) : op.code = n := by
  unfold ofCode? at h
  split at h <;> first | contradiction | (cases h; rfl)

theorem ofCode?_eq_some_iff {n : Nat} {op : PairedMove} : ofCode? n = some op ↔ op.code = n :=
  ⟨code_of_ofCode?, fun h => h ▸ ofCode?_code op⟩

end PairedMove

/-- Branches to a register, condition register logic and context synchronisation: group 19, extended
opcode of ten bits. -/
inductive Control
  | mcrf | bclr | crnor | rfi | crandc | isync | crxor | crnand | crand | creqv | crorc | cror
  | bcctr
  deriving DecidableEq

namespace Control

def code : Control → Nat
  | .mcrf => 0
  | .bclr => 16
  | .crnor => 33
  | .rfi => 50
  | .crandc => 129
  | .isync => 150
  | .crxor => 193
  | .crnand => 225
  | .crand => 257
  | .creqv => 289
  | .crorc => 417
  | .cror => 449
  | .bcctr => 528

def ofCode? : Nat → Option Control
  | 0 => some .mcrf
  | 16 => some .bclr
  | 33 => some .crnor
  | 50 => some .rfi
  | 129 => some .crandc
  | 150 => some .isync
  | 193 => some .crxor
  | 225 => some .crnand
  | 257 => some .crand
  | 289 => some .creqv
  | 417 => some .crorc
  | 449 => some .cror
  | 528 => some .bcctr
  | _ => none

@[simp]
theorem ofCode?_code (op : Control) : ofCode? op.code = some op := by
  cases op <;> rfl

theorem code_of_ofCode? {n : Nat} {op : Control} (h : ofCode? n = some op) : op.code = n := by
  unfold ofCode? at h
  split at h <;> first | contradiction | (cases h; rfl)

theorem ofCode?_eq_some_iff {n : Nat} {op : Control} : ofCode? n = some op ↔ op.code = n :=
  ⟨code_of_ofCode?, fun h => h ▸ ofCode?_code op⟩

end Control

/-- Fixed point arithmetic: group 31, extended opcode of nine bits. -/
inductive FixedArith
  | subfc | addc | mulhwu | subf | mulhw | neg | subfe | adde | subfze | addze | subfme | addme
  | mullw | add | divwu | divw
  deriving DecidableEq

namespace FixedArith

def code : FixedArith → Nat
  | .subfc => 8
  | .addc => 10
  | .mulhwu => 11
  | .subf => 40
  | .mulhw => 75
  | .neg => 104
  | .subfe => 136
  | .adde => 138
  | .subfze => 200
  | .addze => 202
  | .subfme => 232
  | .addme => 234
  | .mullw => 235
  | .add => 266
  | .divwu => 459
  | .divw => 491

def ofCode? : Nat → Option FixedArith
  | 8 => some .subfc
  | 10 => some .addc
  | 11 => some .mulhwu
  | 40 => some .subf
  | 75 => some .mulhw
  | 104 => some .neg
  | 136 => some .subfe
  | 138 => some .adde
  | 200 => some .subfze
  | 202 => some .addze
  | 232 => some .subfme
  | 234 => some .addme
  | 235 => some .mullw
  | 266 => some .add
  | 459 => some .divwu
  | 491 => some .divw
  | _ => none

@[simp]
theorem ofCode?_code (op : FixedArith) : ofCode? op.code = some op := by
  cases op <;> rfl

theorem code_of_ofCode? {n : Nat} {op : FixedArith} (h : ofCode? n = some op) : op.code = n := by
  unfold ofCode? at h
  split at h <;> first | contradiction | (cases h; rfl)

theorem ofCode?_eq_some_iff {n : Nat} {op : FixedArith} : ofCode? n = some op ↔ op.code = n :=
  ⟨code_of_ofCode?, fun h => h ▸ ofCode?_code op⟩

end FixedArith

/-- The rest of group 31, extended opcode of ten bits. -/
inductive Fixed
  | cmp | tw | lwarx | lwzx | mfcr | slw | cntlzw | and | cmpl | dcbst | lwzux | andc | mfmsr
  | dcbf | lbzx | lbzux | nor | mtcrf | mtmsr | stwcx | stwx | stwux | mtsr | stbx | mtsrin
  | dcbtst | stbux | dcbt | lhzx | eqv | tlbie | eciwx | lhzux | xor | mfspr | lhax | mftb
  | lhaux | sthx | orc | ecowx | sthux | or | mtspr | dcbi | nand | mcrxr | lswx | lwbrx | lfsx
  | srw | tlbsync | lfsux | mfsr | lswi | sync | lfdx | lfdux | mfsrin | stswx | stwbrx | stfsx
  | stfsux | stswi | stfdx | stfdux | lhbrx | sraw | srawi | eieio | sthbrx | extsh | extsb
  | icbi | stfiwx | dcbz
  deriving DecidableEq

namespace Fixed

def code : Fixed → Nat
  | .cmp => 0
  | .tw => 4
  | .lwarx => 20
  | .lwzx => 23
  | .mfcr => 19
  | .slw => 24
  | .cntlzw => 26
  | .and => 28
  | .cmpl => 32
  | .dcbst => 54
  | .lwzux => 55
  | .andc => 60
  | .mfmsr => 83
  | .dcbf => 86
  | .lbzx => 87
  | .lbzux => 119
  | .nor => 124
  | .mtcrf => 144
  | .mtmsr => 146
  | .stwcx => 150
  | .stwx => 151
  | .stwux => 183
  | .mtsr => 210
  | .stbx => 215
  | .mtsrin => 242
  | .dcbtst => 246
  | .stbux => 247
  | .dcbt => 278
  | .lhzx => 279
  | .eqv => 284
  | .tlbie => 306
  | .eciwx => 310
  | .lhzux => 311
  | .xor => 316
  | .mfspr => 339
  | .lhax => 343
  | .mftb => 371
  | .lhaux => 375
  | .sthx => 407
  | .orc => 412
  | .ecowx => 438
  | .sthux => 439
  | .or => 444
  | .mtspr => 467
  | .dcbi => 470
  | .nand => 476
  | .mcrxr => 512
  | .lswx => 533
  | .lwbrx => 534
  | .lfsx => 535
  | .srw => 536
  | .tlbsync => 566
  | .lfsux => 567
  | .mfsr => 595
  | .lswi => 597
  | .sync => 598
  | .lfdx => 599
  | .lfdux => 631
  | .mfsrin => 659
  | .stswx => 661
  | .stwbrx => 662
  | .stfsx => 663
  | .stfsux => 695
  | .stswi => 725
  | .stfdx => 727
  | .stfdux => 759
  | .lhbrx => 790
  | .sraw => 792
  | .srawi => 824
  | .eieio => 854
  | .sthbrx => 918
  | .extsh => 922
  | .extsb => 954
  | .icbi => 982
  | .stfiwx => 983
  | .dcbz => 1014

def ofCode? : Nat → Option Fixed
  | 0 => some .cmp
  | 4 => some .tw
  | 20 => some .lwarx
  | 23 => some .lwzx
  | 19 => some .mfcr
  | 24 => some .slw
  | 26 => some .cntlzw
  | 28 => some .and
  | 32 => some .cmpl
  | 54 => some .dcbst
  | 55 => some .lwzux
  | 60 => some .andc
  | 83 => some .mfmsr
  | 86 => some .dcbf
  | 87 => some .lbzx
  | 119 => some .lbzux
  | 124 => some .nor
  | 144 => some .mtcrf
  | 146 => some .mtmsr
  | 150 => some .stwcx
  | 151 => some .stwx
  | 183 => some .stwux
  | 210 => some .mtsr
  | 215 => some .stbx
  | 242 => some .mtsrin
  | 246 => some .dcbtst
  | 247 => some .stbux
  | 278 => some .dcbt
  | 279 => some .lhzx
  | 284 => some .eqv
  | 306 => some .tlbie
  | 310 => some .eciwx
  | 311 => some .lhzux
  | 316 => some .xor
  | 339 => some .mfspr
  | 343 => some .lhax
  | 371 => some .mftb
  | 375 => some .lhaux
  | 407 => some .sthx
  | 412 => some .orc
  | 438 => some .ecowx
  | 439 => some .sthux
  | 444 => some .or
  | 467 => some .mtspr
  | 470 => some .dcbi
  | 476 => some .nand
  | 512 => some .mcrxr
  | 533 => some .lswx
  | 534 => some .lwbrx
  | 535 => some .lfsx
  | 536 => some .srw
  | 566 => some .tlbsync
  | 567 => some .lfsux
  | 595 => some .mfsr
  | 597 => some .lswi
  | 598 => some .sync
  | 599 => some .lfdx
  | 631 => some .lfdux
  | 659 => some .mfsrin
  | 661 => some .stswx
  | 662 => some .stwbrx
  | 663 => some .stfsx
  | 695 => some .stfsux
  | 725 => some .stswi
  | 727 => some .stfdx
  | 759 => some .stfdux
  | 790 => some .lhbrx
  | 792 => some .sraw
  | 824 => some .srawi
  | 854 => some .eieio
  | 918 => some .sthbrx
  | 922 => some .extsh
  | 954 => some .extsb
  | 982 => some .icbi
  | 983 => some .stfiwx
  | 1014 => some .dcbz
  | _ => none

@[simp]
theorem ofCode?_code (op : Fixed) : ofCode? op.code = some op := by
  cases op <;> rfl

theorem code_of_ofCode? {n : Nat} {op : Fixed} (h : ofCode? n = some op) : op.code = n := by
  unfold ofCode? at h
  split at h <;> first | contradiction | (cases h; rfl)

theorem ofCode?_eq_some_iff {n : Nat} {op : Fixed} : ofCode? n = some op ↔ op.code = n :=
  ⟨code_of_ofCode?, fun h => h ▸ ofCode?_code op⟩

end Fixed

/-- Single precision arithmetic: group 59, extended opcode of five bits. -/
inductive SingleArith
  | fdivs | fsubs | fadds | fres | fmuls | fmsubs | fmadds | fnmsubs | fnmadds
  deriving DecidableEq

namespace SingleArith

def code : SingleArith → Nat
  | .fdivs => 18
  | .fsubs => 20
  | .fadds => 21
  | .fres => 24
  | .fmuls => 25
  | .fmsubs => 28
  | .fmadds => 29
  | .fnmsubs => 30
  | .fnmadds => 31

def ofCode? : Nat → Option SingleArith
  | 18 => some .fdivs
  | 20 => some .fsubs
  | 21 => some .fadds
  | 24 => some .fres
  | 25 => some .fmuls
  | 28 => some .fmsubs
  | 29 => some .fmadds
  | 30 => some .fnmsubs
  | 31 => some .fnmadds
  | _ => none

@[simp]
theorem ofCode?_code (op : SingleArith) : ofCode? op.code = some op := by
  cases op <;> rfl

theorem code_of_ofCode? {n : Nat} {op : SingleArith} (h : ofCode? n = some op) : op.code = n := by
  unfold ofCode? at h
  split at h <;> first | contradiction | (cases h; rfl)

theorem ofCode?_eq_some_iff {n : Nat} {op : SingleArith} : ofCode? n = some op ↔ op.code = n :=
  ⟨code_of_ofCode?, fun h => h ▸ ofCode?_code op⟩

end SingleArith

/-- Double precision arithmetic: group 63, extended opcode of five bits. -/
inductive DoubleArith
  | fdiv | fsub | fadd | fsel | fmul | frsqrte | fmsub | fmadd | fnmsub | fnmadd
  deriving DecidableEq

namespace DoubleArith

def code : DoubleArith → Nat
  | .fdiv => 18
  | .fsub => 20
  | .fadd => 21
  | .fsel => 23
  | .fmul => 25
  | .frsqrte => 26
  | .fmsub => 28
  | .fmadd => 29
  | .fnmsub => 30
  | .fnmadd => 31

def ofCode? : Nat → Option DoubleArith
  | 18 => some .fdiv
  | 20 => some .fsub
  | 21 => some .fadd
  | 23 => some .fsel
  | 25 => some .fmul
  | 26 => some .frsqrte
  | 28 => some .fmsub
  | 29 => some .fmadd
  | 30 => some .fnmsub
  | 31 => some .fnmadd
  | _ => none

@[simp]
theorem ofCode?_code (op : DoubleArith) : ofCode? op.code = some op := by
  cases op <;> rfl

theorem code_of_ofCode? {n : Nat} {op : DoubleArith} (h : ofCode? n = some op) : op.code = n := by
  unfold ofCode? at h
  split at h <;> first | contradiction | (cases h; rfl)

theorem ofCode?_eq_some_iff {n : Nat} {op : DoubleArith} : ofCode? n = some op ↔ op.code = n :=
  ⟨code_of_ofCode?, fun h => h ▸ ofCode?_code op⟩

end DoubleArith

/-- Floating point moves, compares, conversions and status access: group 63, extended opcode of ten
bits. -/
inductive DoubleMove
  | fcmpu | frsp | fctiw | fctiwz | fcmpo | mtfsb1 | fneg | mcrfs | mtfsb0 | fmr | mtfsfi | fnabs
  | fabs | mffs | mtfsf
  deriving DecidableEq

namespace DoubleMove

def code : DoubleMove → Nat
  | .fcmpu => 0
  | .frsp => 12
  | .fctiw => 14
  | .fctiwz => 15
  | .fcmpo => 32
  | .mtfsb1 => 38
  | .fneg => 40
  | .mcrfs => 64
  | .mtfsb0 => 70
  | .fmr => 72
  | .mtfsfi => 134
  | .fnabs => 136
  | .fabs => 264
  | .mffs => 583
  | .mtfsf => 711

def ofCode? : Nat → Option DoubleMove
  | 0 => some .fcmpu
  | 12 => some .frsp
  | 14 => some .fctiw
  | 15 => some .fctiwz
  | 32 => some .fcmpo
  | 38 => some .mtfsb1
  | 40 => some .fneg
  | 64 => some .mcrfs
  | 70 => some .mtfsb0
  | 72 => some .fmr
  | 134 => some .mtfsfi
  | 136 => some .fnabs
  | 264 => some .fabs
  | 583 => some .mffs
  | 711 => some .mtfsf
  | _ => none

@[simp]
theorem ofCode?_code (op : DoubleMove) : ofCode? op.code = some op := by
  cases op <;> rfl

theorem code_of_ofCode? {n : Nat} {op : DoubleMove} (h : ofCode? n = some op) : op.code = n := by
  unfold ofCode? at h
  split at h <;> first | contradiction | (cases h; rfl)

theorem ofCode?_eq_some_iff {n : Nat} {op : DoubleMove} : ofCode? n = some op ↔ op.code = n :=
  ⟨code_of_ofCode?, fun h => h ▸ ofCode?_code op⟩

end DoubleMove

end Broadway.Opcode
