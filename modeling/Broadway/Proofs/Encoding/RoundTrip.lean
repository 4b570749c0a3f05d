import Broadway.Proofs.Encoding.Place

/-!
# Encoding and decoding are inverse

A word that is taken apart in any of the seventeen forms and laid out again is the same word, up to
the bits for which a form has no component (`FormKind.relaid`). A form that is laid out and taken
apart again is the same form with every component reduced to the width of its field
(`Form.narrowed`), whatever the components held: a component that is too wide does not reach into
the next field. `Form.encode_decode` and `Form.decode_encode` say so for each form, and
`Form.codec_inverse` for all.
-/

namespace Broadway

/-! ## Reduced components -/

/-- A component reduced to the number that its low `n` bits denote. -/
def narrow (n : Nat) {m : Nat} (v : BitVec m) : BitVec m := BitVec.ofNat m (v.toNat % 2 ^ n)

/-- A component reduced to the number that its low `n` bits denote in two's complement. -/
def narrowSigned (n : Nat) {m : Nat} (v : BitVec m) : BitVec m :=
  BitVec.ofInt m (Int.bmod v.toNat (2 ^ n))

/-- A displacement with its two low bits cleared. -/
def multipleOfFour {m : Nat} (v : BitVec m) : BitVec m := v &&& ~~~3#m

@[simp]
theorem setWidth_setWidth_eq_narrow {m : Nat} (n : Nat) (v : BitVec m) :
    (v.setWidth n).setWidth m = narrow n v := by
  apply BitVec.eq_of_toNat_eq
  simp [narrow]

@[simp]
theorem signExtend_setWidth_eq_narrowSigned {m : Nat} (n : Nat) (v : BitVec m) :
    (v.setWidth n).signExtend m = narrowSigned n v := by
  rw [BitVec.signExtend, narrowSigned, BitVec.toInt_setWidth]

/-! ## Fields that are not read as they stand -/

@[simp]
theorem getLsbD_multipleOfFour {m : Nat} (v : BitVec m) (i : Nat) :
    (multipleOfFour v).getLsbD i = (decide (2 ≤ i) && v.getLsbD i) := by
  have hthree : (3#m).getLsbD i = (decide (i < m) && decide (i < 2)) := by
    rw [BitVec.getLsbD_ofNat, show (3 : Nat) = 2 ^ 2 - 1 from rfl, Nat.testBit_two_pow_sub_one]
  rw [multipleOfFour, BitVec.getLsbD_and, BitVec.getLsbD_not, hthree]
  by_cases hi : i < m
  · by_cases h2 : i < 2
    · simp [h2, Nat.not_le.2 h2]
    · simp [hi, h2, Nat.le_of_not_lt h2]
  · simp [BitVec.getLsbD_of_ge v i (by omega)]

/-- A displacement is laid out without its two low bits, which are clear when it is read. -/
theorem extractLsb'_append_zero {m n : Nat} (v : BitVec m) :
    v.extractLsb' 2 n ++ 0#2 = (multipleOfFour v).setWidth (n + 2) := by
  apply BitVec.eq_of_getLsbD_eq
  intro i hi
  rw [BitVec.getLsbD_append, BitVec.getLsbD_setWidth, getLsbD_multipleOfFour,
    BitVec.getLsbD_extractLsb']
  by_cases h2 : i < 2
  · simp [h2, Nat.not_le.2 h2]
  · have hsub : i - 2 < n := by omega
    rw [if_neg h2, Nat.add_sub_cancel' (Nat.le_of_not_lt h2)]
    simp [hi, hsub, Nat.le_of_not_lt h2]

@[simp]
theorem extractLsb'_signExtend_append {m n : Nat} (x : BitVec n) (h : n + 2 ≤ m) :
    ((x ++ 0#2).signExtend m).extractLsb' 2 n = x := by
  apply BitVec.eq_of_getLsbD_eq
  intro i hi
  have hn : 2 + i < n + 2 := by omega
  have hm : 2 + i < m := by omega
  rw [BitVec.getLsbD_extractLsb', BitVec.getLsbD_signExtend, if_pos hn, BitVec.getLsbD_append,
    if_neg (by omega), Nat.add_sub_cancel_left]
  simp [hi, hm]

@[simp]
theorem setWidth_signExtend {m n : Nat} (x : BitVec n) (h : n ≤ m) :
    (x.signExtend m).setWidth n = x := by
  apply BitVec.eq_of_getLsbD_eq
  intro i hi
  rw [BitVec.getLsbD_setWidth, BitVec.getLsbD_signExtend, if_pos hi]
  simp [hi, Nat.lt_of_lt_of_le hi h]

/-- The low bits of a displacement are not part of what is laid out. -/
theorem extractLsb'_displacement (x : BitVec 14) : (x ++ 0#2 : Half).extractLsb' 2 14 = x :=
  BitVec.extractLsb'_append_eq_left

/-- A shift amount of six bits is laid out in two parts, the sixth bit apart from the others. -/
theorem setWidth_splitSix (a : BitVec 1) (b : BitVec 5) : (a ++ b).setWidth 5 = b :=
  BitVec.setWidth_append_eq_right

theorem extractLsb'_splitSix (a : BitVec 1) (b : BitVec 5) : (a ++ b).extractLsb' 5 1 = a :=
  BitVec.extractLsb'_append_eq_left

theorem splitSix_append (v : BitVec 8) : v.extractLsb' 5 1 ++ v.setWidth 5 = v.setWidth 6 := by
  apply BitVec.eq_of_getLsbD_eq
  intro i hi
  rw [BitVec.getLsbD_append, BitVec.getLsbD_setWidth, BitVec.getLsbD_setWidth,
    BitVec.getLsbD_extractLsb']
  by_cases h5 : i < 5
  · simp [hi, h5]
  · have hone : i - 5 < 1 := by omega
    rw [if_neg h5, Nat.add_sub_cancel' (Nat.le_of_not_lt h5)]
    simp [hi, hone]

@[simp]
theorem rotateSix_unrotateSix (v : BitVec 6) : rotateSix (unrotateSix v) = v := by
  revert v
  decide

@[simp]
theorem unrotateSix_rotateSix (v : BitVec 6) : unrotateSix (rotateSix v) = v := by
  revert v
  decide

/-! ## Form by form

`narrowed` is the form with every component reduced to the width of its field. -/

namespace IForm

def narrowed (f : IForm) : IForm :=
  { f with
    opcd := narrow 6 f.opcd
    li := narrowSigned 26 (multipleOfFour f.li) }

theorem encode_decode (w : Word) : (decode w).encode = w := by
  simp [encode, decode, Field.opcd, Field.li, Field.aa, Field.bit31, place_extractLsb']

theorem decode_encode (f : IForm) : decode f.encode = f.narrowed := by
  simp [encode, decode, narrowed, Field.opcd, Field.li, Field.aa, Field.bit31,
    BitVec.extractLsb'_or, extractLsb'_append_zero]

end IForm

namespace BForm

def narrowed (f : BForm) : BForm :=
  { f with
    opcd := narrow 6 f.opcd
    bo := narrow 5 f.bo
    bi := narrow 5 f.bi
    bd := narrowSigned 16 (multipleOfFour f.bd) }

theorem encode_decode (w : Word) : (decode w).encode = w := by
  simp [encode, decode, Field.opcd, Field.rt, Field.ra, Field.bd, Field.aa, Field.bit31,
    place_extractLsb']

theorem decode_encode (f : BForm) : decode f.encode = f.narrowed := by
  simp [encode, decode, narrowed, Field.opcd, Field.rt, Field.ra, Field.bd, Field.aa, Field.bit31,
    BitVec.extractLsb'_or, extractLsb'_append_zero]

end BForm

namespace ScForm

def narrowed (f : ScForm) : ScForm :=
  { f with
    opcd := narrow 6 f.opcd
    lev := narrow 7 f.lev }

/-- Opcode and level stay, bit 30 is set. -/
theorem encode_decode (w : Word) : (decode w).encode = (w &&& 0xFC000FE0#32) ||| 2#32 := by
  have hkept : kept w 26 6 ||| kept w 5 7 = w &&& 0xFC000FE0#32 := by
    rw [kept_eq_and w 26, kept_eq_and w 5, ← BitVec.and_or_distrib_left]
    rfl
  simp [encode, decode, Field.opcd, Field.lev, place_extractLsb', hkept]
  rfl

theorem decode_encode (f : ScForm) : decode f.encode = f.narrowed := by
  simp [encode, decode, narrowed, Field.opcd, Field.lev, BitVec.extractLsb'_or]

end ScForm

namespace DForm

def narrowed (f : DForm) : DForm :=
  { f with
    opcd := narrow 6 f.opcd
    rt := narrow 5 f.rt
    ra := narrow 5 f.ra }

theorem encode_decode (w : Word) : (decode w).encode = w := by
  simp [encode, decode, Field.opcd, Field.rt, Field.ra, Field.immediate, place_extractLsb']

theorem decode_encode (f : DForm) : decode f.encode = f.narrowed := by
  simp [encode, decode, narrowed, Field.opcd, Field.rt, Field.ra, Field.immediate,
    BitVec.extractLsb'_or]

end DForm

namespace DsForm

def narrowed (f : DsForm) : DsForm :=
  { f with
    opcd := narrow 6 f.opcd
    rt := narrow 5 f.rt
    ra := narrow 5 f.ra
    ds := multipleOfFour f.ds
    xo := narrow 2 f.xo }

theorem encode_decode (w : Word) : (decode w).encode = w := by
  simp [encode, decode, Field.opcd, Field.rt, Field.ra, place_extractLsb',
    extractLsb'_displacement]

theorem decode_encode (f : DsForm) : decode f.encode = f.narrowed := by
  simp [encode, decode, narrowed, Field.opcd, Field.rt, Field.ra, BitVec.extractLsb'_or,
    extractLsb'_append_zero]

end DsForm

namespace XForm

def narrowed (f : XForm) : XForm :=
  { f with
    opcd := narrow 6 f.opcd
    rt := narrow 5 f.rt
    ra := narrow 5 f.ra
    rb := narrow 5 f.rb
    xo := narrow 10 f.xo }

theorem encode_decode (w : Word) : (decode w).encode = w := by
  simp [encode, decode, Field.opcd, Field.rt, Field.ra, Field.rb, Field.xo10, Field.bit31,
    place_extractLsb']

theorem decode_encode (f : XForm) : decode f.encode = f.narrowed := by
  simp [encode, decode, narrowed, Field.opcd, Field.rt, Field.ra, Field.rb, Field.xo10,
    Field.bit31, BitVec.extractLsb'_or]

end XForm

namespace XlForm

def narrowed (f : XlForm) : XlForm :=
  { f with
    opcd := narrow 6 f.opcd
    bt := narrow 5 f.bt
    ba := narrow 5 f.ba
    bb := narrow 5 f.bb
    xo := narrow 10 f.xo }

theorem encode_decode (w : Word) : (decode w).encode = w := by
  simp [encode, decode, Field.opcd, Field.rt, Field.ra, Field.rb, Field.xo10, Field.bit31,
    place_extractLsb']

theorem decode_encode (f : XlForm) : decode f.encode = f.narrowed := by
  simp [encode, decode, narrowed, Field.opcd, Field.rt, Field.ra, Field.rb, Field.xo10,
    Field.bit31, BitVec.extractLsb'_or]

end XlForm

namespace XfxForm

def narrowed (f : XfxForm) : XfxForm :=
  { f with
    opcd := narrow 6 f.opcd
    rt := narrow 5 f.rt
    field := narrow 10 f.field
    xo := narrow 10 f.xo }

/-- The last bit is not part of the form. -/
theorem encode_decode (w : Word) : (decode w).encode = w &&& ~~~1#32 := by
  have hkept : kept w 1 31 = w &&& ~~~1#32 := kept_eq_and w 1 31
  simp [encode, decode, Field.opcd, Field.rt, Field.sprField, Field.xo10, place_extractLsb', hkept]

theorem decode_encode (f : XfxForm) : decode f.encode = f.narrowed := by
  simp [encode, decode, narrowed, Field.opcd, Field.rt, Field.sprField, Field.xo10,
    BitVec.extractLsb'_or]

end XfxForm

namespace XflForm

def narrowed (f : XflForm) : XflForm :=
  { f with
    opcd := narrow 6 f.opcd
    frb := narrow 5 f.frb
    xo := narrow 10 f.xo }

/-- The bits on both sides of the mask are not part of the form. -/
theorem encode_decode (w : Word) : (decode w).encode = w &&& ~~~(1#32 <<< 25 ||| 1#32 <<< 16) := by
  have hkept : kept w 26 6 ||| (kept w 17 8 ||| kept w 0 16)
      = w &&& ~~~(1#32 <<< 25 ||| 1#32 <<< 16) := by
    rw [kept_eq_and w 26, kept_eq_and w 17, kept_eq_and w 0, ← BitVec.and_or_distrib_left,
      ← BitVec.and_or_distrib_left]
    rfl
  simp [encode, decode, Field.opcd, Field.fm, Field.rb, Field.xo10, Field.bit31,
    place_extractLsb', hkept, BitVec.or_assoc]

theorem decode_encode (f : XflForm) : decode f.encode = f.narrowed := by
  simp [encode, decode, narrowed, Field.opcd, Field.fm, Field.rb, Field.xo10, Field.bit31,
    BitVec.extractLsb'_or]

end XflForm

namespace XsForm

def narrowed (f : XsForm) : XsForm :=
  { f with
    opcd := narrow 6 f.opcd
    rs := narrow 5 f.rs
    ra := narrow 5 f.ra
    sh := narrow 6 f.sh
    xo := narrow 9 f.xo }

theorem encode_decode (w : Word) : (decode w).encode = w := by
  simp [encode, decode, Field.opcd, Field.rt, Field.ra, Field.rb, Field.bit31, place_extractLsb',
    BitVec.extractLsb'_setWidth_of_le, setWidth_splitSix, extractLsb'_splitSix]

theorem decode_encode (f : XsForm) : decode f.encode = f.narrowed := by
  simp [encode, decode, narrowed, Field.opcd, Field.rt, Field.ra, Field.rb, Field.bit31,
    BitVec.extractLsb'_or, splitSix_append]

end XsForm

namespace XoForm

def narrowed (f : XoForm) : XoForm :=
  { f with
    opcd := narrow 6 f.opcd
    rt := narrow 5 f.rt
    ra := narrow 5 f.ra
    rb := narrow 5 f.rb
    xo := narrow 9 f.xo }

theorem encode_decode (w : Word) : (decode w).encode = w := by
  simp [encode, decode, Field.opcd, Field.rt, Field.ra, Field.rb, Field.oe, Field.xo9,
    Field.bit31, place_extractLsb']

theorem decode_encode (f : XoForm) : decode f.encode = f.narrowed := by
  simp [encode, decode, narrowed, Field.opcd, Field.rt, Field.ra, Field.rb, Field.oe, Field.xo9,
    Field.bit31, BitVec.extractLsb'_or]

end XoForm

namespace AForm

def narrowed (f : AForm) : AForm :=
  { f with
    opcd := narrow 6 f.opcd
    frt := narrow 5 f.frt
    fra := narrow 5 f.fra
    frb := narrow 5 f.frb
    frc := narrow 5 f.frc
    xo := narrow 5 f.xo }

theorem encode_decode (w : Word) : (decode w).encode = w := by
  simp [encode, decode, Field.opcd, Field.rt, Field.ra, Field.rb, Field.rc, Field.xo5,
    Field.bit31, place_extractLsb']

theorem decode_encode (f : AForm) : decode f.encode = f.narrowed := by
  simp [encode, decode, narrowed, Field.opcd, Field.rt, Field.ra, Field.rb, Field.rc, Field.xo5,
    Field.bit31, BitVec.extractLsb'_or]

end AForm

namespace MForm

def narrowed (f : MForm) : MForm :=
  { f with
    opcd := narrow 6 f.opcd
    rs := narrow 5 f.rs
    ra := narrow 5 f.ra
    rb := narrow 5 f.rb
    mb := narrow 5 f.mb
    me := narrow 5 f.me }

theorem encode_decode (w : Word) : (decode w).encode = w := by
  simp [encode, decode, Field.opcd, Field.rt, Field.ra, Field.rb, Field.rc, Field.me, Field.bit31,
    place_extractLsb']

theorem decode_encode (f : MForm) : decode f.encode = f.narrowed := by
  simp [encode, decode, narrowed, Field.opcd, Field.rt, Field.ra, Field.rb, Field.rc, Field.me,
    Field.bit31, BitVec.extractLsb'_or]

end MForm

namespace MdForm

def narrowed (f : MdForm) : MdForm :=
  { f with
    opcd := narrow 6 f.opcd
    rs := narrow 5 f.rs
    ra := narrow 5 f.ra
    sh := narrow 6 f.sh
    mb := narrow 6 f.mb
    xo := narrow 3 f.xo }

theorem encode_decode (w : Word) : (decode w).encode = w := by
  simp [encode, decode, Field.opcd, Field.rt, Field.ra, Field.rb, Field.bit31, place_extractLsb',
    BitVec.extractLsb'_setWidth_of_le, setWidth_splitSix, extractLsb'_splitSix]

theorem decode_encode (f : MdForm) : decode f.encode = f.narrowed := by
  simp [encode, decode, narrowed, Field.opcd, Field.rt, Field.ra, Field.rb, Field.bit31,
    BitVec.extractLsb'_or, splitSix_append]

end MdForm

namespace MdsForm

def narrowed (f : MdsForm) : MdsForm :=
  { f with
    opcd := narrow 6 f.opcd
    rs := narrow 5 f.rs
    ra := narrow 5 f.ra
    rb := narrow 5 f.rb
    mb := narrow 6 f.mb
    xo := narrow 4 f.xo }

theorem encode_decode (w : Word) : (decode w).encode = w := by
  simp [encode, decode, Field.opcd, Field.rt, Field.ra, Field.rb, Field.bit31, place_extractLsb']

theorem decode_encode (f : MdsForm) : decode f.encode = f.narrowed := by
  simp [encode, decode, narrowed, Field.opcd, Field.rt, Field.ra, Field.rb, Field.bit31,
    BitVec.extractLsb'_or]

end MdsForm

namespace PsqForm

def narrowed (f : PsqForm) : PsqForm :=
  { f with
    opcd := narrow 6 f.opcd
    frt := narrow 5 f.frt
    ra := narrow 5 f.ra
    i := narrow 3 f.i
    d := narrowSigned 12 f.d }

theorem encode_decode (w : Word) : (decode w).encode = w := by
  simp [encode, decode, Field.opcd, Field.rt, Field.ra, Field.psqW, Field.psqI, Field.psqD,
    place_extractLsb']

theorem decode_encode (f : PsqForm) : decode f.encode = f.narrowed := by
  simp [encode, decode, narrowed, Field.opcd, Field.rt, Field.ra, Field.psqW, Field.psqI,
    Field.psqD, BitVec.extractLsb'_or]

end PsqForm

namespace PsqxForm

def narrowed (f : PsqxForm) : PsqxForm :=
  { f with
    opcd := narrow 6 f.opcd
    frt := narrow 5 f.frt
    ra := narrow 5 f.ra
    rb := narrow 5 f.rb
    i := narrow 3 f.i
    xo := narrow 6 f.xo }

/-- The last bit is not part of the form. -/
theorem encode_decode (w : Word) : (decode w).encode = w &&& ~~~1#32 := by
  have hkept : kept w 1 31 = w &&& ~~~1#32 := kept_eq_and w 1 31
  simp [encode, decode, Field.opcd, Field.rt, Field.ra, Field.rb, Field.psqWx, Field.psqIx,
    Field.xo6, place_extractLsb', hkept]

theorem decode_encode (f : PsqxForm) : decode f.encode = f.narrowed := by
  simp [encode, decode, narrowed, Field.opcd, Field.rt, Field.ra, Field.rb, Field.psqWx,
    Field.psqIx, Field.xo6, BitVec.extractLsb'_or]

end PsqxForm

/-! ## All forms -/

/-- What is left of a word when it is taken apart in a form and laid out again. -/
def FormKind.relaid : FormKind → Word → Word
  | .xfx, w | .psqx, w => w &&& ~~~1#32
  | .xfl, w => w &&& ~~~(1#32 <<< 25 ||| 1#32 <<< 16)
  | .sc, w => (w &&& 0xFC000FE0#32) ||| 2#32
  | _, w => w

namespace Form

/-- The form with every component reduced to the width of its field. -/
def narrowed : Form → Form
  | .i f => .i f.narrowed
  | .b f => .b f.narrowed
  | .sc f => .sc f.narrowed
  | .d f => .d f.narrowed
  | .ds f => .ds f.narrowed
  | .x f => .x f.narrowed
  | .xl f => .xl f.narrowed
  | .xfx f => .xfx f.narrowed
  | .xfl f => .xfl f.narrowed
  | .xs f => .xs f.narrowed
  | .xo f => .xo f.narrowed
  | .a f => .a f.narrowed
  | .m f => .m f.narrowed
  | .md f => .md f.narrowed
  | .mds f => .mds f.narrowed
  | .psq f => .psq f.narrowed
  | .psqx f => .psqx f.narrowed

/-- A word taken apart and laid out again is the word, up to the bits that the form has no
component for. -/
theorem encode_decode (k : FormKind) (w : Word) : (decode k w).encode = k.relaid w := by
  cases k with
  | i => exact IForm.encode_decode w
  | b => exact BForm.encode_decode w
  | sc => exact ScForm.encode_decode w
  | d => exact DForm.encode_decode w
  | ds => exact DsForm.encode_decode w
  | x => exact XForm.encode_decode w
  | xl => exact XlForm.encode_decode w
  | xfx => exact XfxForm.encode_decode w
  | xfl => exact XflForm.encode_decode w
  | xs => exact XsForm.encode_decode w
  | xo => exact XoForm.encode_decode w
  | a => exact AForm.encode_decode w
  | m => exact MForm.encode_decode w
  | md => exact MdForm.encode_decode w
  | mds => exact MdsForm.encode_decode w
  | psq => exact PsqForm.encode_decode w
  | psqx => exact PsqxForm.encode_decode w

/-- A form laid out and taken apart again is the form with its components reduced. -/
theorem decode_encode (f : Form) : decode f.kind f.encode = f.narrowed := by
  cases f with
  | i f => exact congrArg Form.i f.decode_encode
  | b f => exact congrArg Form.b f.decode_encode
  | sc f => exact congrArg Form.sc f.decode_encode
  | d f => exact congrArg Form.d f.decode_encode
  | ds f => exact congrArg Form.ds f.decode_encode
  | x f => exact congrArg Form.x f.decode_encode
  | xl f => exact congrArg Form.xl f.decode_encode
  | xfx f => exact congrArg Form.xfx f.decode_encode
  | xfl f => exact congrArg Form.xfl f.decode_encode
  | xs f => exact congrArg Form.xs f.decode_encode
  | xo f => exact congrArg Form.xo f.decode_encode
  | a f => exact congrArg Form.a f.decode_encode
  | m f => exact congrArg Form.m f.decode_encode
  | md f => exact congrArg Form.md f.decode_encode
  | mds f => exact congrArg Form.mds f.decode_encode
  | psq f => exact congrArg Form.psq f.decode_encode
  | psqx f => exact congrArg Form.psqx f.decode_encode

/-- **The codec is inverse in both directions.** Taking a word apart in any form and laying it out
again loses the bits that the form has no component for, and nothing else. Laying out a form whose
components hold any values and taking the word apart again reduces every component to the width of
its field, so that nothing of it reaches another field. -/
theorem codec_inverse :
    (∀ k w, (decode k w).encode = k.relaid w) ∧ ∀ f : Form, decode f.kind f.encode = f.narrowed :=
  ⟨encode_decode, decode_encode⟩

/-- A register number and an immediate shift amount that are too wide lose their upper bits only;
the mask bound next to them stays. -/
example : decode .md (Form.encode (.md ⟨30, 0xFF, 1, 0xC1, 33, 1, true⟩))
    = .md ⟨30, 31, 1, 1, 33, 1, true⟩ := by
  decide

end Form

end Broadway
