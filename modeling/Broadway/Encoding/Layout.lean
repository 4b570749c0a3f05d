import Broadway.Encoding.Form
import Broadway.Encoding.Opcode

/-!
# The layout of a word

The primary opcode decides in which form a word is laid out; in groups 4, 30, 31 and 63 the
extended opcode decides with it. Every word has exactly one layout, so `Form.ofWord` is total.

* Taking a word apart gives a form of the layout that was chosen (`Form.kind_ofWord`).
-/

namespace Broadway

/-- The layout of a word, judged from its primary and extended opcodes. -/
def FormKind.ofWord (w : Word) : FormKind :=
  match (Field.opcd w).toNat with
  | 4 =>
    if (Opcode.PairedArith.ofCode? (Field.xo5 w).toNat).isSome then .a
    else if (Opcode.PairedIndexed.ofCode? (Field.xo6 w).toNat).isSome then .psqx
    else .x
  | 16 => .b
  | 17 => .sc
  | 18 => .i
  | 19 => .xl
  | 20 | 21 | 23 => .m
  | 30 => if w.extractLsb' 2 3 = 4#3 then .mds else .md
  | 31 =>
    match (Field.xo10 w).toNat with
    | 144 | 339 | 371 | 467 => .xfx
    | _ =>
      if w.extractLsb' 2 9 = 413#9 then .xs
      else if (Opcode.FixedArith.ofCode? (Field.xo9 w).toNat).isSome then .xo
      else .x
  | 56 | 57 | 60 | 61 => .psq
  | 58 | 62 => .ds
  | 59 => .a
  | 63 =>
    if (Opcode.DoubleArith.ofCode? (Field.xo5 w).toNat).isSome then .a
    else if (Field.xo10 w).toNat = 711 then .xfl
    else .x
  | _ => .d

/-- Takes a word apart in its own layout. -/
def Form.ofWord (w : Word) : Form := .decode (.ofWord w) w

@[simp]
theorem Form.kind_ofWord (w : Word) : (Form.ofWord w).kind = .ofWord w :=
  Form.kind_decode _ w

end Broadway
