import Broadway.Word

/-!
# Names in the special registers

The bits of the machine state register and of XER, and the numbers of the special purpose
registers.
-/

namespace Broadway

/-! ## Bits of the machine state register -/

namespace Msr

def le : Word := 1#32 <<< 0

def ri : Word := 1#32 <<< 1

def dr : Word := 1#32 <<< 4

def ir : Word := 1#32 <<< 5

/-- Interrupt vectors lie at the top of the address space. -/
def ip : Word := 1#32 <<< 6

def fe1 : Word := 1#32 <<< 8

def be : Word := 1#32 <<< 9

def se : Word := 1#32 <<< 10

def fe0 : Word := 1#32 <<< 11

def me : Word := 1#32 <<< 12

def fp : Word := 1#32 <<< 13

def pr : Word := 1#32 <<< 14

def ee : Word := 1#32 <<< 15

def ile : Word := 1#32 <<< 16

def pow : Word := 1#32 <<< 18

end Msr

/-! ## Bits of the fixed point exception register -/

namespace Xer

/-- Summary overflow: stays set until it is cleared explicitly. -/
def so : Word := 1#32 <<< 31

def ov : Word := 1#32 <<< 30

def ca : Word := 1#32 <<< 29

/-- The count of the indexed string instructions. -/
def byteCount : Word := 0x7F#32

/-- The bits that a move to XER keeps; all others are reserved and read as zero. -/
def writable : Word := 0xE000007F#32

end Xer

/-! ## Numbers of special purpose registers -/

namespace Spr

def xer : Nat := 1

def lr : Nat := 8

def ctr : Nat := 9

def dsisr : Nat := 18

def dar : Nat := 19

def dec : Nat := 22

def sdr1 : Nat := 25

def srr0 : Nat := 26

def srr1 : Nat := 27

/-- The low half of the time base, where it is read. -/
def tblRead : Nat := 268

/-- The high half of the time base, where it is read. -/
def tbuRead : Nat := 269

/-- The low half of the time base, where it is written. -/
def tblWrite : Nat := 284

/-- The high half of the time base, where it is written. -/
def tbuWrite : Nat := 285

/-- The processor version. -/
def pvr : Nat := 287

def gqr0 : Nat := 912

def gqr7 : Nat := 919

def hid2 : Nat := 920

def wpar : Nat := 921

def hid0 : Nat := 1008

def hid1 : Nat := 1009

def l2cr : Nat := 1017

/-- The processor version that the register `pvr` holds after a reset. -/
def version : Word := 0x00087102#32

/-- The number of special purpose registers: their numbers have ten bits. -/
def count : Nat := 1024

end Spr

end Broadway
