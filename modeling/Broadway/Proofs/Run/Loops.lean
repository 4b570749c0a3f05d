import Mathlib.Data.Nat.Find
import Broadway.Proofs.Exec.Condition
import Broadway.Proofs.Run.Code
import Broadway.Proofs.Run.Limit

/-!
# Loops of guest code

Two loops, each of them called by the host and run to its return. A round of a loop is a few steps
of the run (`Interpreter.Visits.executes`), and ends at the head of the loop or behind its branch;
the whole run goes by induction on the rounds that are left.

* A loop that counts makes as many rounds as the count register says, and a full turn of them if it
  is zero (`counting_loop_exact`).
* A loop that waits for a time ends, though nothing about it gets smaller (`waiting_loop_ends`). A
  round takes three instructions, and three has an inverse modulo a power of two, so that steps of
  three lead to every time (`steps_of_three_iff`).
-/

namespace Broadway

/-! ## Steps of a run -/

/-- The address that stands for the host is not one of a word. -/
theorem ne_sentinel_of_setWidth {a : Word} (h : a.setWidth 2 = 0#2) : a ≠ returnSentinel := by
  rintro rfl
  contradiction

/-- The registers after a return to the host. -/
def Registers.atHost (r : Registers) : Registers :=
  { r with pc := returnSentinel, npc := returnSentinel, tb := r.tb + 1 }

namespace Interpreter

variable {i : Interpreter} {l : Nat} {r s : Registers} {ram : Ram}

/-- A run without a limit goes on over a word that only changes registers. -/
theorem Visits.executes {w : Word} {instr : Instr} (hlimit : i.limit = 0)
    (h : i.Visits l ⟨r, ram⟩) (hpc : r.pc.setWidth 2 = 0#2)
    (hread : Window.read ram 4 r.pc = .ok w) (hi : Instr.ofWord w = .ok instr)
    (hdone : instr.exec ⟨{ r with npc := r.pc + 4 }, ram⟩ = ⟨⟨s, ram⟩, none⟩) :
    i.Visits (l + 1) ⟨{ s with pc := s.npc, tb := s.tb + 1 }, ram⟩ := by
  have hgo : (i.point l ⟨r, ram⟩).stop? = none := by
    rw [stop?_point, if_neg (ne_sentinel_of_setWidth hpc), if_neg fun hreached => hreached.1 hlimit]
  exact h.next hgo (Machine.step_of_done hread ((Machine.execute_of_ofWord hi _).trans hdone))

/-- The run of a function that is called by the host ends with its return. -/
theorem Visits.returns (hlimit : i.limit = 0) (h : i.Visits l ⟨r, ram⟩)
    (hpc : r.pc.setWidth 2 = 0#2) (hread : Window.read ram 4 r.pc = .ok 0x4E800020#32)
    (hlr : r.lr = returnSentinel) : i.Ends (l + 1) ⟨r.atHost, ram⟩ .completed := by
  have hi : Instr.ofWord 0x4E800020#32 = .ok (.branch (.conditional 20 0 .link false)) := rfl
  have htarget : Registers.destination { r with npc := r.pc + 4 } .link = returnSentinel := by
    show (if r.lr = returnSentinel then r.lr else aligned r.lr) = returnSentinel
    rw [if_pos hlr, hlr]
  have hvisit := h.executes (s := { r with npc := returnSentinel }) hlimit hpc hread hi (by
    rw [← htarget]
    rfl)
  have hstop : (i.point (l + 1) ⟨r.atHost, ram⟩).stop? = some .completed := by
    rw [stop?_point]
    exact if_pos rfl
  exact .stopped hvisit hstop

end Interpreter

/-! ## A loop that counts -/

namespace Instr

theorem ofWord_of_addi {w : Word} (hw : Opcode.Primary.addi.Selects w) :
    ofWord w = .ok (.fixed (.addImmediate (Field.rt w) (Field.ra w)
      ((Field.immediate w).signExtend 32))) := by
  rw [ofWord_of_primary hw (by decide), ofDForm, hw.ofCode?_dForm]
  simp only [DForm.decode, reg_setWidth]

/-- The word `addi r3, r3, k`. -/
theorem ofWord_addi (k : Half) :
    ofWord (0x3863#16 ++ k) = .ok (.fixed (.addImmediate 3 3 (k.signExtend 32))) := by
  have high (start len : Nat) (h : 16 ≤ start) :
      (0x3863#16 ++ k).extractLsb' start len = (0x3863#16).extractLsb' (start - 16) len :=
    BitVec.extractLsb'_append_eq_of_le h
  have hw : Opcode.Primary.addi.Selects (0x3863#16 ++ k) := by
    show ((0x3863#16 ++ k).extractLsb' 26 6).toNat = 14
    rw [high 26 6 (by decide)]
    rfl
  have hrt : Field.rt (0x3863#16 ++ k) = 3 := high 21 5 (by decide)
  have hra : Field.ra (0x3863#16 ++ k) = 3 := high 16 5 (by decide)
  have himmediate : Field.immediate (0x3863#16 ++ k) = k := BitVec.extractLsb'_append_eq_right
  rw [ofWord_of_addi hw, hrt, hra, himmediate]

end Instr

/-- The branch decrements the count and goes back unless that was the last round. -/
theorem BranchInstr.exec_bdnz (target : Target) (r : Registers) :
    (conditional 16 0 target false).exec r =
      { r with
        ctr := r.ctr - 1
        npc := if r.ctr - 1 = 0 then r.npc else r.destination target } := by
  show ({ r with
    ctr := r.ctr - 1
    npc := if (r.ctr - 1 != 0) = true then r.destination target else r.npc } : Registers) = _
  by_cases hlast : r.ctr - 1 = 0
  · rw [if_pos hlast, if_neg (by rw [hlast]; decide)]
  · rw [if_neg hlast, if_pos (bne_iff_ne.2 hlast)]

/-- The words of a loop that adds to r3 as often as the count register says: `addi r3, r3, k`,
`bdnz -4` and `blr`. -/
def countingLoop (k : Half) : List Word := [0x3863#16 ++ k, 0x4200FFFC#32, 0x4E800020#32]

namespace Registers

variable (r : Registers) (k : Half)

/-- How many rounds a loop that counts makes: the count is decremented before it is tested, so that
a count of zero is a full turn. -/
def rounds : Nat := if r.ctr = 0 then 2 ^ 32 else r.ctr.toNat

/-- The registers after a round of the loop, with the address at which it leaves the program. -/
def countedOnce (next : Word) : Registers :=
  { r with
    gpr := r.gpr.write 3 (r.gpr.read 3 + k.signExtend 32)
    ctr := r.ctr - 1
    pc := next
    npc := next
    tb := r.tb + 2#64 }

/-- The registers after `n` rounds of the loop and the return. -/
def counted (n : Nat) : Registers :=
  { r with
    gpr := r.gpr.write 3 (r.gpr.read 3 + BitVec.ofInt 32 (n * k.toInt))
    ctr := 0
    pc := returnSentinel
    npc := returnSentinel
    tb := r.tb + BitVec.ofNat 64 (2 * n + 1) }

/-- A count that is not zero before its last decrement. -/
theorem exists_rounds : ∃ n < 2 ^ 32, r.rounds = n + 1 ∧ r.ctr = BitVec.ofNat 32 (n + 1) := by
  unfold rounds
  by_cases hzero : r.ctr = 0
  · rw [if_pos hzero]
    exact ⟨2 ^ 32 - 1, by decide, rfl, hzero.trans (by decide)⟩
  · have hpos : r.ctr.toNat ≠ 0 := fun h => hzero (BitVec.eq_of_toNat_eq h)
    have hlt : r.ctr.toNat < 2 ^ 32 := r.ctr.isLt
    have hcount : r.ctr.toNat = r.ctr.toNat - 1 + 1 := by omega
    rw [if_neg hzero]
    refine ⟨r.ctr.toNat - 1, by omega, hcount, ?_⟩
    rw [← hcount, BitVec.ofNat_toNat, BitVec.setWidth_eq]

/-- The return behind the last round. -/
theorem counted_one (next : Word) (hlast : r.ctr - 1 = 0) :
    (r.countedOnce k next).atHost = r.counted k 1 := by
  have hsum : BitVec.ofInt 32 ((1 : Nat) * k.toInt) = k.signExtend 32 := by
    rw [Nat.cast_one, one_mul]
    rfl
  have htime : r.tb + 2#64 + 1 = r.tb + BitVec.ofNat 64 (2 * 1 + 1) := BitVec.add_assoc ..
  simp only [atHost, counted, countedOnce, hsum, hlast, htime]

/-- A round before others is one more round. -/
theorem counted_countedOnce (next : Word) (n : Nat) :
    (r.countedOnce k next).counted k n = r.counted k (n + 1) := by
  have hsum : r.gpr.read 3 + k.signExtend 32 + BitVec.ofInt 32 (n * k.toInt) =
      r.gpr.read 3 + BitVec.ofInt 32 ((n + 1 : Nat) * k.toInt) := by
    rw [Nat.cast_succ, add_mul, one_mul, add_comm (n * k.toInt), BitVec.ofInt_add,
      ← BitVec.add_assoc]
    rfl
  have htime : r.tb + 2#64 + BitVec.ofNat 64 (2 * n + 1) =
      r.tb + BitVec.ofNat 64 (2 * (n + 1) + 1) := by
    have hcount : 2 + (2 * n + 1) = 2 * (n + 1) + 1 := by omega
    rw [BitVec.add_assoc, BitVec.ofNat_add_ofNat, hcount]
  simp only [counted, countedOnce, Bank.read_write_self, Bank.write_write, hsum, htime]

end Registers

namespace Interpreter

variable {i : Interpreter} {l : Nat} {r : Registers} {ram : Ram} {k : Half}

/-- A round of the loop ends at the head of the loop, or behind the branch if it is the last. -/
theorem Visits.countedOnce (hlimit : i.limit = 0) (hcode : ram.HoldsCode (countingLoop k) r.pc)
    (hpc : r.pc.setWidth 2 = 0#2) (h : i.Visits l ⟨r, ram⟩) :
    i.Visits (l + 2) ⟨r.countedOnce k (if r.ctr - 1 = 0 then r.pc + 4 + 4 else r.pc), ram⟩ := by
  obtain ⟨hadd, hbranch, -⟩ := hcode
  have hadded : i.Visits (l + 1) ⟨{ r with
      gpr := r.gpr.write 3 (r.gpr.read 3 + k.signExtend 32)
      pc := r.pc + 4
      npc := r.pc + 4
      tb := r.tb + 1 }, ram⟩ :=
    h.executes hlimit hpc hadd (Instr.ofWord_addi k) rfl
  have hi : Instr.ofWord 0x4200FFFC#32 =
    .ok (.branch (.conditional 16 0 (.relative 0xFFFFFFFC#32) false)) := rfl
  have hcounted := hadded.executes hlimit (setWidth_next hpc) hbranch hi
    (congrArg (Machine.done _) (BranchInstr.exec_bdnz _ _))
  have hback : r.pc + 4 + 0xFFFFFFFC#32 = r.pc := by
    rw [BitVec.add_assoc]
    exact BitVec.add_zero r.pc
  have htime : r.tb + 1 + 1 = r.tb + 2#64 := BitVec.add_assoc ..
  simp only [Registers.destination, hback, htime] at hcounted
  exact hcounted

/-- From the head of the loop with `n + 1` rounds to go, the run ends with the return. -/
theorem Visits.counted (hlimit : i.limit = 0) {n : Nat} (hn : n < 2 ^ 32)
    (hcode : ram.HoldsCode (countingLoop k) r.pc) (hpc : r.pc.setWidth 2 = 0#2)
    (hlr : r.lr = returnSentinel) (hctr : r.ctr = BitVec.ofNat 32 (n + 1))
    (h : i.Visits l ⟨r, ram⟩) :
    i.Ends (l + (2 * (n + 1) + 1)) ⟨r.counted k (n + 1), ram⟩ .completed := by
  induction n generalizing l r with
  | zero =>
      have hlast : r.ctr - 1 = 0 := by rw [hctr]; decide
      have hround := h.countedOnce hlimit hcode hpc
      rw [if_pos hlast] at hround
      have hreturn := hround.returns hlimit (setWidth_next (setWidth_next hpc)) hcode.2.2.1 hlr
      rw [Registers.counted_one r k _ hlast] at hreturn
      exact hreturn
  | succ n ih =>
      have hrest : r.ctr - 1 = BitVec.ofNat 32 (n + 1) := by
        rw [hctr, BitVec.ofNat_add (n + 1) 1]
        exact BitVec.add_sub_cancel _ _
      have hmore : r.ctr - 1 ≠ 0 := by
        rw [hrest]
        intro hzero
        have hnat := congrArg BitVec.toNat hzero
        rw [BitVec.toNat_ofNat, Nat.mod_eq_of_lt hn] at hnat
        contradiction
      have hround := h.countedOnce hlimit hcode hpc
      rw [if_neg hmore] at hround
      have hend := ih (r := r.countedOnce k r.pc) (by omega) hcode hpc hlr hrest hround
      have hcount : l + 2 + (2 * (n + 1) + 1) = l + (2 * (n + 1 + 1) + 1) := by omega
      rw [Registers.counted_countedOnce, hcount] at hend
      exact hend

end Interpreter

/-- **A loop that counts makes as many rounds as the count register says**, for every increment and
every state from which the run starts at the loop. -/
theorem counting_loop_exact (i : Interpreter) (k : Half) (hlimit : i.limit = 0)
    (hpc : i.regs.pc.setWidth 2 = 0#2) (hcode : i.ram.HoldsCode (countingLoop k) i.regs.pc)
    (hlr : i.regs.lr = returnSentinel) :
    2 * i.regs.rounds + 1 < Interpreter.ample ∧
    ∀ fuel > 2 * i.regs.rounds + 1,
      i.run fuel = some (i.ended (2 * i.regs.rounds + 1)
        ⟨i.regs.counted k i.regs.rounds, i.ram⟩ .completed, .completed) := by
  obtain ⟨n, hn, hrounds, hctr⟩ := i.regs.exists_rounds
  rw [hrounds]
  constructor
  case left =>
    show 2 * (n + 1) + 1 < 2 ^ 64
    omega
  case right =>
    intro fuel hfuel
    have hend := Interpreter.Visits.counted (r := i.regs) hlimit hn hcode hpc hlr hctr .start
    rw [Nat.zero_add] at hend
    exact hend.run_eq hfuel

/-- A count of zero is 2³² rounds. They add up to nothing in r3. -/
theorem counting_loop_exact_zero :
    let ram : Ram := .ofBytes ⟨#[0x38, 0x63, 0xFF, 0xFF, 0x42, 0, 0xFF, 0xFC, 0x4E, 0x80, 0, 0x20]⟩
    let regs := { Registers.initial with pc := 0x80000000#32, lr := returnSentinel }
    let i := (Interpreter.initial ram 0).setRegs regs
    regs.ctr = 0 ∧
    ∃ j, i.run Interpreter.ample = some (j, .completed) ∧ j.executed = 8589934593 ∧
      j.regs.gpr.read 3 = 0#32 ∧ j.regs.ctr = 0 ∧ j.regs.tb = 8589934593#64 := by
  intro ram regs i
  have hcode : i.ram.HoldsCode (countingLoop 0xFFFF#16) i.regs.pc := by decide
  obtain ⟨hample, hrun⟩ := counting_loop_exact i 0xFFFF#16 rfl (by decide) hcode rfl
  have hrounds : i.regs.rounds = 4294967296 := rfl
  rw [hrounds] at hample hrun
  exact ⟨rfl, _, hrun _ hample, rfl, by decide, rfl, by decide⟩

/-! ## A loop that waits -/

/-- The inverse of three modulo 2³². -/
def thirdOfWord : Word := 0xAAAAAAAB#32

/-- Steps of three lead from a word to every other, and to each of them after one number of steps
modulo 2³². -/
theorem steps_of_three_iff (t u : Word) (j : Nat) :
    (t.toNat + 3 * j) % 2 ^ 32 = u.toNat ↔ j % 2 ^ 32 = ((u - t) * thirdOfWord).toNat := by
  have hone : 3#32 * thirdOfWord = 1#32 := by decide
  have hsum : (t + 3#32 * BitVec.ofNat 32 j).toNat = (t.toNat + 3 * j) % 2 ^ 32 := by
    rw [BitVec.toNat_add, BitVec.toNat_mul, Nat.add_mod_mod, BitVec.toNat_ofNat, BitVec.toNat_ofNat]
    omega
  have hsteps : (BitVec.ofNat 32 j).toNat = j % 2 ^ 32 := BitVec.toNat_ofNat ..
  rw [← hsum, ← hsteps, BitVec.toNat_inj, BitVec.toNat_inj]
  constructor
  case mp =>
    intro hu
    have hdiff : u - t = 3#32 * BitVec.ofNat 32 j := by
      rw [← hu, BitVec.add_comm, BitVec.add_sub_cancel]
    rw [hdiff, BitVec.mul_comm 3#32, BitVec.mul_assoc, hone, BitVec.mul_one]
  case mpr =>
    intro hj
    rw [hj, BitVec.mul_comm (u - t), ← BitVec.mul_assoc, hone, BitVec.one_mul, BitVec.add_comm,
      BitVec.sub_add_cancel]

/-- The branch goes back if the first operand of the comparison was less. -/
theorem BranchInstr.exec_blt (target : Target) (r : Registers) :
    (conditional 12 0 target false).exec r =
      { r with npc := if r.cr.getMsbD 0 then r.destination target else r.npc } := by
  have hbit : r.crBit 0 = r.cr.getMsbD 0 := r.crBit_eq 0
  rw [← hbit]
  rfl

/-- The words of a loop that waits until the time base, as it reads it, is at least r4: `mftb r3`,
`cmplw r3, r4`, `blt -8` and `blr`. -/
def waitingLoop : List Word := [0x7C6C42E6#32, 0x7C032040#32, 0x4180FFF8#32, 0x4E800020#32]

namespace Registers

variable (r : Registers)

/-- The low word of the time base `n` instructions on. -/
def lowTime (n : Nat) : Word := (r.tb + BitVec.ofNat 64 n).extractLsb' 0 32

/-- The condition register after a comparison of a time with r4. -/
def timeCompared (time : Word) : Word := (r.compareUnsigned 0 time (r.gpr.read 4)).cr

/-- The registers after a round of the loop, with the address at which it leaves the program. -/
def waitedOnce (next : Word) : Registers :=
  { r with
    gpr := r.gpr.write 3 (r.lowTime 0)
    cr := r.timeCompared (r.lowTime 0)
    pc := next
    npc := next
    tb := r.tb + 3#64 }

/-- The registers after `j` rounds of the loop that go back, one that does not, and the return. -/
def waited (j : Nat) : Registers :=
  { r with
    gpr := r.gpr.write 3 (r.lowTime (3 * j))
    cr := r.timeCompared (r.lowTime (3 * j))
    pc := returnSentinel
    npc := returnSentinel
    tb := r.tb + BitVec.ofNat 64 (3 * j + 4) }

theorem toNat_lowTime (n : Nat) : (r.lowTime n).toNat = (r.tb.toNat + n) % 2 ^ 32 := by
  rw [lowTime, BitVec.extractLsb'_toNat, BitVec.toNat_add, BitVec.toNat_ofNat]
  omega

theorem lowTime_zero : r.lowTime 0 = r.tb.extractLsb' 0 32 := congrArg _ (BitVec.add_zero r.tb)

/-- A loop that waits comes to every time. -/
theorem exists_le_lowTime (time : Word) : ∃ j < 2 ^ 32, time ≤ r.lowTime (3 * j) := by
  let steps := (time - r.lowTime 0) * thirdOfWord
  have hreached := (steps_of_three_iff (r.lowTime 0) time steps.toNat).2
    (Nat.mod_eq_of_lt steps.isLt)
  refine ⟨steps.toNat, steps.isLt, ?_⟩
  rw [BitVec.le_def, ← hreached, toNat_lowTime, toNat_lowTime]
  omega

/-- The first bit of the condition register says whether the time is before r4. -/
theorem getMsbD_timeCompared (time : Word) :
    (r.timeCompared time).getMsbD 0 = decide (time < r.gpr.read 4) := by
  have hfield := Condition.getMsbD_setField r.cr 0 0 0
    (Condition.ofOrder (some (compare time.toNat (r.gpr.read 4).toNat)) |||
      if r.summaryOverflow then Condition.so else 0)
  rw [if_pos rfl, getMsbD_ofOrder (Nat.compare_eq_lt.trans Int.ofNat_lt.symm)
    (Nat.compare_eq_gt.trans Int.ofNat_lt.symm) (Nat.compare_eq_eq.trans Int.ofNat_inj.symm),
    orderBit, if_pos rfl] at hfield
  exact hfield.trans (decide_eq_decide.2 Int.ofNat_lt)

theorem lowTime_waitedOnce (next : Word) (n : Nat) :
    (r.waitedOnce next).lowTime n = r.lowTime (3 + n) := by
  show (r.tb + 3#64 + BitVec.ofNat 64 n).extractLsb' 0 32 = _
  rw [BitVec.add_assoc, BitVec.ofNat_add_ofNat]
  rfl

theorem timeCompared_waitedOnce (next time : Word) :
    (r.waitedOnce next).timeCompared time = r.timeCompared time := by
  have hother : (r.waitedOnce next).gpr.read 4 = r.gpr.read 4 :=
    Bank.read_write_of_ne _ _ (by decide)
  rw [timeCompared, hother]
  exact Condition.setField_setField ..

/-- The return behind a round that does not go back. -/
theorem waited_zero (next : Word) : (r.waitedOnce next).atHost = r.waited 0 := by
  have htime : r.tb + 3#64 + 1 = r.tb + BitVec.ofNat 64 (3 * 0 + 4) := BitVec.add_assoc ..
  simp only [atHost, waited, waitedOnce, htime]

/-- A round before others is one more round. -/
theorem waited_waitedOnce (next : Word) (j : Nat) :
    (r.waitedOnce next).waited j = r.waited (j + 1) := by
  have hcount : 3 + 3 * j = 3 * (j + 1) := by omega
  have htime : r.tb + 3#64 + BitVec.ofNat 64 (3 * j + 4) =
      r.tb + BitVec.ofNat 64 (3 * (j + 1) + 4) := by
    rw [BitVec.add_assoc, BitVec.ofNat_add_ofNat, ← hcount, Nat.add_assoc]
  rw [waited, timeCompared_waitedOnce, lowTime_waitedOnce, hcount]
  simp only [waited, waitedOnce, Bank.write_write, htime]

end Registers

theorem FixedInstr.exec_cmplw (r : Registers) :
    (compare false 0 3 (.reg 4)).exec r = { r with cr := r.timeCompared (r.gpr.read 3) } := rfl

namespace Interpreter

variable {i : Interpreter} {l : Nat} {r : Registers} {ram : Ram}

/-- A round of the loop ends at the head of the loop if the time has not come, or behind the
branch. -/
theorem Visits.waitedOnce (hlimit : i.limit = 0) (hcode : ram.HoldsCode waitingLoop r.pc)
    (hpc : r.pc.setWidth 2 = 0#2) (h : i.Visits l ⟨r, ram⟩) :
    i.Visits (l + 3)
      ⟨r.waitedOnce (if r.lowTime 0 < r.gpr.read 4 then r.pc else r.pc + 4 + 4 + 4), ram⟩ := by
  obtain ⟨hread, hcompare, hbranch, -⟩ := hcode
  have htimed : i.Visits (l + 1) ⟨{ r with
      gpr := r.gpr.write 3 (r.lowTime 0)
      pc := r.pc + 4
      npc := r.pc + 4
      tb := r.tb + 1 }, ram⟩ := by
    have hi : Instr.ofWord 0x7C6C42E6#32 = .ok (.system (.fromTimeBase 3 false)) := rfl
    rw [r.lowTime_zero]
    exact h.executes hlimit hpc hread hi rfl
  have hcompared : i.Visits (l + 2) ⟨{ r with
      gpr := r.gpr.write 3 (r.lowTime 0)
      cr := r.timeCompared (r.lowTime 0)
      pc := r.pc + 4 + 4
      npc := r.pc + 4 + 4
      tb := r.tb + 1 + 1 }, ram⟩ := by
    have hi : Instr.ofWord 0x7C032040#32 = .ok (.fixed (.compare false 0 3 (.reg 4))) := rfl
    have hdone := htimed.executes hlimit (setWidth_next hpc) hcompare hi
      (congrArg (Machine.done _) (FixedInstr.exec_cmplw _))
    have hother : (r.gpr.write 3 (r.lowTime 0)).read 4 = r.gpr.read 4 :=
      Bank.read_write_of_ne _ _ (by decide)
    simp only [Registers.timeCompared, Bank.read_write_self, hother] at hdone
    exact hdone
  have hi : Instr.ofWord 0x4180FFF8#32 =
    .ok (.branch (.conditional 12 0 (.relative 0xFFFFFFF8#32) false)) := rfl
  have hbranched := hcompared.executes hlimit (setWidth_next (setWidth_next hpc)) hbranch hi
    (congrArg (Machine.done _) (BranchInstr.exec_blt _ _))
  have hback : r.pc + 4 + 4 + 0xFFFFFFF8#32 = r.pc := by
    rw [BitVec.add_assoc, BitVec.add_assoc]
    exact BitVec.add_zero r.pc
  have htime : r.tb + 1 + 1 + 1 = r.tb + 3#64 := by
    rw [BitVec.add_assoc, BitVec.add_assoc]
    rfl
  simp only [Registers.destination, hback, htime, Registers.getMsbD_timeCompared,
    decide_eq_true_eq] at hbranched
  exact hbranched

/-- From the head of the loop with `j` rounds before the time has come, the run ends with the
return. -/
theorem Visits.waited (hlimit : i.limit = 0) {j : Nat} (hcode : ram.HoldsCode waitingLoop r.pc)
    (hpc : r.pc.setWidth 2 = 0#2) (hlr : r.lr = returnSentinel)
    (hbefore : ∀ n < j, r.lowTime (3 * n) < r.gpr.read 4)
    (hcome : r.gpr.read 4 ≤ r.lowTime (3 * j)) (h : i.Visits l ⟨r, ram⟩) :
    i.Ends (l + (3 * j + 4)) ⟨r.waited j, ram⟩ .completed := by
  have hround := h.waitedOnce hlimit hcode hpc
  induction j generalizing l r with
  | zero =>
      rw [if_neg (BitVec.not_lt.2 hcome)] at hround
      have hreturn := hround.returns hlimit (setWidth_next (setWidth_next (setWidth_next hpc)))
        hcode.2.2.2.1 hlr
      rw [Registers.waited_zero] at hreturn
      exact hreturn
  | succ j ih =>
      rw [if_pos (hbefore 0 (Nat.succ_pos j))] at hround
      have hother : (r.waitedOnce r.pc).gpr.read 4 = r.gpr.read 4 :=
        Bank.read_write_of_ne _ _ (by decide)
      have hlater (n : Nat) : (r.waitedOnce r.pc).lowTime (3 * n) = r.lowTime (3 * (n + 1)) := by
        rw [Registers.lowTime_waitedOnce, Nat.mul_succ, Nat.add_comm]
      have hrest (n : Nat) (hn : n < j) :
          (r.waitedOnce r.pc).lowTime (3 * n) < (r.waitedOnce r.pc).gpr.read 4 := by
        rw [hlater, hother]
        exact hbefore (n + 1) (Nat.succ_lt_succ hn)
      have hend := ih (r := r.waitedOnce r.pc) hcode hpc hlr hrest
        (by rwa [hlater, hother]) hround (hround.waitedOnce hlimit hcode hpc)
      have hcount : l + 3 + (3 * j + 4) = l + (3 * (j + 1) + 4) := by omega
      rw [Registers.waited_waitedOnce, hcount] at hend
      exact hend

end Interpreter

/-- **A loop that waits for a time ends**, for every time base and every time in r4, also if its
rounds step over the times that it waits for and the low word wraps before it meets one. It ends
after the first round that reads a time not before the one in r4, and leaves that time in r3. -/
theorem waiting_loop_ends (i : Interpreter) (hlimit : i.limit = 0)
    (hpc : i.regs.pc.setWidth 2 = 0#2) (hcode : i.ram.HoldsCode waitingLoop i.regs.pc)
    (hlr : i.regs.lr = returnSentinel) :
    ∃ j, i.regs.gpr.read 4 ≤ i.regs.lowTime (3 * j) ∧
      (∀ n < j, i.regs.lowTime (3 * n) < i.regs.gpr.read 4) ∧
      3 * j + 4 < Interpreter.ample ∧
      ∀ fuel > 3 * j + 4,
        i.run fuel = some (i.ended (3 * j + 4) ⟨i.regs.waited j, i.ram⟩ .completed, .completed) := by
  obtain ⟨n, hn, htime⟩ := i.regs.exists_le_lowTime (i.regs.gpr.read 4)
  have hexists : ∃ j, i.regs.gpr.read 4 ≤ i.regs.lowTime (3 * j) := ⟨n, htime⟩
  have hcome := Nat.find_spec hexists
  have hbefore (m : Nat) (hm : m < Nat.find hexists) :
      i.regs.lowTime (3 * m) < i.regs.gpr.read 4 := BitVec.not_le.1 (Nat.find_min hexists hm)
  have hsmall : Nat.find hexists ≤ n := Nat.find_min' hexists htime
  refine ⟨Nat.find hexists, hcome, hbefore, ?short, ?ends⟩
  case short =>
    show 3 * Nat.find hexists + 4 < 2 ^ 64
    omega
  case ends =>
    intro fuel hfuel
    have hend := Interpreter.Visits.waited (r := i.regs) hlimit hcode hpc hlr hbefore hcome .start
    rw [Nat.zero_add] at hend
    exact hend.run_eq hfuel

/-- The first time that is read is one before the last that a word holds, and this is the time that
is waited for. The loop passes it by and meets it when the low word has wrapped twice. -/
theorem waiting_loop_ends_wrapping :
    let ram : Ram := .ofBytes ⟨#[0x7C, 0x6C, 0x42, 0xE6, 0x7C, 3, 0x20, 0x40,
      0x41, 0x80, 0xFF, 0xF8, 0x4E, 0x80, 0, 0x20]⟩
    let regs := { Registers.initial with
      pc := 0x80000000#32, lr := returnSentinel, tb := 0xFFFFFFFE#64,
      gpr := Registers.initial.gpr.write 4 0xFFFFFFFF#32 }
    let i := (Interpreter.initial ram 0).setRegs regs
    ∃ j, i.run Interpreter.ample = some (j, .completed) ∧ j.executed = 8589934597 ∧
      j.regs.gpr.read 3 = 0xFFFFFFFF#32 := by
  intro ram regs i
  have hcode : i.ram.HoldsCode waitingLoop i.regs.pc := by decide
  obtain ⟨j, hcome, hbefore, hample, hrun⟩ :=
    waiting_loop_ends i rfl (by decide) hcode rfl
  have hlast : i.regs.gpr.read 4 = 0xFFFFFFFF#32 := Bank.read_write_self ..
  have htime (n : Nat) : (i.regs.lowTime n).toNat = (4294967294 + n) % 2 ^ 32 :=
    i.regs.toNat_lowTime n
  have hmeets : (4294967294 + 3 * j) % 2 ^ 32 = 4294967295 := by
    have hmax : 4294967295 ≤ (4294967294 + 3 * j) % 2 ^ 32 := by
      rwa [hlast, BitVec.le_def, htime] at hcome
    exact Nat.le_antisymm (Nat.le_of_lt_succ (Nat.mod_lt _ (by decide))) hmax
  have hfirst : j ≤ 2863311531 := by
    refine Nat.le_of_not_lt fun hlater => ?_
    have hearly := hbefore 2863311531 hlater
    rw [hlast, BitVec.lt_def, htime] at hearly
    exact absurd hearly (by decide)
  have hsmall : j < 2 ^ 32 := Nat.lt_of_le_of_lt hfirst (by decide)
  have hj := (steps_of_three_iff 0xFFFFFFFE#32 0xFFFFFFFF#32 j).1 hmeets
  rw [Nat.mod_eq_of_lt hsmall] at hj
  subst hj
  refine ⟨_, hrun _ hample, rfl, ?_⟩
  show (i.regs.gpr.write 3 (i.regs.lowTime (3 * 2863311531))).read 3 = 0xFFFFFFFF#32
  rw [Bank.read_write_self]
  decide

end Broadway
