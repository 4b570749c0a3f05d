import Mathlib.Data.Nat.Digits.Defs
import Broadway.Proofs.Exec.Results

/-!
# Carry chains

Numbers longer than a word are added and subtracted word by word from the least significant one
on: the first instruction sets the carry without looking at it, and each following one takes it in
and hands on its own. `Machine.Chained` follows such a chain through its links. Between two of them
anything but the carry may change, so the operands may be loaded and the results stored on the way.

A link is exact, also where a word of ones meets a carry: its result, with the carry for the place
above, is the sum of its operands and the carry that came in (`Machine.link_exact`). By induction so
is a chain of any length (`Machine.Chained.sum_eq`), and sums and differences of numbers of any
length come out right (`carry_chains_exact`).
-/

namespace Broadway

open Opcode

/-! ## Numbers of several words -/

namespace Words

/-- The number that some words denote, least significant word first. -/
def number (ws : List Word) : Nat := Nat.ofDigits (2 ^ 32) (ws.map BitVec.toNat)

@[simp]
theorem number_nil : number [] = 0 := rfl

@[simp]
theorem number_cons (w : Word) (ws : List Word) :
    number (w :: ws) = w.toNat + 2 ^ 32 * number ws := by
  simp [number, Nat.ofDigits_cons]

theorem number_lt (ws : List Word) : number ws < 2 ^ (32 * ws.length) := by
  have hword : ∀ d ∈ ws.map BitVec.toNat, d < 2 ^ 32 := by
    intro d hd
    obtain ⟨w, -, rfl⟩ := List.mem_map.1 hd
    exact w.isLt
  have hlt := Nat.ofDigits_lt_base_pow_length (by decide : 1 < 2 ^ 32) hword
  rw [List.length_map, ← Nat.pow_mul] at hlt
  exact hlt

/-- The complements of all words make the number up to the largest one. -/
theorem number_complement (ws : List Word) :
    number (ws.map (~~~·)) + number ws + 1 = 2 ^ (32 * ws.length) := by
  induction ws with
  | nil => rfl
  | cons w ws ih =>
    have hnot : (~~~w).toNat = 2 ^ 32 - 1 - w.toNat := BitVec.toNat_not
    have hw := w.isLt
    have hpow : 2 ^ (32 * (ws.length + 1)) = 2 ^ 32 * 2 ^ (32 * ws.length) := by
      rw [Nat.mul_succ, Nat.add_comm, Nat.pow_add]
    rw [List.map_cons, number_cons, number_cons, List.length_cons, hpow, ← ih, hnot]
    omega

/-- A place in front of a sum of numbers: the carry that it hands on is the one that the places
above take in. -/
theorem sum_cons {a b z : Word} {as bs zs : List Word} {n : Nat} {c c₁ c' : Bool}
    (hplace : z.toNat + 2 ^ 32 * c₁.toNat = a.toNat + b.toNat + c.toNat)
    (habove : number zs + 2 ^ (32 * n) * c'.toNat = number as + number bs + c₁.toNat) :
    number (z :: zs) + 2 ^ (32 * (n + 1)) * c'.toNat =
      number (a :: as) + number (b :: bs) + c.toNat := by
  have hpow : 2 ^ (32 * (n + 1)) = 2 ^ 32 * 2 ^ (32 * n) := by
    rw [Nat.mul_succ, Nat.add_comm, Nat.pow_add]
  rw [number_cons, number_cons, number_cons, hpow, Nat.mul_assoc]
  omega

/-- What is left of a sum when its carry is taken off. -/
theorem eq_mod_of_sum {z s n : Nat} {c : Bool} (hz : z < 2 ^ n) (h : z + 2 ^ n * c.toNat = s) :
    z = s % 2 ^ n ∧ (c = true ↔ 2 ^ n ≤ s) := by
  constructor
  · rw [← h, Nat.add_mul_mod_self_left, Nat.mod_eq_of_lt hz]
  · cases c with
    | false =>
      simp only [Bool.toNat_false] at h
      simp only [Bool.false_eq_true, false_iff]
      omega
    | true =>
      simp only [Bool.toNat_true] at h
      simp only [true_iff]
      omega

/-- A sum with the complement of `x` is the difference, and its carry says that nothing is
borrowed. -/
theorem eq_emod_of_difference {x y z n : Nat} {c : Bool} (hz : z < 2 ^ n)
    (h : z + 2 ^ n * c.toNat + x = 2 ^ n + y) :
    (z : Int) = ((y : Int) - x) % 2 ^ n ∧ (c = true ↔ x ≤ y) := by
  constructor
  · have hdifference : (y : Int) - x = z + 2 ^ n * ((c.toNat : Int) - 1) := by
      have hcast : (z : Int) + 2 ^ n * c.toNat + x = 2 ^ n + y := by exact_mod_cast h
      rw [Int.mul_sub, Int.mul_one]
      omega
    have hlt : (z : Int) < 2 ^ n := by exact_mod_cast hz
    rw [hdifference, Int.add_mul_emod_self_left, Int.emod_eq_of_lt (Int.natCast_nonneg z) hlt]
  · have hsum : z + 2 ^ n * c.toNat = 2 ^ n + y - x := by omega
    have hcarry := (eq_mod_of_sum hz hsum).2
    rw [hcarry]
    omega

end Words

open Words (number)

/-! ## Links -/

/-- What a word of a chain works on: the words of rA and rB, and the word that it leaves in rD. -/
structure Digit where
  a : Word
  b : Word
  result : Word

namespace Machine

/-- What a word works on that is executed now. -/
def digit (m : Machine) (w : Word) : Digit where
  a := m.regs.gpr.read (Field.ra w)
  b := m.regs.gpr.read (Field.rb w)
  result := (m.execute w).machine.regs.gpr.read (Field.rt w)

/-- The links of a chain: words with some opcode, executed one after another. Between two of them
anything but the carry may change. -/
inductive Chained (op : FixedArith) : Machine → List Digit → Machine → Prop
  | done (m : Machine) : Chained op m [] m
  | between {m m₁ m' : Machine} {ds : List Digit} (hcarry : m₁.regs.carry = m.regs.carry)
      (h : Chained op m₁ ds m') : Chained op m ds m'
  | link {m m' : Machine} {ds : List Digit} {w : Word} (hw : op.Selects w)
      (h : Chained op (m.execute w).machine ds m') : Chained op m (m.digit w :: ds) m'

/-- A chain from its beginning: the first word has an opcode of its own. -/
inductive ChainedFrom (first next : FixedArith) (m : Machine) : List Digit → Machine → Prop
  | first {m' : Machine} {ds : List Digit} {w : Word} (hw : first.Selects w)
      (h : Chained next (m.execute w).machine ds m') : ChainedFrom first next m (m.digit w :: ds) m'

variable {m m' : Machine} {w : Word} {ds : List Digit}

/-- A link hands on what its result has no room for. `a` is what it adds to the word of rB, and `c`
the carry that it works with. -/
theorem link_exact {op : FixedArith} {a : Word} {c : Bool} (hw : op.Selects w)
    (heval : Arith.eval op (m.digit w).a (m.digit w).b m.regs.carry =
      Arith.sum true a (m.digit w).b c) :
    (m.digit w).result.toNat + 2 ^ 32 * (m.execute w).machine.regs.carry.toNat =
      a.toNat + (m.digit w).b.toNat + c.toNat := by
  have hreceives := (m.receives_of_arith hw).registers
  have hresult := hreceives.result
  have hcarry := hreceives.carry
  -- the operands of the digit are those of the instruction
  simp only [digit] at heval ⊢
  rw [heval] at hresult hcarry
  rw [hresult, hcarry]
  exact Arith.toNat_addWithCarry a (m.regs.gpr.read (Field.rb w)) c

/-- A chain of any length keeps the balance that its links keep, by induction on the links: what one
of them hands on is what the next one takes in, since nothing in between touches it. -/
theorem Chained.sum_eq {op : FixedArith} (addend : Word → Word)
    (hop : ∀ a b c, Arith.eval op a b c = Arith.sum true (addend a) b c) (h : m.Chained op ds m') :
    number (ds.map (·.result)) + 2 ^ (32 * ds.length) * m'.regs.carry.toNat =
      number (ds.map fun d => addend d.a) + number (ds.map (·.b)) + m.regs.carry.toNat := by
  induction h with
  | done m => simp
  | between hcarry h ih =>
    rw [ih, hcarry]
  | @link m m' ds w hw h ih =>
    have hlink := link_exact hw (hop (m.digit w).a (m.digit w).b m.regs.carry)
    exact Words.sum_cons hlink ih

/-- The same from the beginning of a chain, where no carry is taken in. -/
theorem ChainedFrom.sum_eq {first next : FixedArith} (addend : Word → Word) (c : Bool)
    (hfirst : ∀ a b c', Arith.eval first a b c' = Arith.sum true (addend a) b c)
    (hnext : ∀ a b c', Arith.eval next a b c' = Arith.sum true (addend a) b c')
    (h : m.ChainedFrom first next ds m') :
    number (ds.map (·.result)) + 2 ^ (32 * ds.length) * m'.regs.carry.toNat =
      number (ds.map fun d => addend d.a) + number (ds.map (·.b)) + c.toNat := by
  cases h with
  | @first m' ds w hw h =>
    have hlink := link_exact hw (hfirst (m.digit w).a (m.digit w).b m.regs.carry)
    exact Words.sum_cons hlink (h.sum_eq addend hnext)

end Machine

/-! ## Sums and differences -/

namespace Machine

variable {m m' : Machine} {ds : List Digit}

theorem ChainedFrom.sum (h : m.ChainedFrom .addc .adde ds m') :
    number (ds.map (·.result)) + 2 ^ (32 * ds.length) * m'.regs.carry.toNat =
      number (ds.map (·.a)) + number (ds.map (·.b)) :=
  h.sum_eq id false (fun _ _ _ => rfl) (fun _ _ _ => rfl)

theorem ChainedFrom.difference (h : m.ChainedFrom .subfc .subfe ds m') :
    number (ds.map (·.result)) + 2 ^ (32 * ds.length) * m'.regs.carry.toNat +
      number (ds.map (·.a)) = 2 ^ (32 * ds.length) + number (ds.map (·.b)) := by
  have hsum := h.sum_eq (~~~·) true (fun _ _ _ => rfl) (fun _ _ _ => rfl)
  have hcomplement := Words.number_complement (ds.map (·.a))
  rw [List.map_map, List.length_map] at hcomplement
  simp only [Function.comp_def, Bool.toNat_true] at hsum hcomplement
  omega

end Machine

/-- **Carry chains compute with numbers of any length**, for every state and every chain.

* `addc` on the lowest words and `adde` on all others leave the sum of the two numbers, as far as
  there are words for it, and the carry tells whether there are not enough.
* `subfc` and `subfe` in the same way leave the difference, and the carry tells that there has been
  no borrow.
* No link fails, and between two links there may be any instruction that is not one of those that
  leave a carry and does not replace XER or take its status bits. -/
theorem carry_chains_exact (m : Machine) :
    (∀ ds m', m.ChainedFrom .addc .adde ds m' →
      let n := 32 * ds.length
      let x := number (ds.map (·.a))
      let y := number (ds.map (·.b))
      number (ds.map (·.result)) = (x + y) % 2 ^ n ∧ (m'.regs.carry = true ↔ 2 ^ n ≤ x + y)) ∧
    (∀ ds m', m.ChainedFrom .subfc .subfe ds m' →
      let n := 32 * ds.length
      let x := number (ds.map (·.a))
      let y := number (ds.map (·.b))
      (number (ds.map (·.result)) : Int) = ((y : Int) - x) % 2 ^ n ∧
        (m'.regs.carry = true ↔ x ≤ y)) ∧
    (∀ op ∈ [FixedArith.addc, .adde, .subfc, .subfe], ∀ w, op.Selects w →
      (m.execute w).failure = none) ∧
    ∀ w, ¬ (w.Carries ∨ Fixed.mcrxr.Selects w ∨ Part.Moves w [Spr.xer]) →
      ∀ op ds m', (m.execute w).machine.Chained op ds m' → m.Chained op ds m' := by
  refine ⟨fun ds m' h => ?_, fun ds m' h => ?_, fun op _ w hw => ?_, fun w hw op ds m' h => ?_⟩
  · have hlt := Words.number_lt (ds.map (·.result))
    rw [List.length_map] at hlt
    exact Words.eq_mod_of_sum hlt h.sum
  · have hlt := Words.number_lt (ds.map (·.result))
    rw [List.length_map] at hlt
    exact Words.eq_emod_of_difference hlt h.difference
  · exact (m.receives_of_arith hw).completes
  · have hkeeps : (m.execute w).machine.regs.carry = m.regs.carry :=
      Classical.byContradiction fun hne => hw (Machine.carry_changed hne)
    exact .between hkeeps h

/-- Two words of ones and the number one: `addc r5, r3, r4`, a load of the second word of ones, and
`adde r5, r6, r7`, in which ones meet a carry. The same load stands in the difference, which
borrows. -/
theorem carry_chains_exact_ones :
    let m : Machine := ⟨((Registers.initial.setGpr 3 0xFFFFFFFF#32).setGpr 4 1#32).setGpr 8
      0x80000000#32, .ofBytes ⟨#[0xFF, 0xFF, 0xFF, 0xFF]⟩⟩
    let load (m : Machine) : Machine := (m.execute 0x80C80000#32).machine
    let sum := load (m.execute 0x7CA32014#32).machine
    let difference := load (m.execute 0x7CA32010#32).machine
    let ds := [m.digit 0x7CA32014#32, sum.digit 0x7CA63914#32]
    let es := [m.digit 0x7CA32010#32, difference.digit 0x7CA63910#32]
    m.ChainedFrom .addc .adde ds (sum.execute 0x7CA63914#32).machine ∧
      m.ChainedFrom .subfc .subfe es (difference.execute 0x7CA63910#32).machine ∧
      number (ds.map (·.result)) = 0 ∧ (sum.execute 0x7CA63914#32).machine.regs.carry = true ∧
      number (es.map (·.result)) = 2 ∧
      ¬ (difference.execute 0x7CA63910#32).machine.regs.carry = true := by
  intro m load sum difference ds es
  obtain ⟨hsum, hdifference, -, -⟩ := carry_chains_exact m
  -- the load is none of the words that could touch the carry
  have hload : ¬ (Word.Carries 0x80C80000#32 ∨ Fixed.mcrxr.Selects 0x80C80000#32 ∨
      Part.Moves 0x80C80000#32 [Spr.xer]) := by
    unfold Word.Carries Part.Moves
    decide
  have hadds : m.ChainedFrom .addc .adde ds (sum.execute 0x7CA63914#32).machine := by
    refine .first (by decide) ((carry_chains_exact _).2.2.2 _ hload _ _ _ ?_)
    exact .link (by decide) (.done _)
  have hsubtracts : m.ChainedFrom .subfc .subfe es (difference.execute 0x7CA63910#32).machine := by
    refine .first (by decide) ((carry_chains_exact _).2.2.2 _ hload _ _ _ ?_)
    exact .link (by decide) (.done _)
  have hoperands : number (ds.map (·.a)) = 2 ^ 64 - 1 ∧ number (ds.map (·.b)) = 1 := by
    decide +kernel
  have hoperands' : number (es.map (·.a)) = 2 ^ 64 - 1 ∧ number (es.map (·.b)) = 1 := by
    decide +kernel
  obtain ⟨hresult, hcarry⟩ := hsum ds _ hadds
  obtain ⟨hresult', hcarry'⟩ := hdifference es _ hsubtracts
  have hlength : ds.length = 2 ∧ es.length = 2 := ⟨rfl, rfl⟩
  simp only [hoperands.1, hoperands.2, hlength.1] at hresult hcarry
  simp only [hoperands'.1, hoperands'.2, hlength.2] at hresult' hcarry'
  refine ⟨hadds, hsubtracts, hresult.trans (by decide), hcarry.2 (by decide), ?_, ?_⟩
  · have htwo : (number (es.map (·.result)) : Int) = (2 : Nat) := hresult'.trans (by decide)
    exact Int.ofNat_inj.1 htwo
  · rw [hcarry']
    decide

end Broadway
