import Broadway.Proofs.Fault.Atomic

/-!
# The order of failures

A memory instruction looks at its form, its alignment and its memory in this order. It fails with
the first of what its registers forbid, an alignment fault at its effective address
(`MemoryInstr.stopped?`), and a data storage fault at the address of the first of its elements that
memory does not hold (`Ram.missing?`); one equation says so of all of them
(`MemoryInstr.failure_exec`).
-/

namespace Broadway

/-- The error of what has failed. -/
def error? {ε α : Type} : Except ε α → Option ε
  | .error e => some e
  | .ok _ => none

namespace Ram

/-- The address of the first element of a transfer that memory does not hold, if there is one. -/
def missing? (ram : Ram) (es : List (Word × Nat)) : Option Word :=
  (es.find? fun e => ¬ ram.Holds e.1 e.2).map Prod.fst

/-- The fault of a transfer. -/
def transferFault (ram : Ram) (es : List (Word × Nat)) : Option Failure :=
  (ram.missing? es).map (.fault .dsi)

variable {ram ram' : Ram} {e : Word × Nat} {es : List (Word × Nat)}

@[simp]
theorem transferFault_nil : ram.transferFault [] = none := rfl

theorem missing?_cons :
    ram.missing? (e :: es) = if ram.Holds e.1 e.2 then ram.missing? es else some e.1 := by
  unfold missing?
  by_cases h : ram.Holds e.1 e.2
  · rw [if_pos h, List.find?_cons_of_neg (by simpa using h)]
  · rw [if_neg h, List.find?_cons_of_pos (by simpa using h), Option.map_some]

theorem missing?_eq_some_iff {a : Word} :
    ram.missing? es = some a ↔
      ∃ done e rest, es = done ++ e :: rest ∧ (∀ x ∈ done, ram.Holds x.1 x.2) ∧
        ¬ ram.Holds e.1 e.2 ∧ a = e.1 := by
  unfold missing?
  rw [Option.map_eq_some_iff]
  constructor
  · rintro ⟨e, hfind, rfl⟩
    obtain ⟨hmissing, done, rest, hes, hheld⟩ := List.find?_eq_some_iff_append.1 hfind
    refine ⟨done, e, rest, hes, ?_, by simpa using hmissing, rfl⟩
    intro x hx
    simpa using hheld x hx
  · rintro ⟨done, e, rest, hes, hheld, hmissing, rfl⟩
    refine ⟨e, List.find?_eq_some_iff_append.2 ⟨by simpa using hmissing, done, rest, hes, ?_⟩, rfl⟩
    intro x hx
    simpa using hheld x hx

theorem transferFault_cons :
    ram.transferFault (e :: es) =
      if ram.Holds e.1 e.2 then ram.transferFault es else some (.fault .dsi e.1) := by
  unfold transferFault
  rw [missing?_cons]
  split <;> rfl

theorem transferFault_congr (hsize : ram'.size = ram.size)
    (hcon : ram'.connected = ram.connected) : ram'.transferFault es = ram.transferFault es := by
  unfold transferFault missing?
  simp only [holds_congr hsize hcon]

theorem transferFault_eq_some_iff {f : Failure} :
    ram.transferFault es = some f ↔ ∃ a, ram.missing? es = some a ∧ f = .fault .dsi a := by
  unfold transferFault
  rw [Option.map_eq_some_iff]
  simp only [eq_comm]

end Ram

/-! ## Memory instructions -/

namespace Storing

theorem failure_writeAll (ram : Ram) (es : List (Word × List Byte)) :
    (writeAll ram es).1.map Failure.ofMemory =
      ram.transferFault (es.map fun e => (e.1, e.2.length)) := by
  induction es generalizing ram with
  | nil => rfl
  | cons e rest ih =>
      rw [writeAll_cons, List.map_cons, Ram.transferFault_cons]
      by_cases h : ram.Holds e.1 e.2.length
      · rw [if_pos h, if_pos h, ih]
        exact Ram.transferFault_congr (Ram.size_put ..) (Ram.connected_put ..)
      · rw [if_neg h, if_neg h]
        show some (Failure.ofMemory _) = _
        rw [Failure.ofMemory, Ram.address_outside]

/-- A storing instruction fails at the first of its elements that memory does not hold. -/
theorem failure_exec (s : Storing) (m : Machine) :
    (s.exec m).failure = m.ram.transferFault (s.elements.map fun e => (e.1, e.2.length)) := by
  rw [← failure_writeAll]
  rcases hw : writeAll m.ram s.elements with ⟨_ | err, ram⟩
  · rw [exec_of_written hw]
    rfl
  · rw [exec_of_refused hw]
    rfl

end Storing

namespace Loading

theorem failure_words (ram : Ram) (n : Nat) (rd : Reg) (a : Word) (r : Registers) :
    (words ram n rd a r).1 =
      ram.transferFault ((List.range n).map fun i => (a + BitVec.ofNat 32 (4 * i), 4)) := by
  induction n generalizing rd a r with
  | zero => rfl
  | succ n ih =>
      -- the rest of the row starts one word on
      have hrest : (List.range (n + 1)).map (fun i => (a + BitVec.ofNat 32 (4 * i), 4)) =
          (a, 4) :: (List.range n).map fun i => (a + 4 + BitVec.ofNat 32 (4 * i), 4) := by
        rw [List.range_succ_eq_map, List.map_cons, List.map_map]
        congr 1
        · simp
        · refine List.map_congr_left fun i _ => ?_
          simp only [Function.comp_apply, Prod.mk.injEq, and_true]
          bv_omega
      rw [hrest, Ram.transferFault_cons, words, element_eq]
      by_cases h : ram.Holds a 4
      · rw [if_pos h, if_pos h]
        exact ih ..
      · rw [if_neg h, if_neg h]

theorem failure_bytes (ram : Ram) (rd : Reg) (ea : Word) (n i : Nat) (r : Registers) :
    (bytes ram rd ea n i r).1 =
      ram.transferFault ((List.range n).map fun j => (ea + BitVec.ofNat 32 (i + j), 1)) := by
  induction n generalizing i r with
  | zero => rfl
  | succ n ih =>
      have hrest : (List.range (n + 1)).map (fun j => (ea + BitVec.ofNat 32 (i + j), 1)) =
          (ea + BitVec.ofNat 32 i, 1) ::
            (List.range n).map fun j => (ea + BitVec.ofNat 32 (i + 1 + j), 1) := by
        rw [List.range_succ_eq_map, List.map_cons, List.map_map]
        congr 1
        refine List.map_congr_left fun j _ => ?_
        show (ea + BitVec.ofNat 32 (i + (j + 1)), 1) = _
        rw [show i + (j + 1) = i + 1 + j by omega]
      rw [hrest, Ram.transferFault_cons, bytes]
      simp only
      generalize (if i % 4 = 0 then _ else r) = r'
      rw [element_eq]
      by_cases h : ram.Holds (ea + BitVec.ofNat 32 i) 1
      · rw [if_pos h, if_pos h]
        exact ih ..
      · rw [if_neg h, if_neg h]

theorem failure_quantized {frt : Reg} {address : Address} {one : Bool} {gqr : BitVec 3}
    {update : Bool} {m : Machine} {q : Quantizer}
    (hq : Quantizer.forLoad (m.regs.gqr.read gqr) = .ok q) :
    (quantized frt address one gqr update m).failure =
      m.ram.transferFault (Quantizer.elements (.ok q) (m.regs.effective address) one) := by
  simp only [quantized, hq, quantizedLanes, element_eq, Quantizer.elements]
  by_cases hfirst : m.ram.Holds (m.regs.effective address) q.type.size
  · cases one with
    | true => simp [hfirst, Ram.transferFault_cons]
    | false =>
        by_cases hsecond :
            m.ram.Holds (m.regs.effective address + BitVec.ofNat 32 q.type.size) q.type.size
        · simp [hfirst, hsecond, Ram.transferFault_cons]
        · simp [hfirst, hsecond, Ram.transferFault_cons]
  · cases one <;> simp [hfirst, Ram.transferFault_cons]

end Loading

namespace MemoryInstr

/-- Where an instruction finds its effective address. -/
def address : MemoryInstr → Address
  | .load _ _ address _ | .store _ _ address _ => address
  | .loadMultiple _ address | .storeMultiple _ address => address
  | .loadString _ address _ | .storeString _ address _ => address
  | .loadReserve _ address | .storeConditional _ address => address
  | .loadQuantized _ address _ _ _ | .storeQuantized _ address _ _ _ => address
  | .clearBlock address => address

/-- Whether the effective address must be a multiple of four. -/
def mustAlign : MemoryInstr → Bool
  | .load kind .. => kind.aligned
  | .store kind .. => kind.aligned
  | .loadMultiple .. | .storeMultiple .. | .loadReserve .. | .storeConditional .. => true
  | _ => false

/-- Why registers forbid an instruction, if they do: a string load would overwrite a register of its
address, or a quantization type is reserved. -/
def refusal? (i : MemoryInstr) (r : Registers) : Option Invalid :=
  match i with
  | .loadString rd address count =>
    (address.registers.find? (Loading.covers rd (r.stringCount count))).map
      (.stringOverSource (Loading.stringMnemonic count) · rd)
  | .loadQuantized _ _ _ gqr _ => error? (Quantizer.forLoad (r.gqr.read gqr))
  | .storeQuantized _ _ _ gqr _ => error? (Quantizer.forStore (r.gqr.read gqr))
  | _ => none

/-- What stops an instruction before it reaches memory: its registers forbid it, or its address is
not aligned. -/
def stopped? (i : MemoryInstr) (r : Registers) : Option Failure :=
  ((i.refusal? r).map .invalid).or (alignmentFault i.mustAlign (r.effective i.address))

variable {i : MemoryInstr} {m : Machine}

/-- What a storing instruction has worked out is an error exactly if something stops it. -/
theorem stopped?_of_storing {r : Registers} {s : Except Failure Storing}
    (hs : i.storing? r = some s) : i.stopped? r = error? s := by
  cases i with
  | store kind rs address update =>
      cases hs
      simp only [Storing.single, stopped?, refusal?, mustAlign, MemoryInstr.address,
        Option.map_none, Option.none_or]
      cases alignmentFault kind.aligned (r.effective address) <;> rfl
  | storeMultiple rs address =>
      cases hs
      simp only [Storing.multiple, stopped?, refusal?, mustAlign, MemoryInstr.address,
        Option.map_none, Option.none_or]
      cases alignmentFault true (r.effective address) <;> rfl
  | storeConditional rs address =>
      cases hs
      simp only [Storing.conditional, stopped?, refusal?, mustAlign, MemoryInstr.address,
        Option.map_none, Option.none_or]
      cases alignmentFault true (r.effective address) <;> rfl
  | storeQuantized frs address one gqr update =>
      cases hs
      simp only [Storing.quantized, stopped?, refusal?]
      cases Quantizer.forStore (r.gqr.read gqr) <;> rfl
  | storeString | clearBlock =>
      cases hs
      rfl
  | _ => contradiction

theorem failure_of_storing {s : Except Failure Storing} (hs : i.storing? m.regs = some s) :
    (i.exec m).failure = (i.stopped? m.regs).or (m.ram.transferFault (i.elements m.regs)) := by
  rw [exec_of_storing hs, stopped?_of_storing hs]
  cases s with
  | error f => rfl
  | ok s =>
      rw [← elements_of_storing hs]
      exact Storing.failure_exec s m

theorem failure_of_loading (hs : i.storing? m.regs = none) :
    (i.exec m).failure = (i.stopped? m.regs).or (m.ram.transferFault (i.elements m.regs)) := by
  cases i with
  | load kind rt address update =>
      simp only [exec, Loading.single, stopped?, refusal?, mustAlign, MemoryInstr.address, elements,
        Option.map_none, Option.none_or, Loading.element_eq, Ram.transferFault_cons]
      cases alignmentFault kind.aligned (m.regs.effective address) with
      | some f => rfl
      | none => by_cases h : m.ram.Holds (m.regs.effective address) kind.size <;> simp [h]
  | loadReserve rd address =>
      simp only [exec, Loading.reserving, stopped?, refusal?, mustAlign, MemoryInstr.address,
        elements, Option.map_none, Option.none_or, Loading.element_eq, Ram.transferFault_cons]
      cases alignmentFault true (m.regs.effective address) with
      | some f => rfl
      | none => by_cases h : m.ram.Holds (m.regs.effective address) 4 <;> simp [h]
  | loadMultiple rd address =>
      simp only [exec, Loading.multiple, stopped?, refusal?, mustAlign, MemoryInstr.address,
        elements, Option.map_none, Option.none_or, Loading.failure_words]
      cases alignmentFault true (m.regs.effective address) <;> rfl
  | loadString rd address count =>
      simp only [exec, Loading.string, stopped?, refusal?, mustAlign, elements,
        Loading.failure_bytes, Nat.zero_add]
      cases address.registers.find? (Loading.covers rd (m.regs.stringCount count)) <;> rfl
  | loadQuantized frt address one gqr update =>
      simp only [exec, stopped?, refusal?, mustAlign, elements]
      cases hq : Quantizer.forLoad (m.regs.gqr.read gqr) with
      | error e => simp [Loading.quantized, hq, error?]
      | ok q => exact Loading.failure_quantized hq
  | _ => contradiction

/-- An instruction fails with what stops it, and otherwise at the first of its elements that memory
does not hold. -/
theorem failure_exec (i : MemoryInstr) (m : Machine) :
    (i.exec m).failure = (i.stopped? m.regs).or (m.ram.transferFault (i.elements m.regs)) := by
  cases hs : i.storing? m.regs with
  | some s => exact failure_of_storing hs
  | none => exact failure_of_loading hs

/-- What must be aligned is forbidden by no register. -/
theorem refusal?_of_mustAlign (h : i.mustAlign = true) (r : Registers) : i.refusal? r = none := by
  cases i with
  | loadString | loadQuantized | storeQuantized => contradiction
  | _ => rfl

theorem stopped?_eq_none_iff {r : Registers} :
    i.stopped? r = none ↔
      i.refusal? r = none ∧ (i.mustAlign = true → 4 ∣ (r.effective i.address).toNat) := by
  rw [stopped?, alignmentFault_eq, Option.or_eq_none_iff, Option.map_eq_none_iff]
  simp

theorem stopped?_eq_fault_iff {r : Registers} {cause : Cause} {a : Word} :
    i.stopped? r = some (.fault cause a) ↔
      cause = .alignment ∧ i.mustAlign = true ∧ a = r.effective i.address ∧ ¬ 4 ∣ a.toNat := by
  rw [stopped?, alignmentFault_eq]
  cases hrefuse : i.refusal? r with
  | some e =>
      have hfree : i.mustAlign = false := by
        refine Bool.eq_false_iff.2 fun h => ?_
        rw [refusal?_of_mustAlign h] at hrefuse
        contradiction
      simp [hfree]
  | none =>
      simp only [Option.map_none, Option.none_or, Option.ite_none_right_eq_some, Option.some_inj,
        Failure.fault.injEq]
      constructor
      · rintro ⟨⟨hmust, hodd⟩, rfl, rfl⟩
        exact ⟨rfl, hmust, rfl, hodd⟩
      · rintro ⟨rfl, hmust, rfl, hodd⟩
        exact ⟨⟨hmust, hodd⟩, rfl, rfl⟩

/-- A fault is one of alignment at the effective address, or one of memory at the first element that
memory does not hold. -/
theorem fault_iff {cause : Cause} {a : Word} :
    (i.exec m).failure = some (.fault cause a) ↔
      (cause = .alignment ∧ i.mustAlign = true ∧ a = m.regs.effective i.address ∧ ¬ 4 ∣ a.toNat) ∨
      (cause = .dsi ∧ i.stopped? m.regs = none ∧ m.ram.missing? (i.elements m.regs) = some a) := by
  rw [failure_exec, Option.or_eq_some_iff, stopped?_eq_fault_iff, Ram.transferFault_eq_some_iff]
  simp only [Failure.fault.injEq]
  constructor
  · rintro (hodd | ⟨hgo, a, hmissing, rfl, rfl⟩)
    · exact .inl hodd
    · exact .inr ⟨rfl, hgo, hmissing⟩
  · rintro (hodd | ⟨rfl, hgo, hmissing⟩)
    · exact .inl hodd
    · exact .inr ⟨hgo, a, hmissing, rfl, rfl⟩

end MemoryInstr

end Broadway
