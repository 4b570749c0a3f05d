import Broadway.Proofs.Exec.Frame
import Broadway.Proofs.Memory.Window
import Broadway.Proofs.Run.Sentinel

/-!
# Reservations over a whole run

A conditional store writes its word only while its address is reserved. Here that condition on the
registers becomes one on the history: each executed instruction leaves a mark if it made a
reservation or ended one (`Event.mark?`), and the reservation is always the one of the latest mark
(`Follows.reservation_eq`).

* A step: what one instruction does to the reservation (`Event.reservation_after`).
* A history: any words, executed one after another; between two of them anything but the
  reservation may change (`Follows`). The points of a run have such a history
  (`Interpreter.Visits.follows`).
* A conditional store: it fails and changes nothing, writes its word, or declines to
  (`MemoryInstr.storeConditional_cases`). After any history `Event.Disciplined` says which of the
  last two it does, and that no two of them live on one reservation
  (`Follows.disciplined`).
-/

namespace Broadway

/-! ## The conditional store -/

/-- What a conditional store leaves in field zero of the condition register. -/
def Registers.storeFlags (r : Registers) (stored : Bool) : BitVec 4 :=
  (if stored then Condition.eq else 0) ||| if r.summaryOverflow then Condition.so else 0

/-- The registers after a conditional store has completed. -/
def Registers.afterConditional (r : Registers) (stored : Bool) : Registers :=
  { r.setCrField 0 (r.storeFlags stored) with reservation := none }

theorem Storing.conditional_eq (rs : Reg) (address : Address) (r : Registers) :
    conditional rs address r =
      match alignmentFault true (r.effective address) with
      | some f => .error f
      | none =>
        if r.reservation = some (r.effective address) then
          .ok ⟨[(r.effective address, Bytes.ofWord 4 (r.gpr.read rs))], r.afterConditional true⟩
        else .ok ⟨[], r.afterConditional false⟩ := by
  unfold conditional
  simp only
  cases alignmentFault true (r.effective address) with
  | some f => rfl
  | none =>
      by_cases hreserved : r.reservation = some (r.effective address)
      · simp only [if_pos hreserved]
        rfl
      · simp only [if_neg hreserved]
        rfl

/-- A conditional store fails before it changes anything, writes its word to the reserved address,
or leaves memory alone. -/
theorem MemoryInstr.storeConditional_cases (rs : Reg) (address : Address) (m : Machine) :
    (∃ f, (storeConditional rs address).exec m = m.fail f) ∨
    (m.regs.reservation = some (m.regs.effective address) ∧
      ∃ ram, Window.write m.ram 4 (m.regs.effective address) (m.regs.gpr.read rs) = (none, ram) ∧
        (storeConditional rs address).exec m = ⟨⟨m.regs.afterConditional true, ram⟩, none⟩) ∨
    (m.regs.reservation ≠ some (m.regs.effective address) ∧
      (storeConditional rs address).exec m = m.done (m.regs.afterConditional false)) := by
  have hexec : (storeConditional rs address).exec m
      = Storing.exec? (Storing.conditional rs address m.regs) m := rfl
  rw [hexec, Storing.conditional_eq]
  split
  · next f _ => exact .inl ⟨f, rfl⟩
  · split
    · next hreserved =>
      rw [Storing.exec?]
      rcases hw : Window.write m.ram 4 (m.regs.effective address) (m.regs.gpr.read rs) with
        ⟨_ | err, ram⟩
      · right
        left
        have hall := (Storing.writeAll_singleton ..).trans hw
        exact ⟨hreserved, ram, rfl, Storing.exec_of_written hall⟩
      · left
        -- a single write that fails has written nothing
        obtain rfl : m.ram = ram := by
          rw [Window.write_eq] at hw
          split at hw
          · cases hw
          · cases hw
            rfl
        exact ⟨.ofMemory err, Storing.exec_of_refused ((Storing.writeAll_singleton ..).trans hw)⟩
    · next hfree => exact .inr (.inr ⟨hfree, rfl⟩)

/-! ## Marks -/

/-- Whether an instruction makes or ends a reservation. -/
def Instr.concernsReservation : Instr → Bool
  | .memory i => i.concernsReservation
  | .system .returnFromInterrupt => true
  | _ => false

theorem Instr.not_writes_reservation {i : Instr} (h : i.concernsReservation = false) :
    ¬ i.Writes .reservation := by
  cases i with
  | memory i =>
      rintro (⟨hfloats, -⟩ | ⟨-, hconcerns⟩)
      · contradiction
      · exact Bool.noConfusion (h.symm.trans hconcerns)
  | float | paired => exact nofun
  | fixed | condition | trap => exact id
  | branch i => cases i <;> exact nofun
  | system i =>
      cases i with
      | returnFromInterrupt => contradiction
      | toMsr | toSegment => exact nofun
      | call => exact (by decide : Part.reservation ∉ [Part.npc, .msr, .srr0, .srr1])
      | _ => exact id

/-- What an instruction that completes does to the reservation. -/
inductive Mark
  | reserves (address : Word)
  | releases
  deriving DecidableEq

/-- The reservation that a mark leaves. -/
def Mark.reservation : Mark → Option Word
  | .reserves address => some address
  | .releases => none

/-- An instruction word executed on a machine. -/
structure Event where
  before : Machine
  word : Word

namespace Event

def outcome (e : Event) : Outcome := e.before.execute e.word

def after (e : Event) : Machine := e.outcome.machine

def Completes (e : Event) : Prop := e.outcome.failure = none

instance (e : Event) : Decidable e.Completes :=
  inferInstanceAs (Decidable (e.outcome.failure = none))

/-- The mark of an event. Reserving loads, conditional stores and returns from interrupts leave one
if they complete. -/
def mark? (e : Event) : Option Mark :=
  if e.Completes then
    match Instr.ofWord e.word with
    | .ok (.memory (.loadReserve _ address)) => some (.reserves (e.before.regs.effective address))
    | .ok (.memory (.storeConditional ..)) => some .releases
    | .ok (.system .returnFromInterrupt) => some .releases
    | _ => none
  else none

variable {e : Event}

theorem mark?_eq_none {i : Instr} (hi : Instr.ofWord e.word = .ok i)
    (h : i.concernsReservation = false) : e.mark? = none := by
  unfold mark?
  rw [hi]
  split
  · cases i with
    | memory i => cases i <;> first | rfl | contradiction
    | system i => cases i <;> first | rfl | contradiction
    | _ => rfl
  · rfl

theorem reservation_after_memory {i : MemoryInstr} (hi : Instr.ofWord e.word = .ok (.memory i))
    (h : i.concernsReservation = true) :
    e.after.regs.reservation = e.mark?.elim e.before.regs.reservation Mark.reservation := by
  have hout : e.outcome = i.exec e.before := Machine.execute_of_ofWord hi e.before
  cases i with
  | loadReserve rd address =>
      have hexec : e.outcome = Loading.reserving rd address e.before := hout
      rcases Loading.reserving_cases rd address e.before with ⟨f, hfail⟩ | ⟨bytes, -, hdone⟩
      · simp [after, mark?, Completes, hexec, hfail]
      · simp [after, mark?, Completes, hexec, hdone, hi, Mark.reservation]
  | storeConditional rs address =>
      rcases MemoryInstr.storeConditional_cases rs address e.before with
        ⟨f, hfail⟩ | ⟨-, ram, -, hstored⟩ | ⟨-, hdeclined⟩
      · simp [after, mark?, Completes, hout, hfail]
      · simp [after, mark?, Completes, hout, hstored, hi, Mark.reservation,
          Registers.afterConditional]
      · simp [after, mark?, Completes, hout, hdeclined, hi, Mark.reservation,
          Registers.afterConditional]
  | _ => contradiction

/-- The reservation after an instruction is the one of its mark, and without a mark it is kept. -/
theorem reservation_after (e : Event) :
    e.after.regs.reservation = e.mark?.elim e.before.regs.reservation Mark.reservation := by
  cases hi : Instr.ofWord e.word with
  | error err =>
      have hout : e.outcome = e.before.fail (.invalid err) :=
        Machine.execute_of_error hi e.before
      simp [after, mark?, Completes, hout]
  | ok i =>
      have hout : e.outcome = i.exec e.before := Machine.execute_of_ofWord hi e.before
      cases hconcerns : i.concernsReservation with
      | false =>
          have hkeep : e.after.regs.reservation = e.before.regs.reservation := by
            rw [after, hout]
            exact Instr.same_exec (Instr.not_writes_reservation hconcerns) e.before
          rw [hkeep, mark?_eq_none hi hconcerns]
          rfl
      | true =>
          cases i with
          | memory i => exact reservation_after_memory hi hconcerns
          | system i =>
              cases i with
              | returnFromInterrupt =>
                  simp [after, mark?, Completes, hout, hi, Instr.exec, SystemInstr.exec,
                    Mark.reservation]
              | _ => contradiction
          | _ => contradiction

end Event

/-! ## Histories -/

/-- `Follows m₀ past m`: from `m₀` the events of `past` have been executed one after another, the
latest standing first, and have led to `m`. Between two of them anything may change but the
reservation. -/
inductive Follows (m₀ : Machine) : List Event → Machine → Prop
  | start : Follows m₀ [] m₀
  | executed {past : List Event} {e : Event} (h : Follows m₀ past e.before) :
      Follows m₀ (e :: past) e.after
  | between {past : List Event} {m m' : Machine} (h : Follows m₀ past m)
      (hsame : m'.regs.reservation = m.regs.reservation) : Follows m₀ past m'

/-- The mark of the latest event that left one. -/
def latestMark (past : List Event) : Option Mark := past.findSome? Event.mark?

/-- The reservation is the one of the latest mark. -/
theorem Follows.reservation_eq {m₀ m : Machine} {past : List Event} (h : Follows m₀ past m)
    (hstart : m₀.regs.reservation = none) :
    m.regs.reservation = (latestMark past).bind Mark.reservation := by
  induction h with
  | start => exact hstart
  | @executed past e _ ih =>
      rw [e.reservation_after]
      cases hmark : e.mark? with
      | none =>
          rw [latestMark, List.findSome?_cons_of_isNone (by rw [hmark]; rfl)]
          exact ih
      | some mark =>
          rw [latestMark, List.findSome?_cons_of_isSome (by rw [hmark]; rfl), hmark]
          rfl
  | between _ hsame ih => rw [hsame, ih]

/-- The event is the execution of an instruction that a run has fetched at one of its points. -/
def Event.FetchedIn (e : Event) (i : Interpreter) : Prop :=
  ∃ k m, i.Visits k m ∧ Window.read m.ram 4 m.regs.pc = .ok e.word ∧ e.before = m.fetched

/-- The points of a run have a history, the instructions that the run has executed by then. -/
theorem Interpreter.Visits.follows {i : Interpreter} {k : Nat} {m : Machine} (h : i.Visits k m) :
    ∃ past, past.length = k ∧ Follows i.machine past m ∧ ∀ e ∈ past, e.FetchedIn i := by
  induction h with
  | start => exact ⟨[], rfl, .start, by simp⟩
  | @next k m m' hm _ hstep ih =>
      obtain ⟨past, hlength, hpast, hfetches⟩ := ih
      obtain ⟨w, m₁, hread, hexecuted, rfl⟩ := Machine.step_completed hstep
      let e : Event := ⟨m.fetched, w⟩
      have hafter : e.after = m₁ := congrArg Outcome.machine hexecuted
      have hin : e.FetchedIn i := ⟨k, m, hm, hread, rfl⟩
      refine ⟨e :: past, congrArg (· + 1) hlength, ?_, List.forall_mem_cons.2 ⟨hin, hfetches⟩⟩
      -- neither fetching nor moving on touches the reservation
      have hfetched : Follows i.machine past e.before := hpast.between rfl
      exact .between hfetched.executed (by rw [hafter]; rfl)

/-! ## Conditional stores after a history -/

namespace Event

/-- The event has stored the word of `rs` at an address: memory holds it there, and field zero of
the condition register says so. -/
structure Stores (e : Event) (rs : Reg) (address : Word) : Prop where
  write : Window.write e.before.ram 4 address (e.before.regs.gpr.read rs) = (none, e.after.ram)
  read : Window.read e.after.ram 4 address = .ok (e.before.regs.gpr.read rs)
  regs : e.after.regs = e.before.regs.afterConditional true
  flags : e.after.regs.crField 0 =
    Condition.eq ||| if e.before.regs.summaryOverflow then Condition.so else 0

/-- The event has declined to store, and left memory alone. -/
structure Declines (e : Event) : Prop where
  ram : e.after.ram = e.before.ram
  regs : e.after.regs = e.before.regs.afterConditional false
  flags : e.after.regs.crField 0 = if e.before.regs.summaryOverflow then Condition.so else 0

/-- What a conditional store of `rs` to an address does after some history. -/
structure Disciplined (e : Event) (past : List Event) (rs : Reg) (address : Word) : Prop where
  /-- It stores exactly if the latest of the marks is a reservation of its address. -/
  stores_iff : e.Completes →
    (e.Stores rs address ↔ latestMark past = some (.reserves address))
  declines_iff : e.Completes → (e.Declines ↔ latestMark past ≠ some (.reserves address))
  spent : e.Completes → e.after.regs.reservation = none
  /-- Since any earlier conditional store that completed, the address has been reserved anew. -/
  once : e.Completes → e.Stores rs address →
    ∀ recent e' older, past = recent ++ e' :: older → e'.Completes →
      (∃ rs' address', Instr.ofWord e'.word = .ok (.memory (.storeConditional rs' address'))) →
      ∃ x ∈ recent, x.mark? = some (.reserves address)
  failed : ¬ e.Completes → e.after = e.before

end Event

theorem Registers.crField_afterConditional (r : Registers) (stored : Bool) :
    (r.afterConditional stored).crField 0 = r.storeFlags stored :=
  Condition.field_setField_self ..

/-- The two results of a conditional store can be told apart. -/
theorem Registers.storeFlags_ne (r : Registers) : r.storeFlags true ≠ r.storeFlags false := by
  unfold storeFlags
  cases r.summaryOverflow <;> decide

/-- A word that was written is read back. -/
theorem Window.read_of_write {ram ram' : Ram} {a v : Word}
    (h : Window.write ram 4 a v = (none, ram')) : Window.read ram' 4 a = .ok v := by
  have hheld : ram.Holds a 4 := by
    rw [Window.write_eq] at h
    split at h
    · assumption
    · cases h
  have hread := ((Window.boundsChecked_of_holds hheld).read_write v (by rw [h])).1
  rw [h] at hread
  exact hread

namespace Event

variable {e : Event} {past : List Event} {rs : Reg} {address : Word}

theorem Stores.not_declines (h : e.Stores rs address) : ¬ e.Declines := by
  intro hdeclines
  have hregs := h.regs.symm.trans hdeclines.regs
  have hflags := congrArg (Registers.crField · 0) hregs
  simp only [Registers.crField_afterConditional] at hflags
  exact Registers.storeFlags_ne _ hflags

theorem mark?_of_storeConditional {address : Address} (hdone : e.Completes)
    (hi : Instr.ofWord e.word = .ok (.memory (.storeConditional rs address))) :
    e.mark? = some .releases := by
  rw [mark?, if_pos hdone, hi]

/-- Behind a conditional store that completed the latest mark is no reservation, so a reservation
that is the latest mark of all has been made since. -/
theorem exists_reserves_of_latestMark {recent older : List Event} {ea : Word}
    (hmark : e.mark? = some .releases)
    (h : latestMark (recent ++ e :: older) = some (.reserves ea)) :
    ∃ x ∈ recent, x.mark? = some (.reserves ea) := by
  rw [latestMark, List.findSome?_append, List.findSome?_cons, hmark, Option.or_eq_some_iff] at h
  rcases h with hrecent | ⟨-, hother⟩
  · exact List.exists_of_findSome?_eq_some hrecent
  · cases hother

/-- A conditional store fails and changes nothing, or the reservation decides what it does. -/
theorem storeConditional_cases {address : Address}
    (hi : Instr.ofWord e.word = .ok (.memory (.storeConditional rs address))) :
    (¬ e.Completes ∧ e.after = e.before) ∨
    (e.before.regs.reservation = some (e.before.regs.effective address) ∧ e.Completes ∧
      e.Stores rs (e.before.regs.effective address)) ∨
    (e.before.regs.reservation ≠ some (e.before.regs.effective address) ∧ e.Completes ∧
      e.Declines) := by
  have hexec : e.outcome = (MemoryInstr.storeConditional rs address).exec e.before :=
    Machine.execute_of_ofWord hi e.before
  rcases MemoryInstr.storeConditional_cases rs address e.before with
    ⟨f, hfail⟩ | ⟨hreserved, ram, hwrite, hstored⟩ | ⟨hfree, hdeclined⟩
  · have hout := hexec.trans hfail
    exact .inl ⟨by simp [Completes, hout], congrArg Outcome.machine hout⟩
  · have hout := hexec.trans hstored
    have hafter : e.after = ⟨e.before.regs.afterConditional true, ram⟩ :=
      congrArg Outcome.machine hout
    refine .inr (.inl ⟨hreserved, congrArg Outcome.failure hout, ?_⟩)
    constructor
    case write => rw [hafter, hwrite]
    case read => rw [hafter]; exact Window.read_of_write hwrite
    case regs => rw [hafter]
    case flags => rw [hafter]; exact Registers.crField_afterConditional ..
  · have hout := hexec.trans hdeclined
    have hafter : e.after = { e.before with regs := e.before.regs.afterConditional false } :=
      congrArg Outcome.machine hout
    refine .inr (.inr ⟨hfree, congrArg Outcome.failure hout, ?_⟩)
    constructor
    case ram => rw [hafter]
    case regs => rw [hafter]
    case flags =>
      rw [hafter]
      exact (Registers.crField_afterConditional ..).trans (by simp [Registers.storeFlags])

/-- A conditional store is disciplined after any history whose latest mark tells the reservation
before it. -/
theorem disciplined_of_latestMark {address : Address}
    (hi : Instr.ofWord e.word = .ok (.memory (.storeConditional rs address)))
    (hmark : e.before.regs.reservation = some (e.before.regs.effective address) ↔
      latestMark past = some (.reserves (e.before.regs.effective address))) :
    e.Disciplined past rs (e.before.regs.effective address) := by
  rcases storeConditional_cases hi with
    ⟨hnot, hkeep⟩ | ⟨hreserved, hdone, hstores⟩ | ⟨hfree, hdone, hdeclines⟩
  · exact ⟨fun h => absurd h hnot, fun h => absurd h hnot, fun h => absurd h hnot,
      fun h => absurd h hnot, fun _ => hkeep⟩
  · have hlatest := hmark.1 hreserved
    constructor
    case stores_iff => exact fun _ => ⟨fun _ => hlatest, fun _ => hstores⟩
    case declines_iff =>
      exact fun _ => ⟨fun h => absurd h hstores.not_declines, fun h => absurd hlatest h⟩
    case spent => exact fun _ => by rw [hstores.regs]; rfl
    case once =>
      rintro - - recent e' older rfl hdone' ⟨rs', address', hi'⟩
      exact exists_reserves_of_latestMark (mark?_of_storeConditional hdone' hi') hlatest
    case failed => exact fun h => absurd hdone h
  · have hlatest := mt hmark.2 hfree
    have hnot : ¬ e.Stores rs (e.before.regs.effective address) :=
      fun h => h.not_declines hdeclines
    constructor
    case stores_iff => exact fun _ => ⟨fun h => absurd h hnot, fun h => absurd h hlatest⟩
    case declines_iff => exact fun _ => ⟨fun _ => hlatest, fun _ => hdeclines⟩
    case spent => exact fun _ => by rw [hdeclines.regs]; rfl
    case once => exact fun _ h => absurd h hnot
    case failed => exact fun h => absurd hdone h

end Event

/-- After any history from a machine without a reservation a conditional store is disciplined. -/
theorem Follows.disciplined {m₀ : Machine} {past : List Event} {e : Event} {rs : Reg}
    {address : Address} (hpast : Follows m₀ past e.before)
    (hstart : m₀.regs.reservation = none)
    (hi : Instr.ofWord e.word = .ok (.memory (.storeConditional rs address))) :
    e.Disciplined past rs (e.before.regs.effective address) := by
  refine Event.disciplined_of_latestMark hi ?_
  -- a reservation of the address is nothing but its mark
  rw [hpast.reservation_eq hstart]
  cases latestMark past with
  | none => simp
  | some mark => cases mark <;> simp [Mark.reservation]

/-- **Reservations over a run.** A reset and the entry of a call leave no reservation, the points
of a run have a history from its start, the instructions it has executed, and after any history
from a machine without a reservation a conditional store is disciplined. -/
theorem reservation_discipline :
    (∀ i : Interpreter, i.reset.regs.reservation = none) ∧
    (∀ (i : Interpreter) (c : FunctionCall), (i.entering c).regs.reservation = none) ∧
    (∀ (i : Interpreter) (k : Nat) (m : Machine), i.Visits k m →
      ∃ past, past.length = k ∧ Follows i.machine past m ∧ ∀ e ∈ past, e.FetchedIn i) ∧
    ∀ (m₀ : Machine) (past : List Event) (e : Event) (rs : Reg) (address : Address),
      m₀.regs.reservation = none → Follows m₀ past e.before →
      Instr.ofWord e.word = .ok (.memory (.storeConditional rs address)) →
      e.Disciplined past rs (e.before.regs.effective address) :=
  ⟨fun _ => rfl, fun _ _ => rfl, fun _ _ _ hm => hm.follows,
    fun _ _ _ _ _ hstart hpast hi => hpast.disciplined hstart hi⟩

/-- After `lwarx r3, 0, r0` the first `stwcx. r4, 0, r0` stores its word and the second one does
not. -/
theorem reservation_discipline_twice :
    let m : Machine := ⟨Registers.initial.setGpr 4 42#32, .ofBytes ⟨#[0, 0, 0, 0]⟩⟩
    let load : Event := ⟨m, 0x7C600028#32⟩
    let first : Event := ⟨load.after, 0x7C80012D#32⟩
    let second : Event := ⟨first.after, 0x7C80012D#32⟩
    m.regs.reservation = none ∧ Follows m [first, load] second.before ∧
      first.Stores 4 0#32 ∧ second.Declines := by
  intro m load first second
  have hload : Follows m [load] first.before := .executed .start
  have hfirst : Follows m [first, load] second.before := .executed hload
  have hi : Instr.ofWord 0x7C80012D#32 = .ok (.memory (.storeConditional 4 (.indexed 0 0))) := rfl
  have hreserved : latestMark [load] = some (.reserves 0#32) := by decide +kernel
  have hreleased : latestMark [first, load] = some .releases := by decide +kernel
  have haddress : first.before.regs.effective (.indexed 0 0) = 0#32 := by decide +kernel
  have hdisciplined := reservation_discipline.2.2.2 m [load] first 4 (.indexed 0 0) rfl hload hi
  have hagain := reservation_discipline.2.2.2 m [first, load] second 4 (.indexed 0 0) rfl hfirst hi
  rw [haddress] at hdisciplined
  refine ⟨rfl, hfirst, (hdisciplined.stores_iff (by decide +kernel)).2 hreserved,
    (hagain.declines_iff (by decide +kernel)).2 ?_⟩
  rw [hreleased]
  exact nofun

end Broadway
