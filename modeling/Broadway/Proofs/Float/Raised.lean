import Broadway.Proofs.Float.Sticky

/-!
# Which exceptions have been raised

`Fpscr.Raises causes s t` says that from `s` to `t` the exceptions `causes` have been raised, and
that this is all: no other exception has changed, `fx` records the causes that were clear, the
summaries are those of the new status, and no other bit is different.

* Raising a word of exceptions raises those and no others (`raises_raise`).
* Bits that describe the last result may be left out of both words (`Raises.without`).
-/

namespace Broadway.Fpscr

/-- What an exception can change: the exceptions, their record and their summaries. -/
def touched : Word := fx ||| fex ||| vx ||| anyX

/-- From `s` to `t` the exceptions `causes` have been raised, and nothing else has happened. -/
structure Raises (causes : List Word) (s t : Word) : Prop where
  known : ∀ bit ∈ causes, bit ∈ exceptions
  /-- An exception is set if it was set before or is one of the causes. -/
  raised : ∀ bit ∈ exceptions, Has t bit ↔ Has s bit ∨ bit ∈ causes
  /-- The record is set if it was set before or one of the causes was clear. -/
  recorded : Has t fx ↔ Has s fx ∨ ∃ bit ∈ causes, ¬ Has s bit
  /-- With a cause the summaries are computed anew. -/
  summaries : causes ≠ [] → Consistent t
  kept : t &&& ~~~touched = s &&& ~~~touched
  /-- Without a cause the status stays as it is. -/
  nothing : causes = [] → t = s

variable {causes : List Word} {s t : Word}

theorem raises_nil (s : Word) : Raises [] s s where
  known := nofun
  raised bit _ := by simp
  recorded := by simp
  summaries h := absurd rfl h
  kept := rfl
  nothing _ := rfl

/-! ## Words of exceptions -/

/-- The word in which exactly some exceptions are set. -/
def allOf (causes : List Word) : Word := causes.foldr (· ||| ·) 0

theorem allOf_cons (c : Word) (causes : List Word) : allOf (c :: causes) = c ||| allOf causes := rfl

theorem allOf_singleton (c : Word) : allOf [c] = c := BitVec.or_zero

/-- Sticky bits are single bits, and differ. -/
theorem has_sticky_iff {c bit : Word} (hc : c ∈ sticky) (hbit : bit ∈ sticky) :
    Has c bit ↔ bit = c := by
  have hall : (sticky.all fun c => sticky.all fun bit =>
      decide (Has c bit) == decide (bit = c)) = true := by decide
  have hsame := List.all_eq_true.1 (List.all_eq_true.1 hall c hc) bit hbit
  exact decide_eq_decide.1 (eq_of_beq hsame)

theorem not_has_zero (bit : Word) : ¬ Has 0 bit := fun h => h BitVec.zero_and

theorem has_allOf (h : ∀ c ∈ causes, c ∈ exceptions) {bit : Word} (hbit : bit ∈ sticky) :
    Has (allOf causes) bit ↔ bit ∈ causes := by
  induction causes with
  | nil => exact iff_of_false (not_has_zero bit) List.not_mem_nil
  | cons c causes ih =>
      have hc := mem_sticky (h c List.mem_cons_self)
      have hrest := ih fun d hd => h d (List.mem_cons_of_mem c hd)
      rw [allOf_cons, has_or_left, has_sticky_iff hc hbit, hrest, List.mem_cons]

theorem allOf_and (h : ∀ c ∈ causes, c ∈ exceptions) : allOf causes &&& anyX = allOf causes := by
  induction causes with
  | nil => exact BitVec.zero_and
  | cons c causes ih =>
      have hc : c &&& anyX = c := by
        rw [BitVec.and_comm]
        exact exceptions_and (h c List.mem_cons_self)
      rw [allOf_cons, BitVec.and_or_distrib_right, hc,
        ih fun d hd => h d (List.mem_cons_of_mem c hd)]

/-- A single bit is set in a word if the word holds all of it. -/
theorem and_eq_iff_has {bit : Word} (hbit : bit ∈ sticky) : s &&& bit = bit ↔ Has s bit := by
  have hself : Has bit bit := (has_sticky_iff hbit hbit).2 rfl
  obtain ⟨k, -, rfl⟩ := exists_shiftLeft hbit
  have hne : BitVec.twoPow 32 k ≠ 0#32 := by
    intro hzero
    exact hself ((BitVec.and_self).trans hzero)
  show s &&& BitVec.twoPow 32 k = BitVec.twoPow 32 k ↔ s &&& BitVec.twoPow 32 k ≠ 0#32
  rw [BitVec.and_twoPow]
  cases s.getLsbD k with
  | true => exact iff_of_true rfl hne
  | false => exact iff_of_false hne.symm fun h => h rfl

theorem and_or_eq_iff (a b : Word) : s &&& (a ||| b) = a ||| b ↔ s &&& a = a ∧ s &&& b = b := by
  constructor
  · intro h
    have hpart {c : Word} (hc : (a ||| b) &&& c = c) : s &&& c = c := by
      rw [← hc, ← BitVec.and_assoc, h]
    have hleft : (a ||| b) &&& a = a := by
      ext i hi
      simp only [BitVec.getElem_and, BitVec.getElem_or]
      cases a[i] <;> cases b[i] <;> rfl
    have hright : (a ||| b) &&& b = b := by
      ext i hi
      simp only [BitVec.getElem_and, BitVec.getElem_or]
      cases a[i] <;> cases b[i] <;> rfl
    exact ⟨hpart hleft, hpart hright⟩
  · rintro ⟨ha, hb⟩
    rw [BitVec.and_or_distrib_left, ha, hb]

/-- All of some exceptions are set in a word if each of them is. -/
theorem and_allOf_eq_iff (h : ∀ c ∈ causes, c ∈ exceptions) :
    s &&& allOf causes = allOf causes ↔ ∀ c ∈ causes, Has s c := by
  induction causes with
  | nil => simp [allOf]
  | cons c causes ih =>
      have hc := mem_sticky (h c List.mem_cons_self)
      have hrest := ih fun d hd => h d (List.mem_cons_of_mem c hd)
      rw [allOf_cons, and_or_eq_iff, and_eq_iff_has hc, hrest, List.forall_mem_cons]

/-! ## Raising them -/

/-- Raising exceptions raises those and no others. -/
theorem raises_raise (h : ∀ c ∈ causes, c ∈ exceptions) (hne : causes ≠ []) (s : Word) :
    Raises causes s (raise s (allOf causes)) := by
  obtain ⟨c, hc⟩ := List.exists_mem_of_ne_nil causes hne
  have hmask : allOf causes ≠ 0 := by
    intro hzero
    have hset := (has_allOf h (mem_sticky (h c hc))).2 hc
    rw [hzero] at hset
    exact not_has_zero c hset
  have hraise : raise s (allOf causes) =
      summarize ((if s &&& allOf causes != allOf causes then s ||| fx else s) ||| allOf causes) :=
    if_neg hmask
  constructor
  case known => exact h
  case raised =>
    intro bit hbit
    have hapart : ~~~(vx ||| fex) &&& anyX = anyX ∧ fx &&& anyX = 0#32 := by decide
    have hsummary : ~~~(vx ||| fex) &&& bit = bit := by
      rw [← exceptions_and hbit, ← BitVec.and_assoc, hapart.1]
    have hfx : fx &&& bit = 0 := by
      rw [← exceptions_and hbit, ← BitVec.and_assoc, hapart.2]
      exact BitVec.zero_and
    rw [has_raise s _ hsummary hfx, has_allOf h (mem_sticky hbit)]
  case recorded =>
    have hfx : fx ∉ causes := fun hmem => absurd (h fx hmem) (by decide)
    rw [hraise, has_summarize List.mem_cons_self, has_or_left, has_allOf h List.mem_cons_self,
      or_iff_left hfx]
    by_cases hold : ∀ c ∈ causes, Has s c
    · have hsame := (and_allOf_eq_iff h).2 hold
      rw [if_neg (by simpa using hsame)]
      exact (or_iff_left fun ⟨c, hc, hclear⟩ => hclear (hold c hc)).symm
    · have hdiffer := (not_congr (and_allOf_eq_iff h)).2 hold
      rw [if_pos (by simpa using hdiffer), has_or_left]
      exact or_congr_right ⟨fun _ => by simpa using hold, fun _ => by decide⟩
  case summaries =>
    intro _
    rw [hraise]
    exact consistent_summarize _
  case kept =>
    have hapart : allOf causes &&& ~~~touched = 0#32 := by
      have hany : anyX &&& ~~~touched = 0#32 := by decide
      rw [← allOf_and h, BitVec.and_assoc, hany]
      exact BitVec.and_zero
    have hsummaries : ~~~(vx ||| fex) &&& ~~~touched = ~~~touched := by decide
    rw [hraise, ← hsummaries, ← BitVec.and_assoc, summarize_and, BitVec.and_assoc, hsummaries,
      or_and_of_apart _ hapart]
    split
    · exact or_and_of_apart s (by decide)
    · rfl
  case nothing => exact fun hnil => absurd hnil hne

theorem raises_one {c : Word} (hc : c ∈ exceptions) (s : Word) : Raises [c] s (raise s c) := by
  have hknown : ∀ d ∈ [c], d ∈ exceptions := List.forall_mem_singleton.2 hc
  have hraises := raises_raise hknown (List.cons_ne_nil c []) s
  rwa [allOf_singleton] at hraises

/-- A bit that exceptions do not touch stays as it is. -/
theorem Raises.getLsbD (h : Raises causes s t) {k : Nat} (hk : touched.getLsbD k = false) :
    t.getLsbD k = s.getLsbD k := by
  by_cases hbound : k < 32
  · have hkept := congrArg (fun u : Word => u.getLsbD k) h.kept
    simpa only [BitVec.getLsbD_and, BitVec.getLsbD_not, hbound, hk, decide_true, Bool.not_false,
      Bool.and_true] using hkept
  · rw [BitVec.getLsbD_of_ge t k (by omega), BitVec.getLsbD_of_ge s k (by omega)]

/-- Bits that describe the last result have no part in it, and may be left out. -/
theorem Raises.without {mask : Word} (hmask : lastResult &&& mask = mask)
    (h : Raises causes s t) : Raises causes (s &&& ~~~mask) (t &&& ~~~mask) := by
  have hapart {bit : Word} (hbit : bit ∈ sticky) : mask &&& bit = 0#32 := by
    have hnone : lastResult &&& (fx ||| anyX) = 0#32 := by decide
    calc mask &&& bit
      _ = lastResult &&& mask &&& ((fx ||| anyX) &&& bit) := by rw [hmask, sticky_and hbit]
      _ = lastResult &&& (fx ||| anyX) &&& (mask &&& bit) := by ac_rfl
      _ = 0#32 := by rw [hnone, BitVec.zero_and]
  have hsame (u : Word) {bit : Word} (hbit : bit ∈ sticky) : Has (u &&& ~~~mask) bit ↔ Has u bit := by
    unfold Has
    rw [and_not_and_of_apart u (hapart hbit)]
  have hinside : mask &&& ~~~lastResult = 0#32 := by
    rw [← hmask, BitVec.and_comm lastResult, BitVec.and_assoc, BitVec.and_not_self]
    exact BitVec.and_zero
  constructor
  case known => exact h.known
  case raised =>
    intro bit hbit
    rw [hsame t (mem_sticky hbit), hsame s (mem_sticky hbit)]
    exact h.raised bit hbit
  case recorded =>
    rw [hsame t List.mem_cons_self, hsame s List.mem_cons_self, h.recorded]
    refine or_congr_right (exists_congr fun bit => and_congr_right fun hbit => not_congr ?_)
    exact (hsame s (mem_sticky (h.known bit hbit))).symm
  case summaries =>
    intro hne
    exact (h.summaries hne).congr (and_not_and_of_apart t hinside)
  case kept =>
    rw [BitVec.and_assoc, BitVec.and_comm (~~~mask), ← BitVec.and_assoc, h.kept, BitVec.and_assoc,
      BitVec.and_comm (~~~touched), ← BitVec.and_assoc]
  case nothing =>
    intro hnil
    rw [h.nothing hnil]

end Broadway.Fpscr
