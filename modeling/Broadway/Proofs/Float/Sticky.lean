import Broadway.Proofs.Float.Status

/-!
# Exceptions are sticky

From one status to a later one an exception that has been raised stays raised, and `fx` records
every exception that is new (`Fpscr.Sticky`). Raising exceptions, setting a bit and describing a
result keep to it, and so does all that an instruction records (`Records.sticky`). The move of a
field to the condition register does not: it clears the sticky bits of that field and no others
(`has_clearField`).
-/

namespace Broadway.Fpscr

/-- The exceptions, in the order of their bits. -/
def exceptions : List Word :=
  [ox, ux, zx, xx, vxsnan, vxisi, vxidi, vxzdz, vximz, vxvc, vxsoft, vxsqrt, vxcvi]

/-- What is sticky: the exceptions, and the summary of those that are new. -/
def sticky : List Word := fx :: exceptions

/-- From `s` to `t` exceptions may have been raised, but none has been cleared. -/
structure Sticky (s t : Word) : Prop where
  kept : ∀ bit ∈ sticky, Has s bit → Has t bit
  /-- A new exception is recorded. -/
  recorded : ∀ bit ∈ exceptions, ¬ Has s bit → Has t bit → Has t fx

variable {s t u : Word}

theorem mem_sticky {bit : Word} (h : bit ∈ exceptions) : bit ∈ sticky := List.mem_cons_of_mem _ h

/-- A sticky bit is `fx` or an exception. -/
theorem sticky_and {bit : Word} (h : bit ∈ sticky) : (fx ||| anyX) &&& bit = bit := by
  have hall : sticky.all (fun bit => (fx ||| anyX) &&& bit == bit) = true := by decide
  exact eq_of_beq (List.all_eq_true.1 hall bit h)

theorem exceptions_and {bit : Word} (h : bit ∈ exceptions) : anyX &&& bit = bit := by
  have hall : exceptions.all (fun bit => anyX &&& bit == bit) = true := by decide
  exact eq_of_beq (List.all_eq_true.1 hall bit h)

/-- Words that agree in the sticky bits have the same of them. -/
theorem has_sticky_congr {mask bit : Word} (hmask : mask &&& (fx ||| anyX) = fx ||| anyX)
    (hsame : s &&& mask = t &&& mask) (hbit : bit ∈ sticky) : Has s bit ↔ Has t bit := by
  refine has_congr hsame ?_
  rw [← sticky_and hbit, ← BitVec.and_assoc, hmask]

theorem has_or_left (s mask bit : Word) : Has (s ||| mask) bit ↔ Has s bit ∨ Has mask bit := by
  unfold Has
  rw [BitVec.and_or_distrib_right]
  exact (not_congr BitVec.or_eq_zero_iff).trans Decidable.not_and_iff_not_or_not

namespace Sticky

theorem refl (s : Word) : Sticky s s where
  kept _ _ h := h
  recorded _ _ h h' := absurd h' h

theorem trans (h : Sticky s t) (h' : Sticky t u) : Sticky s u where
  kept bit hbit hs := h'.kept bit hbit (h.kept bit hbit hs)
  recorded bit hbit hs hu := by
    by_cases ht : Has t bit
    · -- the exception was new at `t`, and its record has been kept since
      exact h'.kept fx List.mem_cons_self (h.recorded bit hbit hs ht)
    · exact h'.recorded bit hbit ht hu

/-- What agrees with the later status in the sticky bits is as good as it. -/
theorem congr {mask : Word} (hmask : mask &&& (fx ||| anyX) = fx ||| anyX)
    (hsame : u &&& mask = t &&& mask) (h : Sticky s t) : Sticky s u where
  kept bit hbit hs := (has_sticky_congr hmask hsame hbit).2 (h.kept bit hbit hs)
  recorded bit hbit hs hu := by
    have ht : Has t bit := (has_sticky_congr hmask hsame (mem_sticky hbit)).1 hu
    exact (has_sticky_congr hmask hsame List.mem_cons_self).2 (h.recorded bit hbit hs ht)

end Sticky

/-! ## Summaries and results -/

/-- The summaries are no sticky bits. -/
theorem summarize_and (s : Word) : summarize s &&& ~~~(vx ||| fex) = s &&& ~~~(vx ||| fex) := by
  unfold summarize
  simp only
  rw [assign_and_of_apart _ (by decide), assign_and_of_apart _ (by decide)]

theorem has_summarize {bit : Word} (hbit : bit ∈ sticky) : Has (summarize s) bit ↔ Has s bit :=
  has_sticky_congr (by decide) (summarize_and s) hbit

theorem Sticky.summarized (h : Sticky s t) : Sticky s (summarize t) :=
  h.congr (by decide) (summarize_and t)

/-- Describing a result leaves the sticky bits alone. -/
theorem Sticky.described (h : Sticky s t)
    (hsame : u &&& ~~~lastResult = t &&& ~~~lastResult) : Sticky s u :=
  h.congr (by decide) hsame

/-! ## Setting bits -/

/-- Bits may be set if `fx` is set as well. -/
theorem sticky_or_fx (s mask : Word) : Sticky s (s ||| fx ||| mask) where
  kept bit _ hs := by
    rw [has_or_left, has_or_left]
    exact .inl (.inl hs)
  recorded _ _ _ _ := by
    rw [has_or_left, has_or_left]
    exact .inl (.inr (by decide))

/-- Bits may be set if no exception among them is new. -/
theorem sticky_or {mask : Word} (h : ∀ bit ∈ exceptions, Has mask bit → Has s bit) :
    Sticky s (s ||| mask) where
  kept bit _ hs := (has_or_left s mask bit).2 (.inl hs)
  recorded bit hbit hs hraised := by
    rcases (has_or_left s mask bit).1 hraised with hold | hmask
    · exact absurd hold hs
    · exact absurd (h bit hbit hmask) hs

/-- Bits apart from the summaries are raised if they are in the mask, and kept otherwise. -/
theorem has_raise (s mask : Word) {bit : Word} (hbit : ~~~(vx ||| fex) &&& bit = bit)
    (hfx : fx &&& bit = 0) : Has (raise s mask) bit ↔ Has s bit ∨ Has mask bit := by
  unfold raise
  split
  · next hmask =>
    subst hmask
    have hnone : ¬ Has 0 bit := fun h => h BitVec.zero_and
    exact (or_iff_left hnone).symm
  · rw [has_congr (summarize_and _) hbit, has_or_left]
    split
    · rw [has_or_left]
      exact or_congr_left (or_iff_left fun h => h hfx)
    · exact Iff.rfl

theorem sticky_raise (s mask : Word) : Sticky s (raise s mask) := by
  unfold raise
  split
  · exact .refl s
  · refine Sticky.summarized ?_
    split
    · exact sticky_or_fx s mask
    · next hold =>
      -- all that is raised has been raised before
      have hmask : s &&& mask = mask := by simpa using hold
      refine sticky_or fun bit _ hraised => ?_
      intro hclear
      apply hraised
      rw [← hmask, BitVec.and_comm s, BitVec.and_assoc, hclear]
      exact BitVec.and_zero

/-- Whatever only records keeps exceptions raised. -/
theorem Records.sticky (h : Records s t) : Sticky s t := by
  induction h with
  | refl => exact .refl s
  | raised _ mask _ ih => exact ih.trans (sticky_raise _ mask)
  | described _ hsame ih => exact ih.described hsame

/-- Setting a bit raises it, if it is an exception. -/
theorem sticky_setBit (s : Word) (b : BitVec 5) : Sticky s (setBit s b) := by
  refine Sticky.summarized ?_
  show Sticky s (if 0x80000000#32 >>> b.toNat &&& anyX != 0 then _ else _)
  split
  · exact sticky_raise s _
  · next hother =>
    have hapart : 0x80000000#32 >>> b.toNat &&& anyX = 0#32 := by simpa using hother
    refine sticky_or fun bit hbit hset => ?_
    refine absurd ?_ hset
    rw [← exceptions_and hbit, ← BitVec.and_assoc, hapart]
    exact BitVec.zero_and

/-! ## Clearing a field -/

/-- The bits of a field. -/
def fieldBits (n : BitVec 3) : Word := 0xF#32 <<< Condition.shift n

theorem exists_shiftLeft {bit : Word} (h : bit ∈ sticky) : ∃ k < 32, bit = 1#32 <<< k := by
  have hall : sticky.all (fun bit => (List.range 32).any fun k => bit == 1#32 <<< k) = true := by
    decide
  obtain ⟨k, hk, hbit⟩ := List.any_eq_true.1 (List.all_eq_true.1 hall bit h)
  exact ⟨k, List.mem_range.1 hk, eq_of_beq hbit⟩

/-- The move of a field clears the sticky bits inside it and no others. -/
theorem has_clearField (s : Word) (n : BitVec 3) {bit : Word} (hbit : bit ∈ sticky) :
    Has (clearField s n) bit ↔ Has s bit ∧ ¬ Has (fieldBits n) bit := by
  rw [clearField, has_summarize hbit]
  have hsticky := sticky_and hbit
  obtain ⟨k, hk, rfl⟩ := exists_shiftLeft hbit
  show Has (s &&& ~~~(fieldBits n &&& (fx ||| anyX))) _ ↔ _
  generalize fx ||| anyX = mask at hsticky
  have hmask : mask.getLsbD k = true := by
    have hbit := congrArg (BitVec.getLsbD · k) hsticky
    simpa [hk] using hbit
  rw [has_shiftLeft _ hk, has_shiftLeft _ hk, has_shiftLeft _ hk, BitVec.getLsbD_and,
    BitVec.getLsbD_not, BitVec.getLsbD_and, hmask]
  simp [hk]

end Broadway.Fpscr
