import Broadway.Memory.Ram

/-!
# Code in memory

Code lies at an address if its words are in connected memory, one after another from there on.
Whether it does is decided by reading it. An address of a word has its two low bits clear, and so
have the addresses behind it.
-/

namespace Broadway

theorem Window.toOption_read {ram : Ram} {a w : Word} :
    (Window.read ram 4 a).toOption = some w ↔ Window.read ram 4 a = .ok w := by
  cases Window.read ram 4 a with
  | ok v => simp [Except.toOption]
  | error e => simp [Except.toOption]

instance (ram : Ram) (a w : Word) : Decidable (Window.read ram 4 a = .ok w) :=
  decidable_of_iff _ Window.toOption_read

namespace Ram

/-- The words of some code lie in connected memory from an address on. -/
def HoldsCode (ram : Ram) : (code : List Word) → (address : Word) → Prop
  | [], _ => True
  | w :: code, a => Window.read ram 4 a = .ok w ∧ ram.HoldsCode code (a + 4)

instance decidableHoldsCode (ram : Ram) :
    (code : List Word) → (a : Word) → Decidable (ram.HoldsCode code a)
  | [], _ => .isTrue trivial
  | _ :: code, a =>
    have := decidableHoldsCode ram code (a + 4)
    inferInstanceAs (Decidable (_ ∧ _))

end Ram

theorem setWidth_next {a : Word} (h : a.setWidth 2 = 0#2) : (a + 4).setWidth 2 = 0#2 := by
  rw [BitVec.setWidth_add a 4 (by decide), h]
  rfl

end Broadway
