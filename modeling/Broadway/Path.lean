/-!
# Paths

A path is a text of names with slashes between them. One path has many spellings: an empty name or
a dot behind another name says nothing. `Path.agrees` compares paths without them; a dot in front
and two dots anywhere do count, since what they lead to is for the directories to say.

* Agreement is an equivalence (`Path.agrees_refl`, `Path.agrees_symm`, `Path.agrees_trans`).
-/

namespace Broadway

structure Path where
  text : String
  deriving DecidableEq

namespace Path

/-- Whether the path starts at the root. -/
def isRooted (p : Path) : Bool := p.text.startsWith "/"

/-- The names between the slashes. A path from the root starts with an empty name. -/
def names (p : Path) : List String := p.text.splitOn "/"

/-- The first name, and those of the others that are neither empty nor a dot. -/
def parts (p : Path) : List String :=
  match p.names with
  | [] => []
  | first :: rest => first :: rest.filter fun name => !name.isEmpty && name != "."

/-- Whether two paths differ in nothing but empty names and dots. -/
def agrees (p q : Path) : Bool := p.isRooted == q.isRooted && p.parts == q.parts

theorem agrees_iff {p q : Path} :
    p.agrees q = true ↔ p.isRooted = q.isRooted ∧ p.parts = q.parts := by
  simp [agrees]

theorem agrees_refl (p : Path) : p.agrees p = true :=
  agrees_iff.2 ⟨rfl, rfl⟩

theorem agrees_symm {p q : Path} (h : p.agrees q = true) : q.agrees p = true :=
  have ⟨hr, hp⟩ := agrees_iff.1 h
  agrees_iff.2 ⟨hr.symm, hp.symm⟩

theorem agrees_trans {p q r : Path} (h : p.agrees q = true) (h' : q.agrees r = true) :
    p.agrees r = true :=
  have ⟨hr, hp⟩ := agrees_iff.1 h
  have ⟨hr', hp'⟩ := agrees_iff.1 h'
  agrees_iff.2 ⟨hr.trans hr', hp.trans hp'⟩

end Path

end Broadway
