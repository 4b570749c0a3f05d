import Broadway.Path

/-!
# Files

The command reads one file and may open another for writing. `FileAccess` is all that it asks of the
system around it. `Files` is such a system as a value: a tree of directories and the place in it
where the command runs.

A path is followed name by name, and every name must be followed from a directory, be it an empty
name between two slashes, a dot, or two dots that lead back. So different paths may lead to one
file, and a file that is opened for writing is empty under each of its paths.

* What is put into a tree is found there, and nothing changes elsewhere below the same directory
  (`FileTree.find?_put_self`, `FileTree.child?_put_of_ne`).
-/

namespace Broadway

/-- What a program asks of the files around it. -/
structure FileAccess (m : Type → Type) where
  /-- The bytes of a file, if it can be read. -/
  read : Path → m (Option ByteArray)
  /-- Opens a file for writing, which empties it. If that cannot be done, nothing happens. -/
  create : Path → m Unit

/-! ## Trees -/

inductive FileTree
  | file (bytes : ByteArray)
  /-- A device that never holds anything. -/
  | null
  | directory (entries : List (String × FileTree))

namespace FileTree

/-- What a directory holds under a name. -/
def child? : FileTree → String → Option FileTree
  | .directory entries, name => entries.lookup name
  | _, _ => none

def isDirectory : FileTree → Bool
  | .directory _ => true
  | _ => false

/-- What stands at a place, which is given by the names that lead to it. -/
def find? : FileTree → (place : List String) → Option FileTree
  | t, [] => some t
  | t, name :: rest => (t.child? name).bind (find? · rest)

/-- Puts something at a place, whatever was there. Places below a file do not exist. -/
def put : FileTree → (place : List String) → (new : FileTree) → FileTree
  | _, [], new => new
  | .directory entries, name :: rest, new =>
    let old := (entries.lookup name).getD (.directory [])
    .directory ((name, put old rest new) :: entries.filter (·.1 != name))
  | t, _ :: _, _ => t

theorem lookup_filter_of_ne {name other : String} (h : other ≠ name) :
    (entries : List (String × FileTree)) →
      (entries.filter (·.1 != name)).lookup other = entries.lookup other
  | [] => rfl
  | (key, t) :: rest => by
    have ih := lookup_filter_of_ne h rest
    by_cases hk : key = name
    · have ho : (other == key) = false := by simpa [hk] using h
      rw [List.filter_cons_of_neg (by simpa using hk), List.lookup_cons, ho, ih]
    · rw [List.filter_cons_of_pos (by simpa using hk), List.lookup_cons, List.lookup_cons, ih]

/-- A directory keeps what it holds under other names. -/
theorem child?_put_of_ne (t new : FileTree) {name other : String} (h : other ≠ name)
    (rest : List String) : (t.put (name :: rest) new).child? other = t.child? other := by
  cases t with
  | directory entries =>
    have ho : (other == name) = false := by simpa using h
    simp only [put, child?, List.lookup_cons, ho, lookup_filter_of_ne h]
  | file => rfl
  | null => rfl

/-- What is put in a directory is found there. -/
theorem find?_put_self {t d : FileTree} (new : FileTree) {directory : List String} (name : String)
    (h : t.find? directory = some d) (hd : d.isDirectory) :
    (t.put (directory ++ [name]) new).find? (directory ++ [name]) = some new := by
  induction directory generalizing t with
  | nil =>
    cases h
    cases d with
    | directory entries => simp [put, find?, child?]
    | file => contradiction
    | null => contradiction
  | cons first rest ih =>
    cases t with
    | directory entries =>
      obtain ⟨c, hc, hfound⟩ := Option.bind_eq_some_iff.1 h
      rw [child?] at hc
      simp only [List.cons_append, put, find?, child?, List.lookup_cons, beq_self_eq_true, hc,
        Option.getD_some, Option.bind_some]
      exact ih hfound
    | file => contradiction
    | null => contradiction

end FileTree

/-! ## Paths -/

structure Files where
  root : FileTree
  /-- The place from which a path is followed, unless the path starts at the root. -/
  here : List String

namespace Files

/-- The greatest number of bytes in a name. -/
def nameLimit : Nat := 255

/-- The greatest number of bytes in a path. -/
def pathLimit : Nat := 4095

/-- Whether a path can be followed at all. -/
def isUsable (p : Path) : Bool :=
  !p.text.isEmpty && p.text.utf8ByteSize ≤ pathLimit && !p.text.contains '\x00'
    && p.names.all (·.utf8ByteSize ≤ nameLimit)

/-- Whether a name leads to a directory that is there already, and gives no name to a file. -/
def isStep (name : String) : Bool := name.isEmpty || name = "." || name = ".."

/-- Where a name leads from a place, which must be a directory. -/
def follow (f : Files) (place : List String) (name : String) : Option (List String) :=
  match f.root.find? place with
  | some (.directory entries) =>
    if name = ".." then some place.dropLast
    else if isStep name then some place
    else if (entries.lookup name).isSome then some (place ++ [name])
    else none
  | _ => none

/-- The place from which a path is followed. -/
def start (f : Files) (p : Path) : List String := if p.isRooted then [] else f.here

/-- What a path leads to. -/
def find? (f : Files) (p : Path) : Option FileTree := do
  guard (isUsable p)
  f.root.find? (← p.names.foldlM f.follow (f.start p))

def read (f : Files) (p : Path) : Option ByteArray :=
  match f.find? p with
  | some (.file bytes) => some bytes
  | some .null => some .empty
  | some (.directory _) | none => none

/-- The place of a file that can be opened for writing: it has a name, and its directory exists. -/
def target? (f : Files) (p : Path) : Option (List String) := do
  guard (isUsable p)
  let name ← p.names.getLast?
  guard (!isStep name)
  let directory ← p.names.dropLast.foldlM f.follow (f.start p)
  guard (← f.root.find? directory).isDirectory
  return directory ++ [name]

def create (f : Files) (p : Path) : Files :=
  match f.target? p with
  | none => f
  | some place =>
    match f.root.find? place with
    | some .null | some (.directory _) => f
    | some (.file _) | none => { f with root := f.root.put place (.file .empty) }

/-- Access to files that are a value. -/
def access : FileAccess (StateM Files) where
  read p := fun f => (f.read p, f)
  create p := fun f => ((), f.create p)

end Files

end Broadway
