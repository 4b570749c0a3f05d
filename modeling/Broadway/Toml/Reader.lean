/-!
# Readers of TOML text

A reader takes what it recognises from the start of a text and leaves the rest, or fails without
taking anything. Beside the combinators, this file holds the readers of what stands between the
values of a document: blanks, comments and the ends of lines.
-/

namespace Broadway.Toml

abbrev Reader := StateT (List Char) Option

namespace Reader

variable {α β : Type}

/-- What a reader makes of a whole text. -/
def all (r : Reader α) (text : List Char) : Option α :=
  match r text with
  | some (a, []) => some a
  | _ => none

/-- Whether what follows starts with some text. -/
def ahead (text : List Char) : Reader Bool := fun s => some (text.isPrefixOf s, s)

/-- The next character, if it is of a class. -/
def next (class? : Char → Bool) : Reader Char
  | c :: s => if class? c then some (c, s) else none
  | [] => none

def char (c : Char) : Reader Unit := do
  discard (next (· == c))

/-- Some text, character by character. -/
def text (t : String) : Reader Unit := t.toList.forM char

/-- The longest row of characters of a class. -/
def row (class? : Char → Bool) : Reader (List Char) := fun s => some (s.span class?)

/-- What a reader reads, or nothing if it fails. -/
def attempt (r : Reader α) : Reader (Option α) := fun s =>
  match r s with
  | some (a, rest) => some (some a, rest)
  | none => some (none, s)

/-- At most as many items as another text has characters. -/
def upTo (r : Reader α) : (bound : List Char) → Reader (List α)
  | [] => pure []
  | _ :: bound => do
    match ← attempt r with
    | some a => return a :: (← upTo r bound)
    | none => return []

/-- As many items as can be read. Every item takes a character at least, so there are no more of
them than characters. -/
def many (r : Reader α) : Reader (List α) := fun s => upTo r s s

/-- At least one item, with a separator between each two. -/
def separated (r : Reader α) (separator : Reader β) : Reader (List α) := do
  let a ← r
  return a :: (← many (do discard separator; r))

/-! ## Between the values -/

def isBlank (c : Char) : Bool := c = ' ' || c = '\t'

/-- A character that may stand in a comment and, unless it delimits the string, in a string:
everything but the control characters below 128 other than the tabulator. -/
def isPlain (c : Char) : Bool := c = '\t' || (' ' ≤ c && c ≠ '\x7f')

def blanks : Reader Unit := do
  discard (row isBlank)

/-- The end of a line. A carriage return belongs to it if a line feed follows. -/
def newline : Reader Unit := char '\n' <|> text "\r\n"

def comment : Reader Unit := do
  char '#'
  discard (row isPlain)

/-- The end of the text. -/
def done : Reader Unit := fun s => if s.isEmpty then some ((), s) else none

/-- What may follow a complete line: blanks, a comment, and the end of the line or of the text. -/
def lineEnd : Reader Unit := do
  blanks
  discard (attempt comment)
  newline <|> done

/-- Blanks, comments and line ends in any number. -/
def space : Reader Unit := do
  discard (many (do blanks; discard (attempt comment); newline))
  blanks

end Reader

end Broadway.Toml
