import Broadway.Toml.Number
import Broadway.Toml.Tree

/-!
# TOML documents

A document is a row of lines. Each assigns a value to a key, opens a table, or says nothing; the
tables are built from the lines in order. `parse?` gives the table that a text denotes.
-/

namespace Broadway.Toml

open Reader

/-- Arrays and inline tables nest less deep than this, and keys have fewer parts. -/
def depthLimit : Nat := 80

/-! ## Keys and values -/

/-- A key that needs no quotes. -/
def bareKey : Reader String := do
  let isBare (c : Char) : Bool := c.isAlphanum || c = '-' || c = '_'
  let first ← next isBare
  return String.ofList (first :: (← row isBare))

/-- The parts of a dotted key but the last, and the last. -/
def key : Reader (List String × String) := do
  let parts ← separated (do blanks; let k ← Quoted.line <|> bareKey; blanks; return k) (char '.')
  match parts.getLast? with
  | some last => if parts.length < depthLimit then return (parts.dropLast, last) else failure
  | none => failure

/-- A key and, after an equals sign, its value. -/
def assignment (value : Reader Value) : Reader (List String × String × Value) := do
  let (path, name) ← key
  char '='
  blanks
  return (path, name, ← value)

/-- A value that has no parts. -/
def scalar : Reader Value := do
  (do return .string (← Quoted.string)) <|> Number.moment <|> Number.number
    <|> (do text "true"; return .boolean true) <|> (do text "false"; return .boolean false)

/-- Values between square brackets, on any number of lines. The last may be followed by a comma. -/
def array (value : Reader Value) : Reader Value := do
  char '['
  let items ← attempt (separated (do space; let v ← value; space; return v) (char ','))
  if items.isSome then discard (attempt (char ','))
  space
  char ']'
  return .array (items.getD [])

/-- Assignments between braces, on one line. -/
def inlineTable (value : Reader Value) : Reader Value := do
  char '\x7b'
  let entries ← attempt (separated (do let a ← assignment value; blanks; return a) (char ','))
  blanks
  char '\x7d'
  let made ← (entries.getD []).foldlM (fun (t : Entries) (path, name, v) =>
    t.assign path name v .header) []
  return (Node.table .header made).toValue

/-- A value that holds at most `depth` others one inside the other. -/
def value : (depth : Nat) → Reader Value
  | 0 => scalar
  | depth + 1 => scalar <|> array (value depth) <|> inlineTable (value depth)

/-! ## Lines -/

/-- What a line says. -/
inductive Line
  | blank
  | assignment (path : List String) (key : String) (v : Value)
  | table (path : List String) (key : String)
  | element (path : List String) (key : String)

def header (opening closing : String) (line : List String → String → Line) : Reader Line := do
  text opening
  let (path, name) ← key
  text closing
  return line path name

def Line.read : Reader Line := do
  let content : Reader Line := do
    if ← ahead ['[', '['] then header "[[" "]]" .element
    else if ← ahead ['['] then header "[" "]" .table
    else
      let (path, name, v) ← Toml.assignment (value (depthLimit - 1))
      return .assignment path name v
  blanks
  let line := (← attempt content).getD .blank
  lineEnd
  return line

/-! ## Documents -/

/-- A document under construction, and the table that assignments now go to. -/
structure Draft where
  entries : Entries
  current : List String

def Draft.add (d : Draft) : Line → Option Draft
  | .blank => some d
  | .assignment path key v => do
    let entries ← Entries.within .path (Entries.assign path key v) d.current .header d.entries
    return { d with entries }
  | .table path key => do
    return ⟨← d.entries.openTable path key, path ++ [key]⟩
  | .element path key => do
    return ⟨← d.entries.openElement path key, path ++ [key]⟩

/-- The mark that may stand before a text to tell its encoding. -/
def byteOrderMark : Char := '\ufeff'

/-- The table that a text denotes, if it is a document. -/
def parse? (text : String) : Option Value := do
  let read : Reader (List Line) := do
    discard (attempt (char byteOrderMark))
    let lines ← many (do if (← attempt done).isSome then failure else Line.read)
    done
    return lines
  let lines ← read.all text.toList
  let draft ← lines.foldlM Draft.add ⟨[], []⟩
  return (Node.table .header draft.entries).toValue

end Broadway.Toml
