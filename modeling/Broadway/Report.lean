import Broadway.Call

/-!
# Reports

The report of a call tells how it ended and what the registers held, as indented JSON. Its numbers
are whole and its keys stand in alphabetical order.
-/

namespace Broadway

namespace Report

/-- What a report is made of. -/
inductive Item
  | number (n : Nat)
  | string (s : String)
  | list (items : List Item)
  | record (entries : List (String × Item))

/-! ## Text -/

/-- A character of a string between double quotes. -/
def escape (c : Char) : String :=
  if c = '"' then "\\\""
  else if c = '\\' then "\\\\"
  else if c = '\x08' then "\\b"
  else if c = '\t' then "\\t"
  else if c = '\n' then "\\n"
  else if c = '\x0c' then "\\f"
  else if c = '\r' then "\\r"
  else if c < ' ' then "\\u" ++ hexDigits 4 c.toNat
  else c.toString

def quote (s : String) : String := "\"" ++ String.join (s.toList.map escape) ++ "\""

/-- The start of a line at a depth. -/
def newline (depth : Nat) : String := "\n" ++ "".pushn ' ' (2 * depth)

/-- Texts between brackets, each on a line of its own. -/
def bracket (opening closing : String) (depth : Nat) (texts : List String) : String :=
  if texts.isEmpty then opening ++ closing
  else opening ++ newline (depth + 1)
    ++ String.intercalate ("," ++ newline (depth + 1)) texts ++ newline depth ++ closing

mutual

/-- The text of an item at a depth. -/
def Item.render (depth : Nat) : Item → String
  | .number n => toString n
  | .string s => quote s
  | .list items => bracket "[" "]" depth (renderItems (depth + 1) items)
  | .record entries => bracket "\x7b" "\x7d" depth (renderEntries (depth + 1) entries)

def renderItems (depth : Nat) : List Item → List String
  | [] => []
  | item :: rest => item.render depth :: renderItems depth rest

def renderEntries (depth : Nat) : List (String × Item) → List String
  | [] => []
  | (key, item) :: rest => (quote key ++ ": " ++ item.render depth) :: renderEntries depth rest

end

def Item.text (i : Item) : String := i.render 0

/-! ## Contents -/

def bits {n : Nat} (b : BitVec n) : Item := .number b.toNat

def words {n : Nat} (bank : Bank n Word) : Item := .list (bank.toList.map bits)

def lanes (l : Lanes) : Item := .record [("ps0", bits l.ps0), ("ps1", bits l.ps1)]

def registers (s : Snapshot) : Item :=
  .record [
    ("cr", bits s.cr), ("ctr", bits s.ctr), ("dar", bits s.dar), ("dsisr", bits s.dsisr),
    ("fpr", .list (s.fpr.toList.map lanes)), ("fpscr", bits s.fpscr), ("gpr", words s.gpr),
    ("gqr", words s.gqr), ("lr", bits s.lr), ("msr", bits s.msr), ("pc", bits s.pc),
    ("sr", words s.sr), ("srr0", bits s.srr0), ("srr1", bits s.srr1), ("tb", bits s.tb),
    ("xer", bits s.xer)]

def termination : Termination → Item
  | .completed => .record [("outcome", .string "completed")]
  | .faulted cause address pc =>
    .record [("address", .string address.text), ("cause", .string cause.name),
      ("outcome", .string "faulted"), ("pc", .string pc.text)]
  | .invalid reason pc =>
    .record [("outcome", .string "invalid"), ("pc", .string pc.text),
      ("reason", .string reason.message)]

/-- The report of a call. -/
def ofResult (c : CallResult) : Item :=
  .record [("registers", registers c.snapshot), ("result", termination c.termination)]

end Report

end Broadway
