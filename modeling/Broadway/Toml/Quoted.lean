import Broadway.Toml.Reader

/-!
# Quoted strings

TOML quotes a string in four ways: between double or single quotes, on one line or, tripled, on
several. Between double quotes a backslash escapes; between single quotes every character stands
for itself. `string` reads all four; `write` chooses the plainest that needs no escapes, and
escapes only where none does.
-/

namespace Broadway.Toml.Quoted

open Reader

/-! ## Reading -/

/-- The value of a hexadecimal digit. -/
def hexValue? (c : Char) : Option Nat :=
  if c.isDigit then some (c.toNat - '0'.toNat)
  else if 'a' ≤ c && c ≤ 'f' then some (c.toNat - 'a'.toNat + 10)
  else if 'A' ≤ c && c ≤ 'F' then some (c.toNat - 'A'.toNat + 10)
  else none

def isHexDigit (c : Char) : Bool := (hexValue? c).isSome

/-- The number that digits of some base denote, most significant first. -/
def numberOfDigits (base : Nat) (digits : List Char) : Nat :=
  digits.foldl (fun n c => base * n + (hexValue? c).getD 0) 0

/-- A character given by a number of exactly `digits` hexadecimal digits. -/
def codePoint (digits : Nat) : Reader Char := do
  let code := numberOfDigits 16 (← (List.replicate digits ()).mapM fun _ => next isHexDigit)
  if code.isValidChar then return Char.ofNat code else failure

/-- A character that is written with a backslash. -/
def escaped : Reader Char := do
  char '\\'
  match ← next fun _ => true with
  | 'b' => return '\x08'
  | 't' => return '\t'
  | 'n' => return '\n'
  | 'f' => return '\x0c'
  | 'r' => return '\r'
  | '"' => return '"'
  | '\\' => return '\\'
  | 'u' => codePoint 4
  | 'U' => codePoint 8
  | _ => failure

/-- A character between double quotes. -/
def basicChar : Reader Char := next (fun c => isPlain c && c ≠ '"' && c ≠ '\\') <|> escaped

/-- A character between single quotes. -/
def literalChar : Reader Char := next fun c => isPlain c && c ≠ '\''

def basic : Reader String := do
  char '"'
  let s ← many basicChar
  char '"'
  return String.ofList s

def literal : Reader String := do
  char '\''
  let s ← many literalChar
  char '\''
  return String.ofList s

/-- A backslash at the end of a line, which swallows all white space after it. -/
def continuation : Reader Unit := do
  char '\\'
  blanks
  newline
  discard (many (newline <|> discard (next isBlank)))

/-- A string on several lines. A line end right after the opening is dropped. One or two quotes
stand for themselves, also right before the closing. -/
def multiline (quote : Char) (content : Reader (List Char)) : Reader String := do
  let quotes := row (· == quote)
  text (String.ofList [quote, quote, quote])
  discard (attempt newline)
  let parts ← many <| content <|> (do newline; return ['\n']) <|> do
    let q ← quotes
    if 0 < q.length ∧ q.length < 3 then return q else failure
  let closing ← quotes
  if 3 ≤ closing.length ∧ closing.length ≤ 5 then
    return String.ofList (parts.flatten ++ closing.drop 3)
  else failure

def multilineBasic : Reader String :=
  multiline '"' ((do continuation; return []) <|> (do return [← basicChar]))

def multilineLiteral : Reader String :=
  multiline '\'' (do return [← literalChar])

/-- A string on one line, as a key may be written. -/
def line : Reader String := basic <|> literal

/-- A quoted string of any kind. -/
def string : Reader String := do
  if ← ahead ['"', '"', '"'] then multilineBasic
  else if ← ahead ['\'', '\'', '\''] then multilineLiteral
  else line

/-! ## Writing -/

/-- A control character that no string may hold unescaped. -/
def isControl (c : Char) : Bool := (c < ' ' && c ≠ '\t' && c ≠ '\n') || c = '\x7f'

/-- The length of the longest row of a character. -/
def longestRow (quote : Char) (s : List Char) : Nat :=
  (s.foldl (fun (here, longest) c =>
    let here := if c = quote then here + 1 else 0
    (here, max here longest)) (0, 0)).2

/-- The escape of a character that has a letter of its own. -/
def letterEscape? : Char → Option Char
  | '\x08' => some 'b'
  | '\t' => some 't'
  | '\n' => some 'n'
  | '\x0c' => some 'f'
  | '\r' => some 'r'
  | '"' => some '"'
  | '\\' => some '\\'
  | _ => none

def escape (c : Char) : List Char :=
  match letterEscape? c with
  | some e => ['\\', e]
  | none =>
    if isControl c then '\\' :: 'u' :: ((Nat.toDigits 16 c.toNat).map Char.toUpper).leftpad 4 '0'
    else [c]

/-- Text between double quotes that bears up to `allowed` of them in a row. On several lines a line
end stands for itself. `here` counts the quotes just written. -/
def escapeAll (multiline : Bool) (allowed : Nat) : (here : Nat) → List Char → List Char
  | _, [] => []
  | here, c :: s =>
    if c = '"' ∧ here < allowed then '"' :: escapeAll multiline allowed (here + 1) s
    else if c = '\n' ∧ multiline then '\n' :: escapeAll multiline allowed 0 s
    else escape c ++ escapeAll multiline allowed 0 s

/-- How a string is quoted. -/
inductive Style
  | basic | literal | multilineBasic | multilineLiteral
  deriving DecidableEq

/-- The first style that shows a string without escapes, in the order: double quotes, single quotes,
and the same two on several lines, where two quotes in a row may stand inside. If every style needs
escapes, double quotes, on several lines if the string has several. A tabulator is no reason to
turn to another style. -/
def Style.of (s : List Char) : Style :=
  let control := s.any isControl
  let newline := s.contains '\n'
  let backslash := s.contains '\\'
  let double := longestRow '"' s
  let single := longestRow '\'' s
  if !control && !backslash && double = 0 && !newline then .basic
  else if !control && single = 0 && !newline then .literal
  else if !control && !backslash && double ≤ 2 then .multilineBasic
  else if !control && single ≤ 2 then .multilineLiteral
  else if newline then .multilineBasic
  else .basic

/-- The quoted form of a string. -/
def write (s : String) : String :=
  let chars := s.toList
  let opening := if chars.contains '\n' then "\n" else ""
  match Style.of chars with
  | .basic => "\"" ++ String.ofList (escapeAll false 0 0 chars) ++ "\""
  | .literal => "'" ++ s ++ "'"
  | .multilineBasic =>
    "\"\"\"" ++ opening ++ String.ofList (escapeAll true 2 0 chars) ++ "\"\"\""
  | .multilineLiteral => "'''" ++ opening ++ s ++ "'''"

end Broadway.Toml.Quoted
