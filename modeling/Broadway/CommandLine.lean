import Broadway.Config
import Broadway.Files
import Broadway.Report
import Broadway.Worker

/-!
# The command line

The command takes the path of a guest memory image, the address of a function in it and the integer
arguments of a call, makes the call and reports how it ended. The order of what it does shows when
several things are wrong, or when the image is the log file: the number of arguments, the settings,
the log file, the numbers among the arguments, the image and the call.
-/

namespace Broadway.CommandLine

/-- Why there is nothing to report. -/
inductive Problem
  | usage
  | settings
  | notANumber (text : String)
  | unreadable (path : String)
  | call
  deriving DecidableEq

def Problem.message : Problem → String
  | .usage => "Usage: gekko-eval <ram-image> <entry> [gpr-arg ...]"
  | .settings => "Failed to load configuration"
  | .notANumber text => s!"'{text}' is not a 32-bit number"
  | .unreadable path => s!"Failed to read {path}"
  | .call => "Call failed"

/-! ## Numbers -/

/-- The word that digits of a base denote, behind a plus sign or not. -/
def wordOfDigits? (base : Nat) (digits : List Char) : Option Word :=
  let digits := if digits.head? = some '+' then digits.tail else digits
  let n := Toml.Quoted.numberOfDigits base digits
  if !digits.isEmpty && digits.all (Toml.Number.isDigitOf base) && n < 2 ^ 32 then
    some (BitVec.ofNat 32 n)
  else none

/-- The word that an argument denotes: hexadecimal digits behind a `0x`, or decimal ones. -/
def word? (text : String) : Option Word :=
  match text.toList with
  | '0' :: 'x' :: digits => wordOfDigits? 16 digits
  | '0' :: 'X' :: digits => wordOfDigits? 16 digits
  | digits => wordOfDigits? 10 digits

def word (text : String) : Except Problem Word :=
  match word? text with
  | some w => .ok w
  | none => .error (.notANumber text)

/-! ## Running -/

/-- Guest memory with an image at its start. It is as large as the settings ask for at least. -/
def load (c : Config) (image : ByteArray) : Ram :=
  let ram := Ram.ofBytes image
  if ram.size < c.ramSize then ram.resize c.ramSize else ram

/-- Makes a call into an image. -/
def callInto (c : Config) (image : ByteArray) (call : FunctionCall) :
    Except Problem Report.Item :=
  let worker := Worker.spawn (.initial (load c image) c.instructionLimit)
  match worker.call Interpreter.ample call with
  | some (_, .ok result) => .ok (Report.ofResult result)
  | some (_, .error _) | none => .error .call

/-- The call that the arguments after the image ask for. -/
def callOf (entry : String) (arguments : List String) : Except Problem FunctionCall := do
  return ⟨← word entry, ← arguments.mapM word, []⟩

/-- Runs the command under the settings: a report, or the reason why there is none. -/
def run {m : Type → Type} [Monad m] (files : FileAccess m) (settings : Except ConfigError Config) :
    (arguments : List String) → m (Except Problem Report.Item)
  | path :: entry :: arguments =>
    match settings with
    | .error _ => return .error .settings
    | .ok c => do
      if let some log := c.logFile? then files.create log
      match callOf entry arguments with
      | .error problem => return .error problem
      | .ok call =>
        match ← files.read ⟨path⟩ with
        | some image => return callInto c image call
        | none => return .error (.unreadable path)
  | _ => return .error .usage

end Broadway.CommandLine
