import Broadway.Path
import Broadway.Toml.Document

/-!
# Settings

The settings stand in a TOML document of three sections. Everything has a default, so a section or
a setting may be missing, and what is unknown is passed over; what is known must be of the right
type and in range. A section may also list its settings in order. `toText` writes all settings in a
fixed form, which `ofText?` reads back.
-/

namespace Broadway

/-- The size of guest memory unless the settings say otherwise, in bytes. -/
def defaultRamSize : Nat := 0x01800000

/-- How often a worker looks for requests unless the settings say otherwise, in milliseconds. -/
def defaultPollInterval : Nat := 100

inductive LogLevel
  | off | error | warn | info | debug | trace
  deriving DecidableEq

namespace LogLevel

def all : List LogLevel := [.off, .error, .warn, .info, .debug, .trace]

def name : LogLevel → String
  | .off => "off"
  | .error => "error"
  | .warn => "warn"
  | .info => "info"
  | .debug => "debug"
  | .trace => "trace"

def ofName? (name : String) : Option LogLevel := all.find? (·.name = name)

theorem ofName?_name (l : LogLevel) : ofName? l.name = some l := by
  cases l <;> decide

end LogLevel

structure Config where
  /-- How often a worker looks for requests, in milliseconds. -/
  pollInterval : Nat := defaultPollInterval
  /-- How many instructions a call may execute, zero standing for no limit. -/
  instructionLimit : Nat := 0
  traceInstructions : Bool := false
  /-- The least size of guest memory, in bytes. -/
  ramSize : Nat := defaultRamSize
  logLevel : LogLevel := .info
  logToFile : Bool := false
  logPath : Path := ⟨"gekko-eval.log"⟩
  deriving DecidableEq

/-- Why there are no settings. -/
inductive ConfigError
  /-- There is no file. -/
  | missing
  /-- The text is no document, or a setting is of the wrong type or out of range. -/
  | malformed
  deriving DecidableEq

def ConfigError.message : ConfigError → String
  | .missing => "Config I/O error: No such file or directory (os error 2)"
  | .malformed => "Failed to parse config"

namespace Config

/-- Whether two settings say the same, though they may spell a path differently. -/
def agrees (c d : Config) : Bool :=
  c.logPath.agrees d.logPath && { c with logPath := d.logPath } = d

/-! ## Reading -/

open Toml (Value)

def boolean? : Value → Option Bool
  | .boolean b => some b
  | _ => none

def path? : Value → Option Path
  | .string s => some ⟨s⟩
  | _ => none

/-- A whole number of at most so many bits. -/
def natural? (bits : Nat) : Value → Option Nat
  | .integer n => if 0 ≤ n ∧ n < 2 ^ bits then some n.toNat else none
  | _ => none

/-- A level is named by a string, or by the only key of a table that says no more about it. -/
def logLevel? : Value → Option LogLevel
  | .string s => LogLevel.ofName? s
  | .table [(name, v)] => if v.isEmpty then LogLevel.ofName? name else none
  | _ => none

/-- The settings of a section, by their names. An array gives them in order, and a moment gives
none. -/
def section? (names : List String) : Value → Option (List (String × Value))
  | .table entries => some entries
  | .array items => some (names.zip items)
  | .moment => some []
  | _ => none

/-- The section of a name, which has no settings if it is missing. -/
def sectionOf (document : List (String × Value)) (name : String) (names : List String) :
    Option (List (String × Value)) :=
  match document.lookup name with
  | some v => section? names v
  | none => some []

/-- A setting of a section, or its default. -/
def setting {α : Type} (entries : List (String × Value)) (name : String) (read : Value → Option α)
    (default : α) : Option α :=
  match entries.lookup name with
  | some v => read v
  | none => some default

def ofValue? : Value → Option Config
  | .table document => do
    let interpreter ← sectionOf document "interpreter"
      ["poll_interval_ms", "instruction_limit", "trace_instructions"]
    let memory ← sectionOf document "memory" ["ram_size"]
    let debug ← sectionOf document "debug" ["log_level", "log_to_file", "log_path"]
    let default : Config := {}
    return {
      pollInterval := ← setting interpreter "poll_interval_ms" (natural? 64) default.pollInterval
      instructionLimit :=
        ← setting interpreter "instruction_limit" (natural? 64) default.instructionLimit
      traceInstructions :=
        ← setting interpreter "trace_instructions" boolean? default.traceInstructions
      ramSize := ← setting memory "ram_size" (natural? 32) default.ramSize
      logLevel := ← setting debug "log_level" logLevel? default.logLevel
      logToFile := ← setting debug "log_to_file" boolean? default.logToFile
      logPath := ← setting debug "log_path" path? default.logPath }
  | _ => none

/-- The settings in a text. -/
def ofText? (text : String) : Except ConfigError Config :=
  match Toml.parse? text >>= ofValue? with
  | some c => .ok c
  | none => .error .malformed

/-- The settings in a file, which must exist. -/
def ofFile? : Option String → Except ConfigError Config
  | some text => ofText? text
  | none => .error .missing

/-- The settings of a user. Without a file they are the defaults. -/
def ofUser? : Option String → Except ConfigError Config
  | some text => ofText? text
  | none => .ok {}

/-! ## Writing -/

def toText (c : Config) : String :=
  String.intercalate "\n" [
    "[interpreter]",
    s!"poll_interval_ms = {c.pollInterval}",
    s!"instruction_limit = {c.instructionLimit}",
    s!"trace_instructions = {c.traceInstructions}",
    "",
    "[memory]",
    s!"ram_size = {c.ramSize}",
    "",
    "[debug]",
    s!"log_level = {Toml.Quoted.write c.logLevel.name}",
    s!"log_to_file = {c.logToFile}",
    s!"log_path = {Toml.Quoted.write c.logPath.text}",
    ""]

/-! ## Files -/

/-- Where a user's settings are: below the directory for settings if an absolute one is given, and
else below the home directory. -/
def userPath? (configHome home : Option String) : Option Path :=
  let below (directory : String) : Path := ⟨directory ++ "/gekko-eval/config.toml"⟩
  match configHome, home with
  | some c, h => if c.startsWith "/" then some (below c) else h.map (below <| · ++ "/.config")
  | none, h => h.map (below <| · ++ "/.config")

/-- The file that the log goes to, if it goes to one. -/
def logFile? (c : Config) : Option Path :=
  if c.logToFile ∧ c.logLevel ≠ .off then some c.logPath else none

end Config

end Broadway
