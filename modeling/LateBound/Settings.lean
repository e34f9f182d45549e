import LateBound.Fault
import LateBound.Journal
import LateBound.Text.Number

/-!
# Settings of a runtime

How deep forwarding may nest, whether dispatch tables are rebuilt as soon as they are dropped, and the
journal threshold to set, if any. Settings are read from an environment of named values; the first
value that cannot be read is the fault.
-/

namespace LateBound

structure Settings where
  maxForwardingDepth : Nat
  eagerTables : Bool
  threshold : Option Severity
deriving DecidableEq, Repr

/-- Named values, some of which are set. -/
abbrev Environment := List (String × String)

namespace Settings

def default : Settings := ⟨32, false, none⟩

instance : Inhabited Settings := ⟨default⟩

def thresholdKey : String := "OXIFW_LOG"

def depthKey : String := "OXIFW_MAX_FORWARD_DEPTH"

def eagerKey : String := "OXIFW_EAGER_DTABLE"

/-- The depth is a number of thirty-two bits. -/
def readDepth? (s : String) : Option Nat := Text.readNat? (UInt32.size - 1) (Text.trim s)

def readSwitch? (s : String) : Option Bool :=
  match Text.lowerAscii (Text.trim s) with
  | "1" | "true" | "yes" | "on" => some true
  | "0" | "false" | "no" | "off" => some false
  | _ => none

/-- The value under a key, read if it is set; `d` if it is not. -/
def readOr (env : Environment) (key : String) (read? : String → Option α) (d : α) :
    Except Fault α :=
  match env.lookup key with
  | none => .ok d
  | some raw =>
    match read? raw with
    | some a => .ok a
    | none => .error (.invalidSetting key raw)

def ofEnvironment (env : Environment) : Except Fault Settings := do
  let threshold ← readOr env thresholdKey (fun s => (Severity.parse? s).map some) default.threshold
  let depth ← readOr env depthKey readDepth? default.maxForwardingDepth
  let eager ← readOr env eagerKey readSwitch? default.eagerTables
  return ⟨depth, eager, threshold⟩

/-- The threshold that an environment asks for; a text that names none is refused. -/
def thresholdOf (env : Environment) : Except String (Option Severity) :=
  match env.lookup thresholdKey with
  | none => .ok none
  | some raw =>
    match Severity.parse? raw with
    | some s => .ok (some s)
    | none => .error (Severity.refusal raw)

/-- The settings with tables built only when they are needed. -/
def lazy (s : Settings) : Settings := { s with eagerTables := false }

/-- The settings in the words of a report. -/
def debugText (s : Settings) : String :=
  let threshold := match s.threshold with
    | none => "None"
    | some t => "Some(" ++ t.debugText ++ ")"
  "RuntimeConfig \x7b max_forwarding_depth: " ++ toString s.maxForwardingDepth ++
    ", eager_dtable_rebuild: " ++ toString s.eagerTables ++ ", log_level: " ++ threshold ++ " \x7d"

end Settings

end LateBound
