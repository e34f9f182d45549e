import LateBound.Text.Blank
import LateBound.Text.Rows

/-!
# The journal

Lines are written with a severity and kept only if the severity is at or above the journal's threshold
at that moment. A line remembers its severity and the part of the world that wrote it; how it looks is
settled when it is read, and a line whose text has line ends in it is shown in several rows.
-/

namespace LateBound

inductive Severity where
  | error
  | warn
  | info
  | debug
  | trace
deriving DecidableEq, Repr, Inhabited

namespace Severity

/-- From the gravest, zero, to the least grave. -/
def rank : Severity → Nat
  | error => 0
  | warn => 1
  | info => 2
  | debug => 3
  | trace => 4

def name : Severity → String
  | error => "ERROR"
  | warn => "WARN"
  | info => "INFO"
  | debug => "DEBUG"
  | trace => "TRACE"

/-- The severity in the words of a report. -/
def debugText : Severity → String
  | error => "Error"
  | warn => "Warn"
  | info => "Info"
  | debug => "Debug"
  | trace => "Trace"

def color : Severity → String
  | error => "\x1b[31m"
  | warn => "\x1b[33m"
  | info => "\x1b[32m"
  | debug => "\x1b[36m"
  | trace => "\x1b[35m"

def all : List Severity := [error, warn, info, debug, trace]

/-- A severity by name, in any ASCII case and between blanks. -/
def parse? (s : String) : Option Severity :=
  match Text.upperAscii (Text.trim s) with
  | "ERROR" => some error
  | "WARN" | "WARNING" => some warn
  | "INFO" => some info
  | "DEBUG" => some debug
  | "TRACE" => some trace
  | _ => none

/-- What is said about a text that names no severity. -/
def refusal (s : String) : String := "invalid log level: " ++ s

end Severity

namespace Journal

/-- The part of the world that writes a line. -/
inductive Source where
  | runtime
  | fault
  | classes
  | linking
  | categories
  | protocols
  | dispatch
  | forwarding
  | objects
  | pools
deriving DecidableEq, Repr

/-- The name under which a part writes. -/
def Source.target : Source → String
  | runtime => "oxifw::runtime"
  | fault => "oxifw::error"
  | classes => "oxifw::runtime::class"
  | linking => "oxifw::runtime::link"
  | categories => "oxifw::runtime::category"
  | protocols => "oxifw::runtime::protocol"
  | dispatch => "oxifw::runtime::dispatch"
  | forwarding => "oxifw::runtime::forwarding"
  | objects => "oxifw::runtime::object"
  | pools => "oxifw::runtime::autorelease"

structure Line where
  severity : Severity
  source : Source
  text : String
deriving DecidableEq, Repr

/-- The line as it is written: the severity in its color, the target and the text. -/
def Line.render (l : Line) : String :=
  l.severity.color ++ "[" ++ l.severity.name ++ "]\x1b[0m " ++ l.source.target ++ ": " ++ l.text

/-- The rows that the line fills where it is shown. -/
def Line.rows (l : Line) : List String := Text.rows l.render

end Journal

structure Journal where
  threshold : Severity
  /-- The lines kept, latest first. -/
  lines : List Journal.Line
deriving DecidableEq, Repr

namespace Journal

def empty : Journal := ⟨.warn, []⟩

instance : Inhabited Journal := ⟨empty⟩

def enabled (j : Journal) (s : Severity) : Bool := s.rank ≤ j.threshold.rank

def write (j : Journal) (severity : Severity) (source : Source) (text : String) : Journal :=
  if j.enabled severity then { j with lines := ⟨severity, source, text⟩ :: j.lines } else j

def setThreshold (j : Journal) (s : Severity) : Journal := { j with threshold := s }

/-- The rows of all lines, in the order of writing. -/
def rows (j : Journal) : List String := j.lines.reverse.flatMap Line.rows

end Journal

end LateBound
