import LateBound.Session.Scope

/-!
# Actions on the session itself
-/

namespace LateBound

/-- Empty a runtime. What it referred to lives on as far as something else refers to it. -/
def Act.shutdown (b : Behaviour) (rt : RuntimeId) : Act Unit := do
  let r := (← world).runtimeAt rt
  (r.classes.map (·.2)).forM pin
  onWorld (·.mapRuntime rt fun r => .fresh r.settings)
  log .debug .runtime
    ("runtime shut down: " ++ toString r.classes.length ++ " class(es), " ++
      toString r.protocols.length ++ " protocol(s), " ++ toString r.pending.length ++
      " pending category(ies)")
  forEach (unpin b) (r.classes.map (·.2))

/-- The severity that a text names. -/
def Act.readSeverity (text : String) : Act Severity :=
  match Severity.parse? text with
  | some s => return s
  | none => Act.refuse (.unknownSeverity text)

open Act in
def SessionAction.perform (b : Behaviour) (scope : Scope) : SessionAction → Act Answer
  | .newRuntime name limit eager severity => do
    let d := Settings.default
    let settings : Settings :=
      ⟨limit.getD d.maxForwardingDepth, eager.getD d.eagerTables, severity.bind Severity.parse?⟩
    let rt ← change (·.addRuntime settings)
    modify fun s => { s with runtimes := (name, rt) :: s.runtimes }
    return .nothing
  | .settings => do
    let rt ← stepRuntime scope
    return .settings ((← world).runtimeAt rt).settings
  | .debugText => do
    let rt ← stepRuntime scope
    let r := (← world).runtimeAt rt
    return .text ⟨r.debugText, r.lazy.debugText⟩
  | .shutdown => do
    Act.shutdown b (← stepRuntime scope)
    return .nothing
  | .threshold => return .text (← world).journal.threshold.name
  | .setThreshold text => do
    let s ← readSeverity text
    onWorld (·.setThreshold s)
    return .nothing
  | .note json => return .json json
  | .sleep => return .nothing
  | .depth => return .number (← world).thread.depth
  | .selectorHandle name => return .number? (((← world).selectors.lookup? ⟨name⟩).map Handle.code)
  | .selectorCount => return .number (← world).selectors.count

end LateBound
