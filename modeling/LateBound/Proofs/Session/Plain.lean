import LateBound.Proofs.World.Plain
import LateBound.Session.Bodies

/-!
# Sessions and reports without tables

What a session shows is told once as it is and once as if no table had ever been built: the text and the flags
of a class, how many tables were built, and when a runtime builds them. `plain` keeps the second of the two.
-/

namespace LateBound

/-- What is told of classes as if they had no tables. -/
def ClassInfo.plain (i : ClassInfo) : ClassInfo :=
  { i with debugText := i.debugText.plain, flags := i.flags.plain, builds := 0 }

mutual

def Answer.plain : Answer → Answer
  | .number n => .number n.plain
  | .text s => .text s.plain
  | .settings s => .settings s.lazy
  | .registered label flags found => .registered label flags.plain found
  | .classInfo i => .classInfo i.plain
  | .raced seen _ => .raced seen 0
  | .results rs => .results (StepResult.plainAll rs)
  | a => a

def StepResult.plain : StepResult → StepResult
  | .done a => .done a.plain
  | r => r

def StepResult.plainAll : List StepResult → List StepResult
  | [] => []
  | r :: rs => r.plain :: StepResult.plainAll rs

end

def Event.plain : Event → Event
  | .step r => .step r.plain
  | e => e

def StepReport.plain (r : StepReport) : StepReport where
  result := r.result.plain
  events := r.events.map Event.plain
  lines := Journal.withoutBuilds r.lines

/-- A handler without its steps. -/
def HandlerScript.bare (h : HandlerScript) : HandlerScript := { h with steps := [] }

/-- A session as if no table had ever been built. What handlers do and what the environment says are no part
of it. -/
def Session.plain (s : Session) : Session :=
  { s with
    world := s.world.plain
    environment := []
    handlers := s.handlers.map HandlerScript.bare
    events := s.events.map Event.plain }

namespace Session

variable (s : Session)

@[simp] theorem objectView_plain (o : ObjectId) : s.plain.objectView o = s.objectView o := by
  simp [objectView, plain, variablesOf]

/-- What is told of a class without tables. -/
theorem classInfo_plain (c : ClassId) : (s.plain.classInfo c).plain = (s.classInfo c).plain := by
  have world : s.plain.world = s.world.plain := rfl
  have label : s.world.plain.label = s.world.label := funext s.world.label_plain
  simp only [classInfo, ClassInfo.plain, toldFlags, world, World.classAt_plain, World.parent?_plain,
    World.instances?_plain, World.subclasses_plain, World.protocolAt_plain, label, ClassRecord.bared_bared,
    ClassRecord.name_bared, ClassRecord.isLinked_bared, ClassRecord.initialized_bared,
    ClassRecord.isMetaclass_bared, ClassRecord.superclassName?_bared, ClassRecord.metaclass?_bared,
    ClassRecord.instanceSize?_bared, ClassRecord.ivars_bared, ClassRecord.methods_bared,
    ClassRecord.properties_bared, ClassRecord.protocols_bared]

@[simp] theorem refersTo_plain (c : ClassId) : s.plain.refersTo c = s.refersTo c := by
  simp only [refersTo, plain, World.plain, Array.any_map]
  rfl

end Session

end LateBound
