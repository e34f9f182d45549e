import LateBound.Proofs.World.Tables
import LateBound.World.Instances

/-!
# Worlds without tables

`plain` forgets what a world has of dispatch tables: the tables, how many were built, the lines of the
journal that say so, and whether a runtime builds them at once. What a world is asked is mostly asked of
what is left, and what changes it mostly changes what is left.
-/

namespace LateBound

namespace Journal

/-- How a line begins that tells of a table that was built. -/
def building : List Char := "built dtable for ".toList

/-- Whether a line tells of a table that was built. -/
def Line.tellsBuild (l : Line) : Bool :=
  l.severity == .trace && l.source == .classes && building.isPrefixOf l.text.toList

/-- The lines but for those that tell of tables that were built. -/
def withoutBuilds (lines : List Line) : List Line := lines.filter fun l => !l.tellsBuild

def plain (j : Journal) : Journal := { j with lines := withoutBuilds j.lines }

theorem Line.tellsBuild_of_severity {a : Severity} (h : a ≠ .trace) (b : Source) (t : String) :
    (Line.mk a b t).tellsBuild = false := by
  simp [tellsBuild, h]

theorem Line.tellsBuild_built (t : String) :
    (Line.mk .trace .classes ("built dtable for " ++ t)).tellsBuild = true := by
  have begins : building.isPrefixOf ("built dtable for ".toList ++ t.toList) = true :=
    List.isPrefixOf_iff_prefix.mpr (List.prefix_append _ _)
  rw [← String.toList_append] at begins
  exact begins

theorem Line.tellsBuild_invalidated (t : String) :
    (Line.mk .trace .classes ("invalidated " ++ t)).tellsBuild = false := by
  have here : building = 'b' :: "uilt dtable for ".toList := by decide
  have there : "invalidated ".toList = 'i' :: "nvalidated ".toList := by decide
  simp only [tellsBuild, String.toList_append, here, there, List.cons_append, List.isPrefixOf]
  rfl

theorem plain_write {a : Severity} {b : Source} {t : String}
    (other : (Line.mk a b t).tellsBuild = false) (j : Journal) :
    (j.write a b t).plain = j.plain.write a b t := by
  have enabled : j.plain.enabled a = j.enabled a := rfl
  simp only [write, enabled]
  split
  · simp [plain, withoutBuilds, other]
  · rfl

/-- A line about a table that was built leaves no trace. -/
theorem plain_write_build {a : Severity} {b : Source} {t : String}
    (tells : (Line.mk a b t).tellsBuild = true) (j : Journal) : (j.write a b t).plain = j.plain := by
  simp only [write]
  split
  · simp [plain, withoutBuilds, tells]
  · rfl

@[simp] theorem plain_plain (j : Journal) : j.plain.plain = j.plain := by
  simp [plain, withoutBuilds]

end Journal

namespace ClassRecord

variable (r : ClassRecord)

@[simp] theorem name_bared : r.bared.name = r.name := rfl

@[simp] theorem link_bared : r.bared.link = r.link := rfl

@[simp] theorem methods_bared : r.bared.methods = r.methods := rfl

@[simp] theorem protocols_bared : r.bared.protocols = r.protocols := rfl

@[simp] theorem subclasses_bared : r.bared.subclasses = r.subclasses := rfl

@[simp] theorem initialized_bared : r.bared.initialized = r.initialized := rfl

@[simp] theorem alive_bared : r.bared.alive = r.alive := rfl

@[simp] theorem descriptor?_bared : r.bared.descriptor? = r.descriptor? := rfl

@[simp] theorem isMetaclass_bared : r.bared.isMetaclass = r.isMetaclass := rfl

@[simp] theorem isLinked_bared : r.bared.isLinked = r.isLinked := rfl

@[simp] theorem superclassName?_bared : r.bared.superclassName? = r.superclassName? := rfl

@[simp] theorem ivarDeclarations_bared : r.bared.ivarDeclarations = r.ivarDeclarations := rfl

@[simp] theorem protocolNames_bared : r.bared.protocolNames = r.protocolNames := rfl

@[simp] theorem properties_bared : r.bared.properties = r.properties := rfl

@[simp] theorem destructor?_bared : r.bared.destructor? = r.destructor? := rfl

@[simp] theorem instanceSize?_bared : r.bared.instanceSize? = r.instanceSize? := rfl

@[simp] theorem ivars_bared : r.bared.ivars = r.ivars := rfl

@[simp] theorem metaclass?_bared : r.bared.metaclass? = r.metaclass? := rfl

@[simp] theorem classObject?_bared : r.bared.classObject? = r.classObject? := rfl

@[simp] theorem instances?_bared : r.bared.instances? = r.instances? := rfl

@[simp] theorem label_bared : r.bared.label = r.label := rfl

@[simp] theorem keptParent?_bared : r.bared.keptParent? = r.keptParent? := rfl

@[simp] theorem bared_bared : r.bared.bared = r.bared := rfl

end ClassRecord

namespace RuntimeRecord

variable (r : RuntimeRecord)

@[simp] theorem classes_lazy : r.lazy.classes = r.classes := rfl

@[simp] theorem protocols_lazy : r.lazy.protocols = r.protocols := rfl

@[simp] theorem pending_lazy : r.lazy.pending = r.pending := rfl

@[simp] theorem taken_lazy : r.lazy.taken = r.taken := rfl

@[simp] theorem handler_lazy : r.lazy.handler = r.handler := rfl

@[simp] theorem maxForwardingDepth_lazy :
    r.lazy.settings.maxForwardingDepth = r.settings.maxForwardingDepth := rfl

@[simp] theorem lazy_lazy : r.lazy.lazy = r.lazy := rfl

end RuntimeRecord

/-- A change of one member of a family, seen through a map that it commutes with. -/
theorem map_modify {α β : Type} {f : α → α} {g : α → β} {h : β → β} (commute : ∀ a, g (f a) = h (g a))
    (as : Array α) (i : Nat) : (as.modify i f).map g = (as.map g).modify i h := by
  refine Array.ext (by simp) fun j hj hj' => ?_
  simp only [Array.getElem_map, Array.getElem_modify]
  split
  · exact commute _
  · rfl

/-- A change of one member of a family that a map does not see. -/
theorem map_modify_unseen {α β : Type} {f : α → α} {g : α → β} (unseen : ∀ a, g (f a) = g a)
    (as : Array α) (i : Nat) : (as.modify i f).map g = as.map g := by
  refine Array.ext (by simp) fun j hj hj' => ?_
  simp only [Array.getElem_map, Array.getElem_modify]
  split
  · exact unseen _
  · rfl

namespace World

/-- The world as if no table had ever been built, and none were ever built at once. -/
def plain (w : World) : World :=
  { w with
    journal := w.journal.plain
    runtimes := w.runtimes.map RuntimeRecord.lazy
    classes := w.classes.map ClassRecord.bared }

variable (w : World) (c : ClassId) (o : ObjectId) (rt : RuntimeId)

@[simp] theorem plain_plain : w.plain.plain = w.plain := by
  simp only [plain, Journal.plain_plain, Array.map_map]
  congr 1

@[simp] theorem size_plain : w.plain.classes.size = w.classes.size := by simp [plain]

@[simp] theorem classAt_plain : w.plain.classAt c = (w.classAt c).bared := by
  simp only [classAt, plain, Array.getElem?_map]
  cases w.classes[c.index]? <;> rfl

@[simp] theorem runtimeAt_plain : w.plain.runtimeAt rt = (w.runtimeAt rt).lazy := by
  simp only [runtimeAt, plain, Array.getElem?_map]
  cases w.runtimes[rt.index]? <;> rfl

theorem sameAncestry_plain : w.SameAncestry w.plain :=
  ⟨w.size_plain, fun c => by simp, fun c => by simp, fun c => by simp⟩

@[simp] theorem isAlive_plain : w.plain.isAlive c = w.isAlive c := w.sameAncestry_plain.isAlive c

@[simp] theorem parent?_plain : w.plain.parent? c = w.parent? c := w.sameAncestry_plain.parent? c

@[simp] theorem chain_plain : w.plain.chain c = w.chain c := w.sameAncestry_plain.chain c

@[simp] theorem subclasses_plain : w.plain.subclasses c = w.subclasses c := w.sameAncestry_plain.listed c

@[simp] theorem descendants_plain : w.plain.descendants c = w.descendants c :=
  w.sameAncestry_plain.descendants c

@[simp] theorem isSubclassOf_plain (d : ClassId) : w.plain.isSubclassOf c d = w.isSubclassOf c d := by
  simp [isSubclassOf]

@[simp] theorem instances?_plain : w.plain.instances? c = w.instances? c := by
  have alive : w.plain.isAlive = w.isAlive := funext w.isAlive_plain
  simp [instances?, alive]

@[simp] theorem behind?_plain : w.plain.behind? c = w.behind? c := by simp [behind?]

@[simp] theorem ivar?_plain (name : String) : w.plain.ivar? c name = w.ivar? c name := by simp [ivar?]

@[simp] theorem property?_plain (name : String) : w.plain.property? c name = w.property? c name := by
  simp [property?]

@[simp] theorem ownMethod?_plain (s : Selector) : w.plain.ownMethod? c s = w.ownMethod? c s := by
  simp [ownMethod?]

@[simp] theorem definition?_plain (s : Selector) : w.plain.definition? c s = w.definition? c s := by
  simp [definition?]

@[simp] theorem signature?_plain (s : Selector) : w.plain.signature? c s = w.signature? c s := by
  simp [signature?]

@[simp] theorem label_plain : w.plain.label c = w.label c := by simp [label]

@[simp] theorem objectAt_plain : w.plain.objectAt o = w.objectAt o := rfl

@[simp] theorem protocolAt_plain (p : ProtocolId) : w.plain.protocolAt p = w.protocolAt p := rfl

@[simp] theorem thread_plain : w.plain.thread = w.thread := rfl

@[simp] theorem isa_plain : w.plain.isa o = w.isa o := rfl

@[simp] theorem className_plain : w.plain.className o = w.className o := by simp [className]

@[simp] theorem standsFor?_plain : w.plain.standsFor? o = w.standsFor? o := by simp [standsFor?]

@[simp] theorem isKindOf_plain : w.plain.isKindOf o c = w.isKindOf o c := by simp [isKindOf]

@[simp] theorem classObjectOf_plain : w.plain.classObjectOf c = w.classObjectOf c := by
  simp [classObjectOf]

@[simp] theorem class?_plain (name : String) : w.plain.class? rt name = w.class? rt name := by
  simp [class?]

@[simp] theorem classOf_plain (name : String) : w.plain.classOf rt name = w.classOf rt name := by
  simp [classOf]

@[simp] theorem protocol?_plain (name : String) : w.plain.protocol? rt name = w.protocol? rt name := by
  simp [protocol?]

@[simp] theorem protocolOf_plain (name : String) : w.plain.protocolOf rt name = w.protocolOf rt name := by
  simp [protocolOf]

@[simp] theorem classNames_plain : w.plain.classNames rt = w.classNames rt := by simp [classNames]

@[simp] theorem protocolNames_plain : w.plain.protocolNames rt = w.protocolNames rt := by
  simp [protocolNames]

@[simp] theorem adoptionsFrom_plain (n : Nat) (met : List ProtocolId) (p : ProtocolId) :
    w.plain.adoptionsFrom n met p = w.adoptionsFrom n met p := by
  induction n generalizing met p with
  | zero => rfl
  | succ n ih =>
    have below : w.plain.adoptionsFrom n = w.adoptionsFrom n := funext fun met => funext (ih met)
    simp only [adoptionsFrom, protocolAt_plain, below]

@[simp] theorem adoptions_plain (p : ProtocolId) : w.plain.adoptions p = w.adoptions p :=
  w.adoptionsFrom_plain w.protocols.size [] p

@[simp] theorem conforms_plain (p q : ProtocolId) : w.plain.conforms p q = w.conforms p q := by
  simp [conforms]

@[simp] theorem classConforms_plain (q : ProtocolId) : w.plain.classConforms c q = w.classConforms c q := by
  simp [classConforms]

@[simp] theorem allRequired_plain (p : ProtocolId) : w.plain.allRequired p = w.allRequired p := by
  simp [allRequired]

@[simp] theorem registeredDescriptor?_plain (name : String) :
    w.plain.registeredDescriptor? rt name = w.registeredDescriptor? rt name := by
  simp [registeredDescriptor?]

@[simp] theorem protocolsOf_plain (owner : String) (names : List String) :
    w.plain.protocolsOf rt owner names = w.protocolsOf rt owner names := by
  induction names with
  | nil => rfl
  | cons name names ih => simp only [protocolsOf, protocol?_plain, ih]

@[simp] theorem linkedTarget?_plain (d : CategoryDescriptor) :
    w.plain.linkedTarget? rt d = w.linkedTarget? rt d := by
  simp [linkedTarget?]

@[simp] theorem linkedCount_plain : w.plain.linkedCount rt = w.linkedCount rt := by simp [linkedCount]

@[simp] theorem layoutOf_plain (superclass : Option ClassId) :
    w.plain.layoutOf c superclass = w.layoutOf c superclass := by
  cases superclass <;> simp [layoutOf]

@[simp] theorem scalarIvar_plain (name : String) (t : ScalarType) :
    w.plain.scalarIvar o name t = w.scalarIvar o name t := by
  simp [scalarIvar, ivarOf]

@[simp] theorem referenceIvar_plain (name : String) :
    w.plain.referenceIvar o name = w.referenceIvar o name := by
  simp [referenceIvar, ivarOf]

@[simp] theorem getScalar_plain (name : String) (t : ScalarType) :
    w.plain.getScalar o name t = w.getScalar o name t := by
  simp [getScalar]

@[simp] theorem getReference_plain (name : String) :
    w.plain.getReference o name = w.getReference o name := by
  simp [getReference]

theorem plain_mapClass {f : ClassRecord → ClassRecord} (h : ∀ r, (f r).bared = f r.bared) :
    (w.mapClass c f).plain = w.plain.mapClass c f := by
  simp only [plain, mapClass, map_modify h]

theorem plain_mapClass_unseen {f : ClassRecord → ClassRecord} (h : ∀ r, (f r).bared = r.bared) :
    (w.mapClass c f).plain = w.plain := by
  simp only [plain, mapClass, map_modify_unseen h]

theorem plain_mapRuntime {f : RuntimeRecord → RuntimeRecord} (h : ∀ r, (f r).lazy = f r.lazy) :
    (w.mapRuntime rt f).plain = w.plain.mapRuntime rt f := by
  simp only [plain, mapRuntime, map_modify h]

theorem plain_addClass (r : ClassRecord) :
    w.plain.addClass r.bared = ((w.addClass r).1, (w.addClass r).2.plain) := by
  simp [addClass, plain]

theorem plain_addObject (r : ObjectRecord) :
    w.plain.addObject r = ((w.addObject r).1, (w.addObject r).2.plain) := rfl

theorem plain_log {a : Severity} {b : Journal.Source} {t : String}
    (other : (Journal.Line.mk a b t).tellsBuild = false) :
    (w.log a b t).plain = w.plain.log a b t := by
  simp only [plain, log, Journal.plain_write other]

theorem plain_debug (b : Journal.Source) (t : String) :
    (w.log .debug b t).plain = w.plain.log .debug b t :=
  w.plain_log (Journal.Line.tellsBuild_of_severity (a := .debug) nofun b t)

theorem plain_setThreshold (s : Severity) : (w.setThreshold s).plain = w.plain.setThreshold s := rfl

theorem plain_internAll (ss : List Selector) : (w.internAll ss).plain = w.plain.internAll ss := by
  induction ss generalizing w with
  | nil => rfl
  | cons s ss ih => exact ih (w.intern s)

end World

end LateBound
