import LateBound.Proofs.World.Parallels

/-!
# Worlds abreast

Linking and merging read the classes, the protocols and the settings of a runtime, but not what it has noted
of its categories. So two worlds that differ in that only, and in their journals, stay abreast when the same
classes are linked and the same categories merged in both.
-/

namespace LateBound

namespace World

/-- Worlds that agree in all but their journals and what their runtimes have noted of categories. -/
structure Abreast (w v : World) : Prop where
  rest : ∃ journal runtimes, v = { w with journal, runtimes }
  settings : ∀ q, (v.runtimeAt q).settings = (w.runtimeAt q).settings
  registered : ∀ q, (v.runtimeAt q).classes = (w.runtimeAt q).classes
  protocols : ∀ q, (v.runtimeAt q).protocols = (w.runtimeAt q).protocols

variable {w v u : World} {rt : RuntimeId} {c : ClassId} {d : CategoryDescriptor}

namespace Abreast

theorem refl (w : World) : w.Abreast w := ⟨⟨_, _, rfl⟩, fun _ => rfl, fun _ => rfl, fun _ => rfl⟩

theorem trans (h : w.Abreast v) (h' : v.Abreast u) : w.Abreast u := by
  obtain ⟨⟨journal, runtimes, rfl⟩, settings, registered, protocols⟩ := h
  obtain ⟨⟨journal', runtimes', rfl⟩, settings', registered', protocols'⟩ := h'
  exact ⟨⟨journal', runtimes', rfl⟩, fun q => (settings' q).trans (settings q),
    fun q => (registered' q).trans (registered q), fun q => (protocols' q).trans (protocols q)⟩

theorem symm (h : w.Abreast v) : v.Abreast w := by
  obtain ⟨⟨journal, runtimes, rfl⟩, settings, registered, protocols⟩ := h
  exact ⟨⟨w.journal, w.runtimes, rfl⟩, fun q => (settings q).symm, fun q => (registered q).symm,
    fun q => (protocols q).symm⟩

theorem log (w : World) (a : Severity) (b : Journal.Source) (t : String) : w.Abreast (w.log a b t) :=
  ⟨⟨_, _, rfl⟩, fun _ => rfl, fun _ => rfl, fun _ => rfl⟩

/-- What a runtime notes of its categories is no difference. -/
theorem mapRuntime (w : World) (q : RuntimeId) {f : RuntimeRecord → RuntimeRecord}
    (settings : ∀ r, (f r).settings = r.settings) (registered : ∀ r, (f r).classes = r.classes)
    (protocols : ∀ r, (f r).protocols = r.protocols) : w.Abreast (w.mapRuntime q f) := by
  have record (p : RuntimeId) : (w.mapRuntime q f).runtimeAt p = w.runtimeAt p ∨
      (w.mapRuntime q f).runtimeAt p = f (w.runtimeAt p) := by
    rw [runtimeAt_mapRuntime]
    split
    · exact Or.inr rfl
    · exact Or.inl rfl
  refine ⟨⟨_, _, rfl⟩, fun p => ?_, fun p => ?_, fun p => ?_⟩
  · rcases record p with same | same
    · rw [same]
    · rw [same, settings]
  · rcases record p with same | same
    · rw [same]
    · rw [same, registered]
  · rcases record p with same | same
    · rw [same]
    · rw [same, protocols]

theorem take (w : World) (rt : RuntimeId) (d : CategoryDescriptor) : w.Abreast (w.take rt d) :=
  .mapRuntime w rt (fun _ => rfl) (fun _ => rfl) fun _ => rfl

theorem release (w : World) (rt : RuntimeId) (d : CategoryDescriptor) : w.Abreast (w.release rt d) :=
  .mapRuntime w rt (fun _ => rfl) (fun _ => rfl) fun _ => rfl

theorem discard (w : World) (rt : RuntimeId) (d : CategoryDescriptor) (fault : Fault) :
    w.Abreast (w.discard rt d fault) :=
  (log ..).trans (release ..)

end Abreast

/-- Linking and merging do not tell worlds abreast apart. -/
theorem parallel_abreast : Parallel Abreast where
  classes h := by
    obtain ⟨journal, runtimes, rfl⟩ := h.rest
    rfl
  settings h := h.settings
  registered h := h.registered
  protocols h := h.protocols
  mapClass h c f := by
    obtain ⟨⟨journal, runtimes, rfl⟩, settings, registered, protocols⟩ := h
    exact ⟨⟨journal, runtimes, rfl⟩, settings, registered, protocols⟩
  addClass h r := by
    obtain ⟨⟨journal, runtimes, rfl⟩, settings, registered, protocols⟩ := h
    exact ⟨⟨journal, runtimes, rfl⟩, settings, registered, protocols⟩
  addObject h r := by
    obtain ⟨⟨journal, runtimes, rfl⟩, settings, registered, protocols⟩ := h
    exact ⟨rfl, ⟨journal, runtimes, rfl⟩, settings, registered, protocols⟩
  log h a b t := ((Abreast.log _ a b t).symm.trans h).trans (Abreast.log _ a b t)

namespace Abreast

variable (h : w.Abreast v)

include h

theorem classAt (c : ClassId) : v.classAt c = w.classAt c := parallel_abreast.classAt h c

theorem class? (q : RuntimeId) (name : String) : v.class? q name = w.class? q name := parallel_abreast.class? h q name

theorem members (q : RuntimeId) : v.members q = w.members q := by
  rw [World.members, World.members, h.registered]

theorem linkedTarget? (q : RuntimeId) (d : CategoryDescriptor) : v.linkedTarget? q d = w.linkedTarget? q d :=
  parallel_abreast.linkedTarget? h q d

theorem ancestry : w.SameAncestry v := parallel_abreast.ancestry h

theorem definition? (c : ClassId) (s : Selector) : v.definition? c s = w.definition? c s :=
  h.ancestry.definition? (fun d _ => by rw [h.classAt]) s

theorem lookup (c : ClassId) (s : Selector) : (v.lookup c s).1 = (w.lookup c s).1 :=
  (parallel_abreast.lookup h c s).1

end Abreast

end World

end LateBound
