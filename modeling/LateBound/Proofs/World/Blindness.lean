import LateBound.Proofs.World.Passes
import LateBound.Proofs.World.Plain

/-!
# Changes that no table matters to

What registers, links, merges and edits neither reads a table nor counts one: done to a world without
tables, it leaves what it would have left otherwise, without the tables.
-/

namespace LateBound

namespace Edit

/-- What the edit does without tables is what it does otherwise, but for the tables. -/
def Blind (e : Edit α) : Prop := ∀ w, e.run.run w.plain = Prod.map id World.plain (e.run.run w)

theorem Blind.pure (a : α) : Blind (Pure.pure a : Edit α) := fun _ => rfl

theorem Blind.throw (fault : Fault) : Blind (throw fault : Edit α) := fun _ => rfl

theorem Blind.change {f : World → World} (h : ∀ w, f w.plain = (f w).plain) :
    Blind (modify f : Edit Unit) := by
  intro w
  have ran (v : World) : (modify f : Edit Unit).run.run v = (.ok (), f v) := rfl
  rw [ran, ran, h]
  rfl

theorem Blind.bind {e : Edit α} {f : α → Edit β} (first : e.Blind) (second : ∀ a, (f a).Blind) :
    (e >>= f).Blind := by
  intro w
  rw [run_bind, run_bind, first w]
  rcases e.run.run w with ⟨fault | a, w'⟩
  · rfl
  · exact second a w'

theorem Blind.forM {f : α → Edit Unit} (each : ∀ a, (f a).Blind) (as : List α) : (as.forM f).Blind := by
  induction as with
  | nil => exact .pure ()
  | cons a as ih => exact (each a).bind fun _ => ih

theorem Blind.atomic {f : World → Except Fault (α × World)}
    (h : ∀ w, f w.plain = (f w).map (Prod.map id World.plain)) : (Edit.atomic f).Blind := by
  intro w
  rw [run_atomic, run_atomic, h w]
  rcases f w with fault | ⟨a, w'⟩ <;> rfl

end Edit

namespace World

/-- A result without the tables of the world that comes with it. -/
def plainly {α : Type} (r : Except Fault (α × World)) : Except Fault (α × World) :=
  r.map (Prod.map id plain)

variable (w : World) (rt : RuntimeId) (c : ClassId)

theorem plain_drop : (w.drop c).plain = w.plain := by
  rw [drop, plain_mapClass_unseen]
  exact fun _ => rfl

theorem plain_build : (w.build c).plain = w.plain := by
  rw [build, plain_mapClass_unseen]
  · simp only [plain, log, String.append_assoc, Journal.plain_write_build (Journal.Line.tellsBuild_built _)]
  · exact fun _ => rfl

theorem plain_prepare : (w.prepare c).plain = w.plain := by
  simp only [prepare]
  split
  · exact w.plain_build c
  · rfl

theorem plain_foldl {f : World → ClassId → World} (unseen : ∀ w c, (f w c).plain = w.plain)
    (cs : List ClassId) :
    (cs.foldl f w).plain = w.plain := by
  induction cs generalizing w with
  | nil => rfl
  | cons c cs ih => exact (ih (f w c)).trans (unseen w c)

/-- Where there is no table, none can be dropped. -/
theorem drop_plain : w.plain.drop c = w.plain := by
  have seen : (w.drop c).plain = w.plain.drop c := w.plain_mapClass c fun _ => rfl
  exact seen.symm.trans (w.plain_drop c)

theorem foldl_drop_plain (cs : List ClassId) : cs.foldl drop w.plain = w.plain := by
  induction cs with
  | nil => rfl
  | cons c cs ih => rw [List.foldl_cons, drop_plain, ih]

/-- Tables that are built again at once are tables, too. -/
theorem plain_invalidate : (w.invalidate rt c).plain = w.plain.invalidate rt c := by
  have dropped : ((w.descendants c).foldl drop w).plain = w.plain := w.plain_foldl plain_drop _
  have named : (((w.descendants c).foldl drop w).classAt c).name = (w.plain.classAt c).name := by
    rw [← dropped, classAt_plain, ClassRecord.name_bared]
  have lazily (v : World) (t : String) :
      ((v.plain.log .trace .classes t).runtimeAt rt).settings.eagerTables = false := by
    have same : (v.plain.log .trace .classes t).runtimeAt rt = (v.runtimeAt rt).lazy := v.runtimeAt_plain rt
    rw [same]
    rfl
  have logged (n name : String) : (((w.descendants c).foldl drop w).log .trace .classes
      ("invalidated " ++ n ++ " dtable(s) under " ++ name)).plain =
      w.plain.log .trace .classes ("invalidated " ++ n ++ " dtable(s) under " ++ name) := by
    rw [plain_log _ (by simp only [String.append_assoc, Journal.Line.tellsBuild_invalidated]), dropped]
  simp only [invalidate, descendants_plain, foldl_drop_plain, named, lazily]
  rw [← logged]
  split
  · exact plain_foldl _ plain_prepare _
  · rfl

theorem registerClass_plain (d : ClassDescriptor) :
    w.plain.registerClass rt d = plainly (w.registerClass rt d) := by
  simp only [registerClass, class?_plain]
  cases w.class? rt d.name with
  | some c =>
    simp only [classAt_plain, ClassRecord.descriptor?_bared]
    split <;> rfl
  | none =>
    cases d.check with
    | error fault => rfl
    | ok u =>
      have added : w.plain.addClass (.ofDescriptor d) =
          ((w.addClass (.ofDescriptor d)).1, (w.addClass (.ofDescriptor d)).2.plain) :=
        w.plain_addClass (.ofDescriptor d)
      simp only [bind, Except.bind, pure, Except.pure, plainly, Except.map, Prod.map, id, plain_debug]
      rw [plain_mapRuntime]
      · rw [added]
      · exact fun _ => rfl

theorem addSubclass_plain (sub : ClassId) :
    w.plain.addSubclass c sub = (w.addSubclass c sub).plain := by
  have seen : (w.addSubclass c sub).plain = w.plain.addSubclass c sub := w.plain_mapClass c fun _ => rfl
  exact seen.symm

theorem metaclassRecord_plain (superclass : Option ClassId) :
    w.plain.metaclassRecord c superclass = (w.metaclassRecord c superclass).bared := by
  simp only [metaclassRecord, classAt_plain, ClassRecord.metaclass?_bared]
  rfl

theorem establish_plain (superclass : Option ClassId) (layout : Layout) (protocols : List ProtocolId) :
    w.plain.establish c superclass layout protocols = (w.establish c superclass layout protocols).plain := by
  simp only [establish, metaclassRecord_plain, plain_addClass, classAt_plain, ClassRecord.metaclass?_bared,
    addSubclass_plain]
  cases superclass with
  | none =>
    simp only [Option.bind_none, plain_addObject]
    rw [plain_mapClass]
    exact fun _ => rfl
  | some s =>
    simp only [Option.bind_some]
    cases ((w.addClass (w.metaclassRecord c (some s))).2.classAt s).metaclass? with
    | none =>
      simp only [addSubclass_plain, plain_addObject]
      rw [plain_mapClass]
      exact fun _ => rfl
    | some above =>
      simp only [addSubclass_plain, plain_addObject]
      rw [plain_mapClass]
      exact fun _ => rfl

theorem finishLink_plain (superclass : Option ClassId) :
    w.plain.finishLink rt c superclass = plainly (w.finishLink rt c superclass) := by
  simp only [finishLink, layoutOf_plain, classAt_plain, ClassRecord.name_bared, ClassRecord.protocolNames_bared,
    protocolsOf_plain]
  cases w.layoutOf c superclass with
  | error fault => rfl
  | ok layout =>
    cases w.protocolsOf rt (w.classAt c).name (w.classAt c).protocolNames with
    | error fault => rfl
    | ok protocols =>
      simp only [bind, Except.bind, pure, Except.pure, plainly, Except.map, Prod.map, id, ← plain_debug,
        establish_plain]

theorem blind_linkFrom (fuel : Nat) (visiting : List String) : (linkFrom rt fuel visiting c).Blind := by
  induction fuel generalizing visiting c with
  | zero =>
    intro w
    simp only [linkFrom, Edit.run_get_bind, classAt_plain, ClassRecord.name_bared]
    rfl
  | succ fuel ih =>
    intro w
    simp only [run_linkFrom, classAt_plain, class?_plain, ClassRecord.name_bared,
      ClassRecord.isLinked_bared, ClassRecord.superclassName?_bared]
    split
    · rfl
    · split
      · rfl
      · split
        · exact Edit.Blind.atomic (fun w => w.finishLink_plain rt c none) w
        · split
          · rfl
          · exact ((ih _ _).bind fun _ => .atomic fun w => w.finishLink_plain rt c _) w

theorem blind_linkOne : (linkOne rt c).Blind := by
  intro w
  rw [linkOne, Edit.run_get_bind, Edit.run_get_bind, size_plain]
  exact blind_linkFrom rt c _ _ w

theorem linkEach_plain (cs : List ClassId) :
    w.plain.linkEach rt cs = Prod.map id plain (w.linkEach rt cs) := by
  induction cs generalizing w with
  | nil => rfl
  | cons c cs ih =>
    simp only [linkEach, blind_linkOne rt c w]
    rcases (linkOne rt c).run.run w with ⟨fault | u, w'⟩
    · simp only [Prod.map, id, classAt_plain, ClassRecord.name_bared, ← plain_debug, ih]
    · exact ih w'

theorem replaceMethod_plain (m : Method) :
    w.plain.replaceMethod rt c m = plainly (w.replaceMethod rt c m) := by
  simp only [replaceMethod, classAt_plain, ClassRecord.methods_bared, ClassRecord.name_bared]
  cases m.check with
  | error fault => rfl
  | ok u =>
    simp only [bind, Except.bind, pure, Except.pure, plainly, Except.map, Prod.map, id, plain_invalidate,
      plain_debug]
    rw [plain_mapClass]
    exact fun _ => rfl

theorem replaceClassMethod_plain (m : Method) :
    w.plain.replaceClassMethod rt c m = plainly (w.replaceClassMethod rt c m) := by
  simp only [replaceClassMethod, classAt_plain, ClassRecord.metaclass?_bared, ClassRecord.name_bared]
  split
  · exact w.replaceMethod_plain rt _ m
  · rfl

theorem addMethod_plain (m : Method) : w.plain.addMethod rt c m = plainly (w.addMethod rt c m) := by
  simp only [addMethod, classAt_plain, ClassRecord.methods_bared, ClassRecord.name_bared]
  cases m.check with
  | error fault => rfl
  | ok u =>
    simp only [bind, Except.bind, pure, Except.pure]
    split
    · rfl
    · simp only [plainly, Except.map, Prod.map, id, plain_invalidate, plain_debug]
      rw [plain_mapClass]
      exact fun _ => rfl

theorem extended_plain (m : ClassId) (d : CategoryDescriptor) (protocols : List ProtocolId) :
    w.plain.extended c m d protocols = (w.extended c m d protocols).plain := by
  rw [extended, extended, plain_mapClass, plain_mapClass, plain_mapClass]
  · exact fun _ => rfl
  · exact fun _ => rfl
  · exact fun _ => rfl

theorem mergeCategory_plain (d : CategoryDescriptor) :
    w.plain.mergeCategory rt c d = plainly (w.mergeCategory rt c d) := by
  simp only [mergeCategory, protocolsOf_plain, classAt_plain, ClassRecord.metaclass?_bared,
    ClassRecord.name_bared]
  cases w.protocolsOf rt d.label d.protocols with
  | error fault => rfl
  | ok protocols =>
    cases (w.classAt c).metaclass? with
    | none => rfl
    | some m =>
      have edited := w.extended_plain c m d protocols
      simp only [extended] at edited
      simp only [bind, Except.bind, pure, Except.pure, plainly, Except.map, Prod.map, id, plain_debug, edited]
      split <;> simp only [plain_invalidate]

theorem take_plain (d : CategoryDescriptor) : w.plain.take rt d = (w.take rt d).plain := by
  have seen : (w.take rt d).plain = w.plain.take rt d := w.plain_mapRuntime rt fun _ => rfl
  exact seen.symm

theorem release_plain (d : CategoryDescriptor) : w.plain.release rt d = (w.release rt d).plain := by
  have seen : (w.release rt d).plain = w.plain.release rt d := w.plain_mapRuntime rt fun _ => rfl
  exact seen.symm

theorem registerCategory_plain (d : CategoryDescriptor) :
    w.plain.registerCategory rt d = plainly (w.registerCategory rt d) := by
  simp only [registerCategory, runtimeAt_plain, RuntimeRecord.taken_lazy, linkedTarget?_plain]
  cases d.check with
  | error fault => rfl
  | ok u =>
    simp only [bind, Except.bind, pure, Except.pure]
    split
    · rfl
    · split
      · rename_i c target
        rw [mergeCategory_plain]
        rcases w.mergeCategory rt c d with fault | ⟨u, w'⟩
        · rfl
        · simp only [plainly, Except.map, Prod.map, id, take_plain]
      · simp only [plainly, Except.map, Prod.map, id, ← plain_debug, take_plain]
        rw [plain_mapRuntime]
        exact fun _ => rfl

theorem mergeEach_plain (ds : List CategoryDescriptor) :
    w.plain.mergeEach rt ds = Prod.map id (Prod.map id plain) (w.mergeEach rt ds) := by
  induction ds generalizing w with
  | nil => rfl
  | cons d ds ih =>
    simp only [mergeEach, linkedTarget?_plain]
    cases w.linkedTarget? rt d with
    | none =>
      simp only [Option.elim_none, ih]
      rfl
    | some c =>
      simp only [Option.elim_some, mergeCategory_plain]
      rcases w.mergeCategory rt c d with fault | ⟨u, w'⟩
      · simp only [plainly, Except.map, ← plain_debug, release_plain, ih]
        rfl
      · simp only [plainly, Except.map, Prod.map, id, ih]

theorem mergePending_plain :
    w.plain.mergePending rt = Prod.map id (Prod.map id plain) (w.mergePending rt) := by
  have ready : w.plain.linkedTarget? rt = w.linkedTarget? rt := funext fun d => w.linkedTarget?_plain rt d
  simp only [mergePending, runtimeAt_plain, RuntimeRecord.pending_lazy, ready]
  rw [← mergeEach_plain, plain_mapRuntime]
  exact fun _ => rfl

theorem blind_link : (link rt).Blind := by
  intro w
  rw [link, Edit.run_get_bind, Edit.run_get_bind]
  simp only [runtimeAt_plain, RuntimeRecord.classes_lazy, linkEach_plain, Prod.map, linkedCount_plain,
    mergePending_plain, id]
  split
  · rfl
  · split
    · simp only [← plain_debug]
      rfl
    · rfl

theorem buildProtocol_plain (d : ProtocolDescriptor) :
    w.plain.buildProtocol rt d = (w.buildProtocol rt d).plain := by
  have found : w.plain.protocol? rt = w.protocol? rt := funext (w.protocol?_plain rt)
  have built : (((w.internAll d.selectors).addProtocol ⟨d, d.adopts.filterMap (w.protocol? rt)⟩).2).plain =
      ((w.plain.internAll d.selectors).addProtocol ⟨d, d.adopts.filterMap (w.protocol? rt)⟩).2 := by
    rw [← plain_internAll]
    rfl
  have size : (w.plain.internAll d.selectors).protocols.size = (w.internAll d.selectors).protocols.size := by
    rw [← plain_internAll]
    rfl
  simp only [buildProtocol, found]
  rw [plain_mapRuntime, plain_debug, built]
  · simp only [addProtocol, size]
  · exact fun _ => rfl

theorem foldl_buildProtocol_plain (ds : List ProtocolDescriptor) :
    ds.foldl (fun w d => w.buildProtocol rt d) w.plain =
      (ds.foldl (fun w d => w.buildProtocol rt d) w).plain := by
  induction ds generalizing w with
  | nil => rfl
  | cons d ds ih => rw [List.foldl_cons, List.foldl_cons, buildProtocol_plain, ih]

theorem blind_registerProtocols (batch : List ProtocolDescriptor) : (registerProtocols rt batch).Blind := by
  intro w
  have known : w.plain.registeredDescriptor? rt = w.registeredDescriptor? rt :=
    funext (w.registeredDescriptor?_plain rt)
  rw [registerProtocols, Edit.run_get_bind, Edit.run_get_bind, known]
  rcases (ProtocolBatch.resolveAll (w.registeredDescriptor? rt) batch).run.run [] with ⟨fault | u, sound⟩
  · simp only [← plain_internAll]
    rfl
  · have named (v : World) : (batch.filterMap fun d => v.plain.protocol? rt d.name) =
        batch.filterMap fun d => v.protocol? rt d.name := by
      simp only [protocol?_plain]
    simp only [foldl_buildProtocol_plain, named]
    rfl

theorem blind_registerProtocol (d : ProtocolDescriptor) : (registerProtocol rt d).Blind := by
  refine (blind_registerProtocols rt [d]).bind fun ps => ?_
  cases ps.getLast? with
  | none => exact .throw _
  | some p => exact .pure p

theorem blind_load (b : Bundle) : (load rt b).Blind := by
  have classes : (do
      b.classes.forM fun d => do let _ ← Edit.atomic (·.registerClass rt d)
      let linked ← link rt
      b.categories.forM fun d => do let _ ← Edit.atomic (·.registerCategory rt d)
      modify (·.log .debug .runtime ("loaded module, " ++ toString linked ++ " class(es) linked"))
      return linked : Edit Nat).Blind := by
    refine .bind (.forM (fun d => .bind (.atomic fun w => w.registerClass_plain rt d) fun _ => .pure ()) _)
      fun _ => ?_
    refine .bind (blind_link rt) fun linked => ?_
    refine .bind (.forM (fun d => .bind (.atomic fun w => w.registerCategory_plain rt d) fun _ => .pure ()) _)
      fun _ => ?_
    exact .bind (.change fun w => (w.plain_debug _ _).symm) fun _ => .pure linked
  rw [load]
  split
  · exact (blind_registerProtocols rt b.protocols).bind fun _ => classes
  · exact classes

theorem allocate_plain : w.plain.allocate c = plainly (w.allocate c) := by
  simp only [allocate, classAt_plain, ClassRecord.isMetaclass_bared, ClassRecord.name_bared,
    ClassRecord.instanceSize?_bared]
  split
  · rfl
  · split <;> rfl

theorem setScalar_plain (o : ObjectId) (name : String) (x : Scalar) :
    w.plain.setScalar o name x = plainly (w.setScalar o name x) := by
  simp only [setScalar, scalarIvar_plain, objectAt_plain]
  cases w.scalarIvar o name x.type with
  | error fault => rfl
  | ok ivar =>
    simp only [bind, Except.bind]
    split <;> rfl

theorem setReference_plain (o : ObjectId) (name : String) (value : Option ObjectId) :
    w.plain.setReference o name value = plainly (w.setReference o name value) := by
  simp only [setReference, referenceIvar_plain, objectAt_plain]
  cases w.referenceIvar o name with
  | error fault => rfl
  | ok ivar => cases value <;> rfl

end World

end LateBound
