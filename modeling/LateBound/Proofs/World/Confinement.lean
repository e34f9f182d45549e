import LateBound.Proofs.World.Homes
import LateBound.Proofs.World.Permanence

/-!
# What stays in one runtime

Registering, linking and merging in a runtime touches that runtime and classes whose home it is, and makes new
classes and protocols; nothing else in the world is changed. Tables are dropped and built along the links from a
class, so it is the homes that keep them out of other runtimes. A method that a class is given stays in the home
of that class.
-/

namespace LateBound.World

variable {w w' w'' : World} {home home' : ClassId → RuntimeId} {rt q : RuntimeId} {c d : ClassId}

/-- Nothing that there was has changed but one runtime and classes whose home it is. -/
structure Confined (home : ClassId → RuntimeId) (rt : RuntimeId) (w w' : World) : Prop where
  runtimes : ∀ q, q ≠ rt → w'.runtimeAt q = w.runtimeAt q
  classes : ∀ c : ClassId, c.index < w.classes.size → home c ≠ rt → w'.classAt c = w.classAt c
  more : w.protocols.size ≤ w'.protocols.size
  protocols : ∀ p : ProtocolId, p.index < w.protocols.size → w'.protocolAt p = w.protocolAt p

namespace Confined

theorem trans (h : Confined home rt w w') (size : w.classes.size ≤ w'.classes.size) (h' : Confined home rt w' w'') :
    Confined home rt w w'' where
  runtimes q other := (h'.runtimes q other).trans (h.runtimes q other)
  classes c born away := (h'.classes c (Nat.lt_of_lt_of_le born size) away).trans (h.classes c born away)
  more := Nat.le_trans h.more h'.more
  protocols p born := (h'.protocols p (Nat.lt_of_lt_of_le born h.more)).trans (h.protocols p born)

theorem congr (h : Confined home rt w w') (same : w.SameHomes home home') : Confined home' rt w w' :=
  { h with classes := fun c born away => h.classes c born (by rwa [← same c born]) }

/-- Runtimes and protocols are as they were. -/
theorem of_classes (runtimes : w'.runtimes = w.runtimes) (protocols : w'.protocols = w.protocols)
    (classes : ∀ c : ClassId, c.index < w.classes.size → home c ≠ rt → w'.classAt c = w.classAt c) :
    Confined home rt w w' := by
  refine ⟨fun q _ => ?_, classes, Nat.le_of_eq (congrArg _ protocols.symm), fun p _ => ?_⟩
  · rw [runtimeAt, runtimeAt, runtimes]
  · rw [protocolAt, protocolAt, protocols]

theorem refl (home : ClassId → RuntimeId) (rt : RuntimeId) (w : World) : Confined home rt w w :=
  of_classes rfl rfl fun _ _ _ => rfl

theorem log (home : ClassId → RuntimeId) (rt : RuntimeId) (w : World) (a : Severity) (b : Journal.Source) (t : String) :
    Confined home rt w (w.log a b t) :=
  of_classes rfl rfl fun _ _ _ => rfl

theorem mapRuntime (home : ClassId → RuntimeId) (rt : RuntimeId) (w : World) (f : RuntimeRecord → RuntimeRecord) :
    Confined home rt w (w.mapRuntime rt f) := by
  refine ⟨fun q other => ?_, fun _ _ _ => rfl, Nat.le_refl _, fun _ _ => rfl⟩
  rw [runtimeAt_mapRuntime, if_neg fun same => other same.1]

theorem mapClass (w : World) (own : home c = rt) (f : ClassRecord → ClassRecord) :
    Confined home rt w (w.mapClass c f) :=
  of_classes rfl rfl fun _ _ away => classAt_mapClass_of_ne (fun same => away (by rw [same, own])) f

end Confined

theorem classAt_foldl {f : World → ClassId → World}
    (only : ∀ (w : World) (c d : ClassId), d ≠ c → (f w c).classAt d = w.classAt d) {cs : List ClassId}
    (outside : d ∉ cs) (w : World) : (cs.foldl f w).classAt d = w.classAt d := by
  induction cs generalizing w with
  | nil => rfl
  | cons c cs ih =>
    rw [List.mem_cons, not_or] at outside
    rw [List.foldl_cons, ih outside.2, only w c d outside.1]

theorem classAt_prepare_of_ne (w : World) (c d : ClassId) (other : d ≠ c) : (w.prepare c).classAt d = w.classAt d := by
  rw [prepare]
  split
  · rw [build, classAt_mapClass_of_ne other, classAt_log]
  · rfl

/-- A class that is not below another keeps its table when the tables there are dropped. -/
theorem classAt_invalidate (w : World) (rt : RuntimeId) (outside : d ∉ w.descendants c) :
    (w.invalidate rt c).classAt d = w.classAt d := by
  have dropped : ((w.descendants c).foldl drop w).classAt d = w.classAt d :=
    classAt_foldl (fun w c d other => classAt_mapClass_of_ne other _) outside w
  simp only [invalidate]
  split
  · rw [classAt_foldl classAt_prepare_of_ne outside, classAt_log, dropped]
  · rw [classAt_log, dropped]

theorem Confined.invalidate (h : w.Homes home) (own : home c = rt) (q : RuntimeId) :
    Confined home rt w (w.invalidate q c) := by
  have tables := sameButTables_invalidate w q c
  refine of_classes tables.runtimes tables.protocols fun d _ away => ?_
  exact w.classAt_invalidate q fun below => away ((h.descendantsFrom below).trans own)

/-- The methods of a class are edited, and the tables below it go. -/
theorem Confined.edit (h : w.Homes home) (own : home c = rt) (q : RuntimeId) (f : MethodList → MethodList)
    (a : Severity) (b : Journal.Source) (t : String) :
    Confined home rt w (((w.mapClass c fun r => { r with methods := f r.methods }).log a b t).invalidate q c) := by
  have edited := (w.sameForm_mapClass c (f := fun r => { r with methods := f r.methods }) fun _ => rfl)
  have noted := edited.trans (sameForm_log _ a b t)
  have first := (Confined.mapClass w own _).trans edited.grown.size (.log home rt _ a b t)
  exact first.trans noted.grown.size (.invalidate (h.form noted) own q)

theorem Confined.extended (own : home c = rt) {m : ClassId} (owner : home m = rt) (d : CategoryDescriptor)
    (protocols : List ProtocolId) : Confined home rt w (w.extended c m d protocols) := by
  refine (Confined.trans ?_ ?_ (.mapClass _ own _))
  · refine (Confined.mapClass w own _).trans ?_ (.mapClass _ owner _)
    rw [size_mapClass]
  · rw [size_mapClass, size_mapClass]

theorem Confined.replaceMethod {m : Method} {previous : Option Imp} (h : w.Homes home) (own : home c = rt)
    (done : w.replaceMethod q c m = .ok (previous, w')) : Confined home rt w w' := by
  obtain ⟨-, -, text, rfl⟩ := replaceMethod_cases done
  exact .edit h own q (·.put m) .debug .classes text

/-- The metaclass of a class has the same home. -/
theorem Confined.replaceClassMethod {m : Method} {previous : Option Imp} (h : w.Homes home) (own : home c = rt)
    (done : w.replaceClassMethod q c m = .ok (previous, w')) : Confined home rt w w' := by
  simp only [World.replaceClassMethod] at done
  split at done
  · rename_i d owner
    exact .replaceMethod h ((h.joined c d (.metaclass owner)).trans own) done
  · cases done

theorem Confined.addMethod {m : Method} {added : Bool} (h : w.Homes home) (own : home c = rt)
    (done : w.addMethod q c m = .ok (added, w')) : Confined home rt w w' := by
  obtain ⟨-, ⟨-, -, rfl⟩ | ⟨-, -, text, rfl⟩⟩ := addMethod_cases done
  · exact .refl home rt w'
  · exact .edit h own q (·.insert m) .debug .classes text

/-- From a world in order, changes lead on that are confined to one runtime, wherever the classes belong. -/
def Confines (rt : RuntimeId) (w w' : World) : Prop :=
  w.Hierarchy → w.Changes w' ∧ ∀ home, w.Homes home → Confined home rt w w'

namespace Confines

theorem refl (rt : RuntimeId) (w : World) : Confines rt w w := fun _ => ⟨.refl, fun home _ => .refl home rt w⟩

theorem trans (h : Confines rt w w') (h' : Confines rt w' w'') : Confines rt w w'' := by
  intro hw
  obtain ⟨changes, first⟩ := h hw
  obtain ⟨more, second⟩ := h' (changes.hierarchy hw)
  refine ⟨Relation.ReflTransGen.trans changes more, fun home homes => ?_⟩
  obtain ⟨home', same, homes'⟩ := changes.homes hw homes
  have both := ((first home homes).congr same).trans (changes.grown hw).size (second home' homes')
  exact both.congr fun c born => (same c born).symm

instance (rt : RuntimeId) : IsPreorder World (Confines rt) where
  refl := .refl rt
  trans _ _ _ := .trans

theorem change (h : w.Change w') (confined : w.Hierarchy → ∀ home, w.Homes home → Confined home rt w w') :
    Confines rt w w' := fun hw => ⟨.single h, confined hw⟩

theorem log (rt : RuntimeId) (w : World) (a : Severity) (b : Journal.Source) (t : String) :
    Confines rt w (w.log a b t) := change (.note w.selectors _) fun _ home _ => .log home rt w a b t

theorem mapRuntime (w : World) (rt : RuntimeId) {f : RuntimeRecord → RuntimeRecord}
    (classes : ∀ r, (f r).classes = r.classes) (protocols : ∀ r, (f r).protocols = r.protocols) :
    Confines rt w (w.mapRuntime rt f) :=
  change (.registry rt f classes protocols) fun _ home _ => .mapRuntime home rt w f

theorem registerClass {d : ClassDescriptor} (h : w.registerClass rt d = .ok (c, w')) : Confines rt w w' := by
  refine change (.registerClass h) fun _ home _ => ?_
  rcases registerClass_cases h with ⟨-, rfl⟩ | ⟨-, -, rfl, text, rfl⟩
  · exact .refl home rt w'
  · have added : Confined home rt w (w.addClass (.ofDescriptor d)).2 := by
      refine .of_classes rfl rfl fun c born _ => ?_
      rw [classAt_addClass, if_neg (Nat.ne_of_lt born)]
    have grown := (w.grown_addClass (r := .ofDescriptor d)).size
    exact (added.trans grown (.mapRuntime home rt _ _)).trans grown (.log home rt _ ..)

/-- A batch is built one after the other, or it leaves nothing but selectors. -/
theorem registerProtocols (rt : RuntimeId) (batch : List ProtocolDescriptor) (w : World) :
    Confines rt w ((World.registerProtocols rt batch).run.run w).2 := by
  refine fun _ => ⟨w.changes_registerProtocols rt batch, fun home _ => ?_⟩
  have built (ds : List ProtocolDescriptor) (w : World) :
      Confined home rt w (ds.foldl (fun w d => w.buildProtocol rt d) w) := by
    induction ds generalizing w with
    | nil => exact .refl home rt w
    | cons d ds ih =>
      have form := w.sameForm_buildProtocol rt d
      have kept := Denotes.buildProtocol w rt d
      have first : Confined home rt w (w.buildProtocol rt d) := by
        refine ⟨fun q other => ?_, fun c _ _ => ?_, kept.more, kept.record⟩
        · rw [runtimeAt_buildProtocol, if_neg fun same => other same.1]
        · obtain ⟨selectors, journal, made⟩ := w.buildProtocol_eq rt d
          rw [made]
          rfl
      exact first.trans form.grown.size (ih _)
  rw [World.registerProtocols, Edit.run_get_bind]
  split
  · rename_i fault found resolved
    obtain ⟨selectors, interned⟩ := w.internAll_eq (found.flatMap (·.selectors))
    rw [interned]
    exact .of_classes rfl rfl fun _ _ _ => rfl
  · exact built _ w

/-- Linking a class touches the class, its superclass and the class above its metaclass. -/
theorem linking (h : w.Linking rt w') : Confines rt w w' := by
  refine change h.change fun hw home homes => ?_
  cases h with
  | note a b t => exact .log home rt w a b t
  | @finish c superclass _ registered unlinked named above h =>
    have able := linkable_of_registered hw registered unlinked named above
    obtain ⟨layout, protocols, text, -, -, rfl⟩ := finishLink_cases h
    have logged := w.sameForm_log .debug .linking text
    have hierarchy := logged.hierarchy hw
    have able : (w.log .debug .linking text).Linkable c superclass := able.log ..
    have here : home c = rt := homes.registered rt c (mem_members.mpr ⟨_, registered⟩)
    have up (s : ClassId) (hs : superclass = some s) : home s = rt :=
      homes.registered rt s (mem_members.mpr ⟨_, (above s hs).1⟩)
    refine (Confined.log home rt w .debug .linking text).trans logged.grown.size ?_
    refine .of_classes (runtimes_establish ..) (protocols_establish ..) fun d born away => ?_
    rw [classAt_establish_old hierarchy able layout protocols born]
    have other : d ≠ c := fun same => away (same ▸ here)
    have below : superclass ≠ some d := fun hs => away (up d hs)
    have parent : d ≠ (w.log .debug .linking text).metaclassParent c superclass := fun same => away (by
      rw [same]
      exact (homes.form logged).metaclassParent here up)
    simp only [established, if_neg other, if_neg below, if_neg parent, List.append_nil]

theorem linkings (h : w.Linkings rt w') : Confines rt w w' := by
  induction h with
  | refl => exact .refl rt w
  | tail _ last ih => exact ih.trans (linking last)

theorem mergeCategory {d : CategoryDescriptor} (mem : c ∈ w.members rt) (h : w.mergeCategory rt c d = .ok ((), w')) :
    Confines rt w w' := by
  refine change (.mergeCategory h) fun hw home homes => ?_
  obtain ⟨protocols, m, text, -, owner, rfl⟩ := mergeCategory_cases h
  have own := homes.registered rt c mem
  have owner := (homes.joined c m (.metaclass owner)).trans own
  have form := (w.still_extended c m d protocols).form
  have first := (Confined.extended own owner d protocols).trans form.grown.size
    (.invalidate (homes.form form) own rt)
  have form := form.trans (sameButTables_invalidate (w.extended c m d protocols) rt c).form
  simp only
  split
  · exact first.trans form.grown.size (.log home rt _ ..)
  · have second := first.trans form.grown.size (.invalidate (homes.form form) owner rt)
    have form := form.trans (sameButTables_invalidate _ rt m).form
    exact second.trans form.grown.size (.log home rt _ ..)

theorem merging {ds merged discarded : List CategoryDescriptor} (h : Merging rt w ds merged discarded w') :
    Confines rt w w' := by
  induction h with
  | none w => exact .refl rt w
  | merge target h _ ih =>
    exact (mergeCategory (mem_members_of_class? (Option.filter_eq_some_iff.mp target).1) h).trans ih
  | @discard w _ d c fault _ _ _ _ _ _ ih =>
    have released : Confines rt w (w.discard rt d fault) :=
      (log rt _ _ _ _).trans (mapRuntime _ rt (fun _ => rfl) fun _ => rfl)
    exact released.trans ih

theorem link (rt : RuntimeId) : (World.link rt).Leads (Confines rt) := by
  intro w hw
  suffices all : Confines rt w ((World.link rt).run.run w).2 from all hw
  obtain ⟨merged, discarded, w', pass, rest⟩ := w.link_pass rt
  have passed : Confines rt w w' := by
    cases pass with
    | @link _ fault w₁ _ _ _ classes categories =>
      have linked := linkEach_beyond hw (registered_members hw rt)
      rw [classes] at linked
      have unready : Confines rt w₁ (w₁.unready rt) := mapRuntime w₁ rt (fun _ => rfl) fun _ => rfl
      exact ((linkings linked.linkings).trans unready).trans (merging categories)
  rcases rest with same | ⟨text, noted⟩
  · rwa [same]
  · rw [noted]
    exact passed.trans (log rt _ _ _ _)

theorem registerCategory {d : CategoryDescriptor} {merged : Bool} (h : w.registerCategory rt d = .ok (merged, w')) :
    Confines rt w w' := by
  have take (w : World) : Confines rt w (w.take rt d) := mapRuntime w rt (fun _ => rfl) fun _ => rfl
  obtain ⟨-, -, ⟨c, w₁, target, -, gained, rfl⟩ | ⟨-, -, text, rfl⟩⟩ := registerCategory_cases h
  · exact (mergeCategory (mem_members_of_class? (Option.filter_eq_some_iff.mp target).1) gained).trans (take w₁)
  · exact ((log rt _ _ _ _).trans (take _)).trans (mapRuntime _ rt (fun _ => rfl) fun _ => rfl)

theorem load (rt : RuntimeId) (b : Bundle) : (World.load rt b).Leads (Confines rt) :=
  .load (log rt) (registerProtocols rt) (fun _ _ _ _ => registerClass) (link rt) (fun _ _ _ _ => registerCategory) b

end Confines

end LateBound.World
