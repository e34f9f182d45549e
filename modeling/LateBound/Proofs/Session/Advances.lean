import LateBound.Proofs.Session.Bodies
import LateBound.Proofs.Session.Performing

/-!
# Steps that shut no runtime down

Where neither a step nor a body that it may set going shuts a runtime down, operations that empty no runtime
lead from the world before the step to the world after it, however it ends.
-/

namespace LateBound

namespace Session

/-- No handler has a step that shuts a runtime down. -/
def HandlersLast (s : Session) : Prop := ∀ h ∈ s.handlers.toList, Step.allLast h.steps = true

/-- Operations that empty no runtime lead from one session to the other, in which no handler shuts one down. -/
structure Advances (s s' : Session) : Prop where
  world : s.world.Advances s'.world
  handlers : s'.HandlersLast

theorem Advances.trans {s s' s'' : Session} (h : s.Advances s') (h' : s'.Advances s'') : s.Advances s'' :=
  ⟨h.world.trans h'.world, h'.handlers⟩

end Session

namespace Act

/-- Where no handler shuts a runtime down, the act empties none. -/
def Advances {α : Type} (a : Act α) : Prop := ∀ s : Session, s.HandlersLast → s.Advances (on a s).2

end Act

/-- Bodies that empty no runtime. -/
structure Behaviour.Advances (b : Behaviour) : Prop where
  invoke : ∀ rt imp o s args, (b.invoke rt imp o s args).Advances
  destruct : ∀ d o, (b.destruct d o).Advances
  answer : ∀ h o s, (b.answer h o s).Advances
  letGo : ∀ r, (b.letGo r).Advances

namespace Act.Advances

variable {α β : Type} {a : Act α} {b : Behaviour}

theorem of_world (h : ∀ s : Session, s.world.Advances (on a s).2.world ∧ (on a s).2.handlers = s.handlers) :
    a.Advances := by
  intro s last
  refine ⟨(h s).1, ?_⟩
  rw [Session.HandlersLast, (h s).2]
  exact last

theorem throw (e : Halt) : Advances (throw e : Act α) := .of_world fun s => ⟨.refl s.world, rfl⟩

theorem bind {f : α → Act β} (ha : a.Advances) (hf : ∀ x, (f x).Advances) : (a >>= f).Advances := by
  intro s last
  have first := ha s last
  rw [on_bind]
  rcases h : on a s with ⟨e | x, s₁⟩
  · rwa [h] at first
  · rw [h] at first
    exact first.trans (hf x s₁ first.handlers)

theorem tryCatch {handler : Halt → Act α} (ha : a.Advances) (hh : ∀ e, (handler e).Advances) :
    (tryCatch a handler).Advances := by
  intro s last
  have first := ha s last
  rw [on_tryCatch]
  rcases h : on a s with ⟨e | x, s₁⟩
  · rw [h] at first
    exact first.trans (hh e s₁ first.handlers)
  · rwa [h] at first

theorem undoing {cleanup : Act Unit} (ha : a.Advances) (hc : cleanup.Advances) : (undoing a cleanup).Advances :=
  .tryCatch ha fun e => .bind (.tryCatch hc fun _ => .throw _) fun _ => .throw e

theorem ensuring {cleanup : Act Unit} (ha : a.Advances) (hc : cleanup.Advances) : (ensuring a cleanup).Advances :=
  .bind (.undoing ha hc) fun _ => .bind hc fun _ => .of_world fun s => ⟨.refl s.world, rfl⟩

theorem confined (ha : a.Advances) : (confined a).Advances := by
  refine .tryCatch ha fun e => ?_
  split <;> exact .throw _

theorem forEach {f : α → Act Unit} (h : ∀ x, (f x).Advances) (xs : List α) : (forEach f xs).Advances := by
  induction xs with
  | nil => exact .of_world fun s => ⟨.refl s.world, rfl⟩
  | cons x xs ih => exact .ensuring (h x) ih

theorem onWorld {f : World → World} (h : ∀ w : World, w.Advances (f w)) : (onWorld f).Advances :=
  .of_world fun s => ⟨h s.world, rfl⟩

theorem forM {f : α → Act PUnit} (h : ∀ x, (f x).Advances) (xs : List α) : (xs.forM f).Advances := by
  induction xs with
  | nil => exact .of_world fun s => ⟨.refl s.world, rfl⟩
  | cons x xs ih => exact .bind (h x) fun _ => ih

theorem same (h : ∀ s : Session, (on a s).2.world = s.world ∧ (on a s).2.handlers = s.handlers) : a.Advances := by
  refine .of_world fun s => ⟨?_, (h s).2⟩
  rw [(h s).1]
  exact .refl s.world

theorem world : Act.world.Advances := .same fun _ => ⟨rfl, rfl⟩

theorem log (x : Severity) (y : Journal.Source) (t : String) : (log x y t).Advances :=
  .onWorld fun w => World.spans_advances.log w x y t

/-- Threads may come and go, and with them their pools. -/
theorem threads {f : World → World}
    (h : ∀ w : World, ∃ thread suspended threadCount, f w = { w with thread, suspended, threadCount }) :
    (Act.onWorld f).Advances := by
  refine .onWorld fun w => ?_
  obtain ⟨thread, suspended, threadCount, same⟩ := h w
  rw [same]
  exact .single (.note w.selectors w.journal thread suspended threadCount) nofun

theorem setPools (p : Pools) : (setPools p).Advances := .threads fun _ => ⟨_, _, _, rfl⟩

/-- The thread that waited runs on. -/
theorem resume : (Act.onWorld fun w => match w.suspended with
    | t :: ts => { w with thread := t, suspended := ts }
    | [] => w).Advances := by
  refine .threads fun w => ?_
  cases w.suspended with
  | cons t ts => exact ⟨_, _, _, rfl⟩
  | nil => exact ⟨_, _, _, rfl⟩

theorem pushPool : pushPool.Advances := by
  refine .bind .world fun w => ?_
  split
  · exact .bind (.setPools _) fun _ => .same fun _ => ⟨rfl, rfl⟩
  · exact .throw _

variable (hb : b.Advances)

include hb

theorem autorelease (o : ObjectId) : (autorelease b o).Advances := by
  refine .bind .world fun w => ?_
  split
  · exact .bind (.same fun _ => ⟨rfl, rfl⟩) fun _ => .setPools _
  · exact .bind (hb.letGo _) fun _ => .throw _

theorem dropAll (os : List ObjectId) : (dropAll b os).Advances := .forEach (fun _ => hb.letGo _) os

theorem release (os : List ObjectId) : (release b os).Advances := by
  induction os with
  | nil => exact .same fun _ => ⟨rfl, rfl⟩
  | cons o os ih => exact .bind (.undoing (hb.letGo _) (.dropAll hb _)) fun _ => ih

theorem releaseFrames (frames : List Frame) : (releaseFrames b frames).Advances := by
  induction frames with
  | nil => exact .same fun _ => ⟨rfl, rfl⟩
  | cons f fs ih => exact .bind (.undoing (.release hb _) (.dropAll hb _)) fun _ => ih

theorem drain (frames : List Frame) : (drain b frames).Advances :=
  .bind (.forM (fun _ => .same fun _ => ⟨rfl, rfl⟩) _) fun _ => .releaseFrames hb _

theorem popPool (id : Nat) : (popPool b id).Advances := by
  refine .bind .world fun w => ?_
  split
  · refine .bind (.setPools _) fun _ => ?_
    split
    · exact .bind (.log _ _ _) fun _ => .drain hb _
    · exact .drain hb _
  · exact .throw _

theorem endThread : (endThread b).Advances := by
  refine .bind .world fun w => .bind (.setPools _) fun _ => ?_
  split
  · exact .bind (.log _ _ _) fun _ => .ensuring (.confined (.drain hb _)) .resume
  · exact .ensuring (.confined (.drain hb _)) .resume

theorem onThread (h : a.Advances) : (onThread b a).Advances :=
  .bind (.threads fun _ => ⟨_, _, _, rfl⟩) fun _ => .ensuring h (.endThread hb)

/-- That acts empty no runtime is a pervasive property, which does not bear the emptying of runtimes. -/
theorem pervasive : Pervasive Advances False b where
  of_unfolds h := .of_world fun s => ⟨(h s).1.advances, (h s).2.1⟩
  throw := .throw
  bind := .bind
  read h s last := by
    rw [on_bind, on_get]
    exact h s (fun script mem => .inr (last script mem)) s last
  equip f may s last := by
    refine ⟨.refl s.world, fun script mem => ?_⟩
    rcases List.mem_append.mp (Array.toList_push ▸ mem) with old | new
    · exact last script old
    · exact List.mem_singleton.mp new ▸ (may s).resolve_left id
  clear := False.elim
  tryCatch ha hh _ := .tryCatch ha hh
  invoke := hb.invoke
  destruct := hb.destruct
  answer := hb.answer
  letGo := hb.letGo
  pushPool := .pushPool
  autorelease := .autorelease hb
  popPool := .popPool hb
  onThread := .onThread hb

end Act.Advances

theorem Program.BodiesLast.advances {p : Program} (last : p.BodiesLast) (n : Nat) : (behaviour p n).Advances := by
  induction n with
  | zero => exact ⟨fun _ _ _ _ _ => .throw _, fun _ _ => .throw _, fun _ _ _ => .throw _, fun _ => .throw _⟩
  | succ n ih =>
    have pervasive := Act.Advances.pervasive ih
    exact ⟨pervasive.invoking (.inr last), pervasive.destructing (.inr last), pervasive.answering, pervasive.lettingGo⟩

/-- A step that shuts no runtime down, wherever it is carried out. -/
theorem Step.advances {p : Program} (last : p.BodiesLast) (n : Nat) (scope : Scope) {step : Step}
    (lasts : step.lasts = true) : (step.perform p (behaviour p n) scope).Advances :=
  (Act.Advances.pervasive (last.advances n)).perform step (.inr lasts)

end LateBound
