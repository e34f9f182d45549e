import LateBound.Proofs.Session.Performing

/-!
# Events and handlers

Whatever an act does, and however it ends, it only adds events and handlers.
-/

namespace LateBound

/-- Events and handlers are only added. -/
structure Session.Grows (s u : Session) : Prop where
  events : s.events <:+ u.events
  handlers : ∀ h ∈ s.handlers.toList, h ∈ u.handlers.toList

theorem Session.Grows.refl (s : Session) : s.Grows s := ⟨List.suffix_refl _, fun _ => id⟩

theorem Session.Grows.trans {s u x : Session} (h : s.Grows u) (h' : u.Grows x) : s.Grows x :=
  ⟨h.events.trans h'.events, fun script mem => h'.handlers script (h.handlers script mem)⟩

/-- The act only adds events and handlers. -/
def Act.Grows {α : Type} (f : Act α) : Prop := ∀ s : Session, s.Grows (on f s).2

/-- Bodies that only add events and handlers. -/
structure Behaviour.Grows (b : Behaviour) : Prop where
  invoke : ∀ rt imp o s args, (b.invoke rt imp o s args).Grows
  destruct : ∀ d o, (b.destruct d o).Grows
  answer : ∀ h o s, (b.answer h o s).Grows
  letGo : ∀ r, (b.letGo r).Grows

namespace Act.Grows

variable {α β : Type} {f : Act α}

theorem of_same (h : ∀ s : Session, (on f s).2.handlers = s.handlers ∧ s.events <:+ (on f s).2.events) : f.Grows :=
  fun s => ⟨(h s).2, fun _ mem => (h s).1 ▸ mem⟩

theorem throw (e : Halt) : Grows (throw e : Act α) := fun s => .refl s

/-- What comes second only adds to what came first. -/
theorem onward {m : α → Act β} {s : Session} (second : ∀ x, (m x).Grows) : (on f s).2.Grows (on (f >>= m) s).2 := by
  rw [on_bind]
  rcases hf : on f s with ⟨e | x, s'⟩
  · exact .refl s'
  · exact second x s'

theorem bind {m : α → Act β} (first : f.Grows) (second : ∀ x, (m x).Grows) : (f >>= m).Grows :=
  fun s => (first s).trans (onward second)

theorem tryCatch {h : Halt → Act α} (body : f.Grows) (handler : ∀ e, (h e).Grows) : (tryCatch f h).Grows := by
  intro s
  have grown := body s
  rw [on_tryCatch]
  rcases hf : on f s with ⟨e | x, s'⟩
  · rw [hf] at grown
    exact grown.trans (handler e s')
  · rwa [hf] at grown

theorem undoing {c : Act Unit} (body : f.Grows) (cleanup : c.Grows) : (undoing f c).Grows :=
  .tryCatch body fun e => .bind (.tryCatch cleanup fun _ => .throw _) fun _ => .throw e

theorem ensuring {c : Act Unit} (body : f.Grows) (cleanup : c.Grows) : (ensuring f c).Grows :=
  .bind (.undoing body cleanup) fun _ => .bind cleanup fun _ => fun s => .refl s

theorem confined (body : f.Grows) : (confined f).Grows := by
  refine .tryCatch body fun e => ?_
  split <;> exact .throw _

theorem forEach {f : α → Act Unit} (each : ∀ x, (f x).Grows) (xs : List α) : (forEach f xs).Grows := by
  induction xs with
  | nil => exact fun s => .refl s
  | cons x xs ih => exact .ensuring (each x) ih

theorem forM {f : α → Act PUnit} (each : ∀ x, (f x).Grows) (xs : List α) : (xs.forM f).Grows := by
  induction xs with
  | nil => exact fun s => .refl s
  | cons x xs ih => exact .bind (each x) fun _ => ih

theorem onWorld (f : World → World) : (Act.onWorld f).Grows := .of_same fun _ => ⟨rfl, List.suffix_refl _⟩

theorem world : Act.world.Grows := .of_same fun _ => ⟨rfl, List.suffix_refl _⟩

theorem pushPool : pushPool.Grows := by
  refine .bind .world fun w => ?_
  split
  · exact .bind (.onWorld _) fun _ => .of_same fun _ => ⟨rfl, List.suffix_refl _⟩
  · exact .throw _

variable {b : Behaviour} (hb : b.Grows)

include hb

theorem autorelease (o : ObjectId) : (autorelease b o).Grows := by
  refine .bind .world fun w => ?_
  split
  · exact .bind (.of_same fun _ => ⟨rfl, List.suffix_refl _⟩) fun _ => .onWorld _
  · exact .bind (hb.letGo _) fun _ => .throw _

theorem dropAll (os : List ObjectId) : (dropAll b os).Grows := .forEach (fun _ => hb.letGo _) os

theorem release (os : List ObjectId) : (release b os).Grows := by
  induction os with
  | nil => exact fun s => .refl s
  | cons o os ih => exact .bind (.undoing (hb.letGo _) (.dropAll hb _)) fun _ => ih

theorem releaseFrames (frames : List Frame) : (releaseFrames b frames).Grows := by
  induction frames with
  | nil => exact fun s => .refl s
  | cons f fs ih => exact .bind (.undoing (.release hb _) (.dropAll hb _)) fun _ => ih

theorem drain (frames : List Frame) : (drain b frames).Grows :=
  .bind (.forM (fun _ => .of_same fun _ => ⟨rfl, List.suffix_refl _⟩) _) fun _ => .releaseFrames hb _

theorem popPool (id : Nat) : (popPool b id).Grows := by
  refine .bind .world fun w => ?_
  split
  · refine .bind (.onWorld _) fun _ => ?_
    split
    · exact .bind (.onWorld _) fun _ => .drain hb _
    · exact .drain hb _
  · exact .throw _

theorem endThread : (endThread b).Grows := by
  refine .bind .world fun w => .bind (.onWorld _) fun _ => ?_
  split
  · exact .bind (.onWorld _) fun _ => .ensuring (.confined (.drain hb _)) (.onWorld _)
  · exact .ensuring (.confined (.drain hb _)) (.onWorld _)

theorem onThread (h : f.Grows) : (onThread b f).Grows := .bind (.onWorld _) fun _ => .ensuring h (.endThread hb)

/-- That acts only add is a pervasive property. -/
theorem pervasive : Pervasive Grows True b where
  of_unfolds h := .of_same fun s => (h s).2
  throw := .throw
  bind := .bind
  read h s := by
    rw [on_bind, on_get]
    exact h s (fun _ _ => .inl trivial) s
  equip f _ s := by
    refine ⟨List.suffix_refl _, fun script mem => ?_⟩
    rw [on_modify, Array.toList_push]
    exact List.mem_append_left _ mem
  clear _ rt := .onWorld _
  tryCatch ha hh _ := .tryCatch ha hh
  invoke := hb.invoke
  destruct := hb.destruct
  answer := hb.answer
  letGo := hb.letGo
  pushPool := .pushPool
  autorelease := .autorelease hb
  popPool := .popPool hb
  onThread := .onThread hb

end Act.Grows

theorem Program.grows_behaviour (p : Program) (n : Nat) : (behaviour p n).Grows := by
  induction n with
  | zero => exact ⟨fun _ _ _ _ _ => .throw _, fun _ _ => .throw _, fun _ _ _ => .throw _, fun _ => .throw _⟩
  | succ n ih =>
    have pervasive := Act.Grows.pervasive ih
    exact ⟨pervasive.invoking (.inl trivial), pervasive.destructing (.inl trivial), pervasive.answering,
      pervasive.lettingGo⟩

end LateBound
