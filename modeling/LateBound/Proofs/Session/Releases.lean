import LateBound.Proofs.Session.Threads

/-!
# References that go together

A pop and the end of a thread let the references of frames go, those of the innermost frame first and in each
frame the latest first. If letting one go comes to no result, what is left of its frame goes from the earliest
reference on, and then what the frames behind it hold, the outermost frame first. So the order depends on what
comes of it, but each reference has its turn in any case, and has it once. A second panic ends the process; whatever
has its turn after that is out of sight.
-/

namespace LateBound

/-- A reference whose turn it is, and what comes of letting it go. -/
structure Turn where
  object : ObjectId
  result : Except Halt Unit

namespace Turn

/-- What comes of references that go one after the other, all in all. -/
def outcome (turns : List Turn) : Except Halt Unit := turns.foldr (fun t rest => Act.joint t.result rest) (.ok ())

/-- The order in which the references of frames go. -/
inductive InOrder : List Frame → List Turn → Prop where
  | straight {frames : List Frame} {turns : List Turn}
      (objects : turns.map object = frames.flatMap Frame.entries) (fine : ∀ t ∈ turns, t.result = .ok ()) :
      InOrder frames turns
  | turned (inner : List Frame) {outer : List Frame} {f : Frame} {gone rest : List ObjectId} {o : ObjectId} {e : Halt}
      {before after : List Turn} (own : f.entries = gone ++ o :: rest)
      (objects : before.map object = inner.flatMap Frame.entries ++ gone)
      (fine : ∀ t ∈ before, t.result = .ok ())
      (others : after.map object = rest.reverse ++ (outer.flatMap Frame.entries).reverse) :
      InOrder (inner ++ f :: outer) (before ++ ⟨o, .error e⟩ :: after)

variable {frames : List Frame} {turns more : List Turn}

/-- Each reference has its turn once. -/
theorem InOrder.perm (h : InOrder frames turns) : (turns.map object).Perm (frames.flatMap Frame.entries) := by
  cases h with
  | straight objects => rw [objects]
  | @turned inner outer f gone rest o e before after own objects fine others =>
    have split : (inner ++ f :: outer).flatMap Frame.entries =
        inner.flatMap Frame.entries ++ gone ++ o :: (rest ++ outer.flatMap Frame.entries) := by
      simp only [List.flatMap_append, List.flatMap_cons, own, List.append_assoc, List.cons_append]
    rw [split, List.map_append, List.map_cons, objects, others]
    exact .append_left _ (.cons o ((List.reverse_perm rest).append (List.reverse_perm _)))

theorem outcome_cons (t : Turn) (turns : List Turn) : outcome (t :: turns) = Act.joint t.result (outcome turns) := rfl

theorem outcome_append (turns more : List Turn) :
    outcome (turns ++ more) = Act.joint (outcome turns) (outcome more) := by
  induction turns with
  | nil => exact (Act.joint_done _).symm
  | cons t turns ih => rw [List.cons_append, outcome_cons, outcome_cons, ih, Act.joint_assoc]

theorem outcome_of_fine (fine : ∀ t ∈ turns, t.result = .ok ()) : outcome turns = .ok () := by
  induction turns with
  | nil => rfl
  | cons t turns ih =>
    rw [outcome_cons, fine t List.mem_cons_self, ih fun t mem => fine t (List.mem_cons_of_mem _ mem), Act.joint_done]

theorem fine_of_outcome (h : outcome turns = .ok ()) : ∀ t ∈ turns, t.result = .ok () := by
  induction turns with
  | nil => nofun
  | cons t turns ih =>
    obtain ⟨first, rest⟩ := Act.joint_ok (outcome_cons t turns ▸ h)
    intro u mem
    rcases List.mem_cons.mp mem with rfl | behind
    · exact first
    · exact ih rest u behind

/-- If all references go without a halt they go in the order in which they stand. -/
theorem InOrder.objects_of_ok (h : InOrder frames turns) (fine : outcome turns = .ok ()) :
    turns.map object = frames.flatMap Frame.entries := by
  cases h with
  | straight objects => exact objects
  | turned =>
    have halted := fine_of_outcome fine _ (List.mem_append_right _ List.mem_cons_self)
    cases halted

/-- In one frame. -/
theorem inOrder_single {f : Frame} (h : InOrder [f] turns) :
    turns.map object = f.entries ∧ (∀ t ∈ turns, t.result = .ok ()) ∨
      ∃ gone o rest e before after, f.entries = gone ++ o :: rest ∧ turns = before ++ ⟨o, .error e⟩ :: after ∧
        before.map object = gone ∧ (∀ t ∈ before, t.result = .ok ()) ∧ after.map object = rest.reverse := by
  generalize same : [f] = frames at h
  cases h with
  | straight objects fine =>
    rw [← same, List.flatMap_singleton] at objects
    exact .inl ⟨objects, fine⟩
  | @turned inner outer g gone rest o e before after own objects fine others =>
    cases inner with
    | nil =>
      cases same
      exact .inr ⟨gone, o, rest, e, before, after, own, rfl, objects, fine, by simpa using others⟩
    | cons g inner =>
      rw [List.cons_append, List.cons.injEq] at same
      cases inner <;> cases same.2

theorem InOrder.behind_reference {i : Nat} {o : ObjectId} {os : List ObjectId} (h : InOrder [⟨i, os⟩] turns) :
    InOrder [⟨i, o :: os⟩] (⟨o, .ok ()⟩ :: turns) := by
  rcases inOrder_single h with ⟨objects, fine⟩ | ⟨gone, x, rest, e, before, after, own, rfl, objects, fine, others⟩
  · refine .straight ?_ (List.forall_mem_cons.mpr ⟨rfl, fine⟩)
    rw [List.map_cons, objects, List.flatMap_singleton]
  · have own' : o :: os = o :: gone ++ x :: rest := congrArg (o :: ·) own
    have objects' : (⟨o, .ok ()⟩ :: before : List Turn).map object = o :: gone := congrArg (o :: ·) objects
    have others' : after.map object = rest.reverse ++ (([] : List Frame).flatMap Frame.entries).reverse :=
      others.trans (List.append_nil _).symm
    exact .turned [] own' objects' (List.forall_mem_cons.mpr ⟨rfl, fine⟩) others'

theorem InOrder.behind_frame {f : Frame} {fs : List Frame} (h : InOrder [f] turns) (fine : outcome turns = .ok ())
    (rest : InOrder fs more) : InOrder (f :: fs) (turns ++ more) := by
  have objects := h.objects_of_ok fine
  have fine := fine_of_outcome fine
  rw [List.flatMap_singleton] at objects
  cases rest with
  | straight objects' fine' =>
    refine .straight ?_ (List.forall_mem_append.mpr ⟨fine, fine'⟩)
    rw [List.map_append, objects, objects', List.flatMap_cons]
  | @turned inner outer g gone rest o e before after own objects' fine' others =>
    rw [← List.append_assoc]
    refine .turned (f :: inner) own ?_ (List.forall_mem_append.mpr ⟨fine, fine'⟩) others
    rw [List.map_append, objects, objects', List.flatMap_cons, List.append_assoc]

theorem InOrder.turned_frame {f : Frame} {fs : List Frame} (h : InOrder [f] turns) {e : Halt}
    (halted : outcome turns = .error e) (others : more.map object = (fs.flatMap Frame.entries).reverse) :
    InOrder (f :: fs) (turns ++ more) := by
  rcases inOrder_single h with ⟨-, fine⟩ | ⟨gone, x, rest, e, before, after, own, rfl, objects, fine, others'⟩
  · rw [outcome_of_fine fine] at halted
    cases halted
  · rw [List.append_assoc, List.cons_append]
    refine .turned [] own objects fine ?_
    rw [List.map_append, others', others]

/-- The first reference of a frame, and the others. -/
theorem InOrder.of_reference {i : Nat} {o : ObjectId} {os : List ObjectId} (h : InOrder [⟨i, o :: os⟩] turns) :
    (∃ rest, turns = ⟨o, .ok ()⟩ :: rest ∧ InOrder [⟨i, os⟩] rest) ∨
      ∃ e after, turns = ⟨o, .error e⟩ :: after ∧ after.map object = os.reverse := by
  rcases inOrder_single h with ⟨objects, fine⟩ | ⟨gone, x, rest, e, before, after, own, rfl, objects, fine, others⟩
  · obtain ⟨⟨x, r⟩, rest, rfl, rfl, others⟩ := List.map_eq_cons_iff.mp objects
    obtain ⟨done, fine'⟩ := List.forall_mem_cons.mp fine
    cases done
    exact .inl ⟨rest, rfl, .straight (others.trans (List.append_nil os).symm) fine'⟩
  · rcases gone with _ | ⟨y, gone⟩
    · rw [List.map_eq_nil_iff] at objects
      cases own
      cases objects
      exact .inr ⟨e, after, rfl, others⟩
    · obtain ⟨⟨z, r⟩, before, rfl, rfl, objects'⟩ := List.map_eq_cons_iff.mp objects
      obtain ⟨done, fine'⟩ := List.forall_mem_cons.mp fine
      cases own
      cases done
      exact .inl ⟨_, rfl, .turned [] rfl objects' fine' (by simpa using others)⟩

/-- The first frame, and the others. -/
theorem InOrder.of_frame {f : Frame} {fs : List Frame} (h : InOrder (f :: fs) turns) : ∃ own more,
    turns = own ++ more ∧ InOrder [f] own ∧ (outcome own = .ok () ∧ InOrder fs more ∨
      (∃ e, outcome own = .error e) ∧ more.map object = (fs.flatMap Frame.entries).reverse) := by
  generalize same : f :: fs = frames at h
  cases h with
  | straight objects fine =>
    rw [← same, List.flatMap_cons, List.map_eq_append_iff] at objects
    obtain ⟨own, more, rfl, mine, others⟩ := objects
    obtain ⟨fine, fine'⟩ := List.forall_mem_append.mp fine
    exact ⟨own, more, rfl, .straight (mine.trans (List.flatMap_singleton ..).symm) fine,
      .inl ⟨outcome_of_fine fine, .straight others fine'⟩⟩
  | @turned inner outer g gone rest o e before after own objects fine others =>
    rcases inner with _ | ⟨h, inner⟩
    · cases same
      obtain ⟨after, more, rfl, mine, others⟩ := List.map_eq_append_iff.mp others
      refine ⟨before ++ ⟨o, .error e⟩ :: after, more, by simp,
        .turned [] own objects fine (by simpa using mine), .inr ⟨?_, others⟩⟩
      rw [outcome_append, outcome_of_fine fine, Act.joint_done, outcome_cons]
      rcases outcome after with last | u <;> exact ⟨_, rfl⟩
    · cases same
      rw [List.flatMap_cons, List.append_assoc, List.map_eq_append_iff] at objects
      obtain ⟨mine, before, rfl, objects, objects'⟩ := objects
      obtain ⟨fine, fine'⟩ := List.forall_mem_append.mp fine
      exact ⟨mine, before ++ ⟨o, .error e⟩ :: after, List.append_assoc ..,
        .straight (objects.trans (List.flatMap_singleton ..).symm) fine, .inl ⟨outcome_of_fine fine, .turned inner own objects' fine' others⟩⟩

end Turn

namespace Act

open Turn (InOrder outcome)

/-- References go one after the other, each in the session that the ones before it have left. -/
inductive Turns (b : Behaviour) : Session → List Turn → Session → Prop where
  | none (s : Session) : Turns b s [] s
  | and {s s₁ s' : Session} {o : ObjectId} {r : Except Halt Unit} {turns : List Turn}
      (goes : on (drop b o) s = (r, s₁)) (rest : Turns b s₁ turns s') : Turns b s (⟨o, r⟩ :: turns) s'

variable {b : Behaviour} {s s₁ s' : Session} {turns more : List Turn}

theorem Turns.append (h : Turns b s turns s₁) (h' : Turns b s₁ more s') : Turns b s (turns ++ more) s' := by
  induction h with
  | none => exact h'
  | and goes _ ih => exact .and goes (ih h')

theorem Turns.of_append (h : Turns b s (turns ++ more) s') : ∃ s₁, Turns b s turns s₁ ∧ Turns b s₁ more s' := by
  induction turns generalizing s with
  | nil => exact ⟨s, .none s, h⟩
  | cons t turns ih =>
    cases h with
    | and goes rest =>
      obtain ⟨s₁, before, after⟩ := ih rest
      exact ⟨s₁, .and goes before, after⟩

/-- The act lets references go that have their turns in such a way. -/
def Releases (b : Behaviour) (way : List Turn → Prop) (a : Act Unit) : Prop :=
  ∀ s, ∃ turns, Turns b s turns (on a s).2 ∧ (on a s).1 = outcome turns ∧ way turns

variable {way way' : List Turn → Prop}

theorem Releases.mono {a : Act Unit} (h : Releases b way a) (imp : ∀ turns, way turns → way' turns) :
    Releases b way' a := by
  intro s
  obtain ⟨turns, goes, result, holds⟩ := h s
  exact ⟨turns, goes, result, imp turns holds⟩

theorem releases_nothing (b : Behaviour) : Releases b (· = []) (Pure.pure ()) := fun s => ⟨[], .none s, rfl, rfl⟩

theorem releases_drop (b : Behaviour) (o : ObjectId) : Releases b (fun turns => ∃ r, turns = [⟨o, r⟩]) (drop b o) := by
  intro s
  refine ⟨[⟨o, (on (drop b o) s).1⟩], .and rfl (.none _), ?_, _, rfl⟩
  rw [Turn.outcome_cons]
  rcases (on (drop b o) s).1 with e | u <;> rfl

theorem releases_dropAll (b : Behaviour) (os : List ObjectId) :
    Releases b (fun turns => turns.map Turn.object = os) (dropAll b os) := by
  induction os with
  | nil => exact (releases_nothing b).mono fun turns same => congrArg (List.map Turn.object) same
  | cons o os ih =>
    intro s
    obtain ⟨turns, rest, result, objects⟩ := ih (on (drop b o) s).2
    have runs : on (dropAll b (o :: os)) s = (joint (on (drop b o) s).1 (on (dropAll b os) (on (drop b o) s).2).1,
        (on (dropAll b os) (on (drop b o) s).2).2) := on_ensuring ..
    rw [runs]
    refine ⟨⟨o, (on (drop b o) s).1⟩ :: turns, .and rfl rest, ?_, ?_⟩
    · rw [Turn.outcome_cons, ← result]
    · exact congrArg (o :: ·) objects

/-- What is behind goes as it stands if what is before it has gone without a halt, and in another order
otherwise. -/
theorem Releases.behind {first next : Act Unit} {later : List ObjectId} (h : Releases b way first)
    (h' : Releases b way' next) : Releases b (fun turns => ∃ before behind, turns = before ++ behind ∧ way before ∧
      (outcome before = .ok () ∧ way' behind ∨
        (∃ e, outcome before = .error e) ∧ behind.map Turn.object = later))
      (do undoing first (dropAll b later); next) := by
  intro s
  obtain ⟨before, goes, result, holds⟩ := h s
  rw [on_bind, on_undoing]
  rcases ran : on first s with ⟨e | u, s₁⟩ <;> rw [ran] at goes result
  · obtain ⟨behind, rest, ended, objects⟩ := releases_dropAll b later s₁
    obtain ⟨e', joined⟩ : ∃ e', joint (.error e : Except Halt Unit) (on (dropAll b later) s₁).1 = .error e' := by
      rcases (on (dropAll b later) s₁).1 with last | u <;> exact ⟨_, rfl⟩
    refine ⟨before ++ behind, ?_, ?_, before, behind, rfl, holds, .inr ⟨⟨e, result.symm⟩, objects⟩⟩
    · simp only [joined]
      exact goes.append rest
    · rw [Turn.outcome_append, ← result, ← ended]
      simp only [joined]
  · obtain ⟨behind, rest, ended, holds'⟩ := h' s₁
    refine ⟨before ++ behind, goes.append rest, ?_, before, behind, rfl, holds, .inl ⟨result.symm, holds'⟩⟩
    rw [Turn.outcome_append, ← result, ← ended, joint_done]

theorem releases_release (b : Behaviour) (i : Nat) (os : List ObjectId) :
    Releases b (InOrder [⟨i, os⟩]) (release b os) := by
  induction os with
  | nil => exact (releases_nothing b).mono fun turns none => none ▸ .straight rfl nofun
  | cons o os ih =>
    refine ((releases_drop b o).behind ih).mono ?_
    rintro _ ⟨_, behind, rfl, ⟨r, rfl⟩, ⟨fine, rest⟩ | ⟨⟨e, halted⟩, objects⟩⟩
    · rcases r with e | u
      · cases fine
      · exact rest.behind_reference
    · rcases r with e' | u
      · have own : o :: os = [] ++ o :: os := rfl
        have none : ([] : List Turn).map Turn.object = [] := rfl
        exact .turned [] own none nofun (objects.trans (List.append_nil _).symm)
      · cases halted

/-- The references of frames go in their order. -/
theorem releases_releaseFrames (b : Behaviour) (frames : List Frame) :
    Releases b (InOrder frames) (releaseFrames b frames) := by
  induction frames with
  | nil => exact (releases_nothing b).mono fun turns none => none ▸ .straight rfl nofun
  | cons f fs ih =>
    refine ((releases_release b f.id f.entries).behind ih).mono ?_
    rintro _ ⟨before, behind, rfl, own, ⟨fine, rest⟩ | ⟨⟨e, halted⟩, objects⟩⟩
    · exact own.behind_frame fine rest
    · exact own.turned_frame halted objects

theorem Turns.dropAll (h : Turns b s turns s') :
    on (Act.dropAll b (turns.map Turn.object)) s = (outcome turns, s') := by
  induction h with
  | none => rfl
  | @and s s₁ s' o r turns goes rest ih =>
    have runs : on (Act.dropAll b (o :: turns.map Turn.object)) s = (joint (on (drop b o) s).1
        (on (Act.dropAll b (turns.map Turn.object)) (on (drop b o) s).2).1,
        (on (Act.dropAll b (turns.map Turn.object)) (on (drop b o) s).2).2) := on_ensuring ..
    rw [List.map_cons, runs, goes, ih, Turn.outcome_cons]

/-- What comes of something and of what is put off until it goes wrong. -/
theorem on_behind {first next : Act Unit} {later : List ObjectId}
    (ran : on first s = (outcome turns, s₁)) (after : outcome turns = .ok () ∧ on next s₁ = (outcome more, s') ∨
      (∃ e, outcome turns = .error e) ∧ on (Act.dropAll b later) s₁ = (outcome more, s')) :
    on (do undoing first (Act.dropAll b later); next) s = (outcome (turns ++ more), s') := by
  rw [on_bind, on_undoing, ran, Turn.outcome_append]
  rcases after with ⟨fine, behind⟩ | ⟨⟨e, halted⟩, behind⟩
  · rw [fine, joint_done]
    exact behind
  · rw [halted]
    simp only [behind]
    rcases outcome more with last | u <;> rfl

theorem Turns.release {i : Nat} {os : List ObjectId} (order : InOrder [⟨i, os⟩] turns) (h : Turns b s turns s') :
    on (Act.release b os) s = (outcome turns, s') := by
  induction os generalizing s turns with
  | nil =>
    have none := order.perm.length_eq
    rw [List.length_map] at none
    obtain rfl := List.eq_nil_of_length_eq_zero none
    cases h
    rfl
  | cons o os ih =>
    rcases order.of_reference with ⟨rest, rfl, others⟩ | ⟨e, after, rfl, objects⟩
    · cases h with
      | and goes rest =>
        have ran : on (drop b o) s = (outcome [⟨o, .ok ()⟩], _) := goes
        exact on_behind ran (.inl ⟨rfl, ih others rest⟩)
    · cases h with
      | and goes rest =>
        have ran : on (drop b o) s = (outcome [⟨o, .error e⟩], _) := goes
        exact on_behind ran (.inr ⟨⟨e, rfl⟩, objects ▸ rest.dropAll⟩)

/-- There is one order in which the references of frames can go. -/
theorem Turns.releaseFrames {frames : List Frame} (order : InOrder frames turns) (h : Turns b s turns s') :
    on (Act.releaseFrames b frames) s = (outcome turns, s') := by
  induction frames generalizing s turns with
  | nil =>
    have none := order.perm.length_eq
    rw [List.length_map] at none
    obtain rfl := List.eq_nil_of_length_eq_zero none
    cases h
    rfl
  | cons f fs ih =>
    obtain ⟨own, more, rfl, mine, others⟩ := order.of_frame
    obtain ⟨s₁, first, behind⟩ := h.of_append
    refine on_behind (first.release mine) ?_
    rcases others with ⟨fine, order⟩ | ⟨halted, objects⟩
    · exact .inl ⟨fine, ih order behind⟩
    · exact .inr ⟨halted, objects ▸ behind.dropAll⟩

end Act

end LateBound
