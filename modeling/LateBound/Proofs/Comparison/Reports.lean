import LateBound.Proofs.Comparison.Bodies
import LateBound.Proofs.Session.Programs

/-!
# Reports that are compared

A program comes from a session to its reports and to another session, step by step. Two programs that are
compared do so side by side: where a report leaves sessions in accord and tells the same of sessions in accord,
all their reports tell the same.
-/

namespace LateBound

namespace Act

variable {α β γ : Type} {J : Session → Session → Prop} {R : α → α → Prop} {S : β → β → Prop}

/-- Two acts come to related results in sessions that are related, and leave related sessions. -/
def Alike (J : Session → Session → Prop) (R : α → α → Prop) (f g : Act α) : Prop := ∀ s t, J s t →
  Ended False R (on f s).1 (on g t).1 ∧ J (on f s).2 (on g t).2

theorem Alike.pure {x y : α} (h : R x y) : Alike J R (Pure.pure x) (Pure.pure y) := fun _ _ both => ⟨.ok h, both⟩

theorem Alike.bind {f g : Act α} {m l : α → Act β} (first : Alike J R f g)
    (second : ∀ x y, R x y → Alike J S (m x) (l y)) : Alike J S (f >>= m) (g >>= l) := by
  intro s t both
  obtain ⟨ended, after⟩ := first s t both
  rw [on_bind, on_bind]
  rcases hf : on f s with ⟨r, s'⟩
  rcases hg : on g t with ⟨r', t'⟩
  rw [hf, hg] at ended after
  cases ended with
  | ok h => exact second _ _ h s' t' after
  | error h => exact ⟨.error h, after⟩

/-- Acts that end with what looks the same end in ways that look the same. -/
theorem Ended.map_eq {f g : α → γ} {r r' : Except Halt α} (h : Ended False (fun x y => f x = g y) r r') :
    r.map f = r'.map g := by
  cases h with
  | ok same => exact congrArg Except.ok same
  | error same => rw [same.eq id]; rfl

theorem toOption_map (f : α → γ) (r : Except Halt α) : (r.map f).toOption = r.toOption.map f := by
  cases r <;> rfl

end Act

variable {γ : Type}

/-- Sessions in accord are in accord once a report is made, and reports look the same in them. -/
structure Comparison.Reports (C : Comparison) (k : C.Stage) (f g : StepReport → γ) : Prop where
  stands : ∀ u, C.stands u
  reported : ∀ {s t : Session}, s.Accord C k t → s.reported.Accord C k t.reported
  told : ∀ {s t : Session} {r r' : StepResult}, s.Accord C k t → StepResult.Accord (C.apart k) C.exact r r' →
    f ⟨r, s.events.reverse, s.world.journal.lines.reverse⟩ =
      g ⟨r', t.events.reverse, t.world.journal.lines.reverse⟩

namespace Comparison.Reports

open Act

variable {C : Comparison} {k : C.Stage} {f g : StepReport → γ} (h : C.Reports k f g) (n : Nat)

include h

/-- One step of each program. -/
theorem step {x y : Step} (accord : x.Accord C.toParity y) :
    Alike (Session.Accord C k) (fun r r' => f r = g r') (report C.left (LateBound.behaviour C.left n) x)
      (report C.right (LateBound.behaviour C.right n) y) := by
  intro s t both
  obtain ⟨ended, after⟩ := (accords_conclude (C.behaviour n) accord).meets s t both (h.stands _)
  rw [on_report, on_report]
  rcases left : on (conclude C.left (LateBound.behaviour C.left n) x) s with ⟨r, s'⟩
  rcases right : on (conclude C.right (LateBound.behaviour C.right n) y) t with ⟨r', t'⟩
  rw [left, right] at ended after
  cases ended with
  | ok same => exact ⟨.ok (h.told after same), h.reported after⟩
  | error e => exact ⟨.error e, after⟩

/-- The steps of two programs, one after the other. -/
theorem steps {xs ys : List Step} (accord : Step.AllAccord C.toParity xs ys) :
    Alike (Session.Accord C k) (fun rs rs' => rs.map f = rs'.map g)
      (xs.mapM (report C.left (LateBound.behaviour C.left n)))
      (ys.mapM (report C.right (LateBound.behaviour C.right n))) := by
  induction xs generalizing ys with
  | nil =>
    cases accord
    exact .pure rfl
  | cons x xs ih =>
    cases accord with
    | cons head tail =>
      rw [List.mapM_cons, List.mapM_cons]
      refine .bind (h.step n head) fun r r' first => ?_
      refine .bind (ih tail) fun rs rs' rest => .pure ?_
      rw [List.map_cons, List.map_cons, first, rest]

/-- The runs of two programs that are compared, from sessions in accord. -/
theorem runFrom (accord : Step.AllAccord C.toParity C.left.steps C.right.steps) {s t : Session}
    (both : s.Accord C k t) :
    (C.left.runFrom n s).1.map (List.map f) = (C.right.runFrom n t).1.map (List.map g) ∧
      (C.left.runFrom n s).2.Accord C k (C.right.runFrom n t).2 := by
  obtain ⟨ended, after⟩ := h.steps n accord s t both
  exact ⟨ended.map_eq, after⟩

end Comparison.Reports

end LateBound
