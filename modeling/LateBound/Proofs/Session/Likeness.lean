import LateBound.Proofs.Comparison.Worlds
import LateBound.Proofs.Session.Plain
import LateBound.Proofs.World.Likeness

/-!
# Sessions that are alike

Two steps are akin if they differ in nothing but in when the runtimes that they make build tables, and
neither shuts a runtime down. Two sessions are akin if they are the same without tables, their tables are
current, and their handlers are akin.
-/

namespace LateBound

inductive Action.Akin : Action → Action → Prop where
  | same {a : Action} (lasts : a ≠ .session .shutdown) : Action.Akin a a
  | newRuntime (name : String) (depth : Option Nat) (eager eager' : Option Bool) (threshold : Option String) :
      Action.Akin (.session (.newRuntime name depth eager threshold))
        (.session (.newRuntime name depth eager' threshold))

mutual

inductive Step.Akin : Step → Step → Prop where
  | act (runtime : Option String) (fatal : Bool) {a a' : Action} (h : a.Akin a') :
      Step.Akin (.act runtime fatal a) (.act runtime fatal a')
  | panic (text : String) : Step.Akin (.panic text) (.panic text)
  | thread {steps steps' : List Step} (h : Step.AllAkin steps steps') :
      Step.Akin (.thread steps) (.thread steps')
  | pool {steps steps' : List Step} (h : Step.AllAkin steps steps') : Step.Akin (.pool steps) (.pool steps')
  | forward (runtime : Option String) (rules : List ForwardingRule) {steps steps' : List Step}
      (h : Step.AllAkin steps steps') : Step.Akin (.forward runtime rules steps) (.forward runtime rules steps')
  | malformed (field : String) : Step.Akin (.malformed field) (.malformed field)

inductive Step.AllAkin : List Step → List Step → Prop where
  | nil : Step.AllAkin [] []
  | cons {x y : Step} {xs ys : List Step} (head : x.Akin y) (tail : Step.AllAkin xs ys) :
      Step.AllAkin (x :: xs) (y :: ys)

end

structure ImpScript.Akin (i j : ImpScript) : Prop where
  imp : i.imp = j.imp
  steps : Step.AllAkin i.steps j.steps
  result : i.result = j.result

structure DestructorScript.Akin (d e : DestructorScript) : Prop where
  destructor : d.destructor = e.destructor
  steps : Step.AllAkin d.steps e.steps

structure HandlerScript.Akin (h k : HandlerScript) : Prop where
  bare : h.bare = k.bare
  steps : Step.AllAkin h.steps k.steps

/-- Environments whose settings differ at most in when tables are built. -/
def Environment.Akin (e f : Environment) : Prop :=
  (Settings.ofEnvironment e).map Settings.lazy = (Settings.ofEnvironment f).map Settings.lazy

/-- One program, but for when its runtimes build tables. None of them is ever shut down. -/
structure Program.Akin (p q : Program) : Prop where
  imps : List.Forall₂ ImpScript.Akin p.imps q.imps
  destructors : List.Forall₂ DestructorScript.Akin p.destructors q.destructors
  environment : Environment.Akin p.environment q.environment
  threshold : p.threshold = q.threshold
  steps : Step.AllAkin p.steps q.steps

/-- What is found first in two lists whose members are related, when related members are found alike. -/
theorem rel_find? {α β : Type} {R : α → β → Prop} {f : α → Bool} {g : β → Bool} {xs : List α} {ys : List β}
    (h : List.Forall₂ R xs ys) (same : ∀ x y, R x y → f x = g y) : Option.Rel R (xs.find? f) (ys.find? g) := by
  induction h with
  | nil => exact .none
  | @cons x y xs ys related _ ih =>
    rw [List.find?_cons, List.find?_cons, same x y related]
    split
    · exact .some related
    · exact ih

theorem Program.Akin.imp? {p q : Program} (pq : p.Akin q) (i : Imp) :
    Option.Rel ImpScript.Akin (p.imp? i) (q.imp? i) :=
  rel_find? pq.imps fun _ _ akin => by rw [akin.imp]

theorem Program.Akin.destructor? {p q : Program} (pq : p.Akin q) (d : Destructor) :
    Option.Rel DestructorScript.Akin (p.destructor? d) (q.destructor? d) :=
  rel_find? pq.destructors fun _ _ akin => by rw [akin.destructor]

structure Session.Akin (s t : Session) : Prop where
  plain : s.plain = t.plain
  left : s.world.Fit
  right : t.world.Fit
  environment : Environment.Akin s.environment t.environment
  handlers : List.Forall₂ HandlerScript.Akin s.handlers.toList t.handlers.toList

namespace Session.Akin

variable {s t : Session} (akin : s.Akin t)

include akin

theorem world : s.world.Akin t.world := ⟨congrArg (·.world) akin.plain, akin.left, akin.right⟩

end Session.Akin

end LateBound
