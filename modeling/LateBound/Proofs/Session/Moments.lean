import LateBound.Session

/-!
# Moments

What the moments of a run obey: every class begins once, after its ancestors; initializations are nested;
and an implementation is sought only when the class and all its ancestors have begun.
-/

namespace LateBound.Moment

variable {w w' : World} {history : List Moment} {m : Moment} {c : ClassId}

/-- The classes whose initialization is under way, the innermost first. -/
def opened : List Moment → List ClassId
  | [] => []
  | .begins c :: earlier => c :: opened earlier
  | .ends _ :: earlier => (opened earlier).tail
  | .calls _ :: earlier => opened earlier
  | .seeks _ :: earlier => opened earlier

/-- What has been before a moment. A class begins for the first time and after its ancestors; its own method
is called as soon as it begins; the innermost class that is under way ends first; and where an
implementation is sought for a class, it and each of its ancestors has begun, and has ended unless it is
still under way. -/
def Due (w : World) (earlier : List Moment) : Moment → Prop
  | .begins c => .begins c ∉ earlier ∧ ∀ a ∈ w.chain c, a ≠ c → .begins a ∈ earlier
  | .calls c => earlier.head? = some (.begins c)
  | .ends c => (opened earlier).head? = some c
  | .seeks c => ∀ a ∈ w.chain c, .begins a ∈ earlier ∧ (.ends a ∈ earlier ∨ a ∈ opened earlier)

/-- Every moment of a history, latest first, comes when it is due. -/
def Disciplined (w : World) (history : List Moment) : Prop :=
  ∀ later m earlier, history = later ++ m :: earlier → Due w earlier m

theorem disciplined_cons : Disciplined w (m :: history) ↔ Due w history m ∧ Disciplined w history := by
  constructor
  · intro h
    exact ⟨h [] m history rfl, fun later x earlier split => h (m :: later) x earlier (congrArg _ split)⟩
  · rintro ⟨due, h⟩ later x earlier split
    cases later with
    | nil =>
      cases split
      exact due
    | cons y later =>
      cases split
      exact h later x earlier rfl

/-- What came before a moment of the history. -/
theorem Disciplined.before (h : Disciplined w history) (mem : m ∈ history) :
    ∃ earlier, earlier ⊆ history ∧ Due w earlier m := by
  obtain ⟨later, earlier, split⟩ := List.append_of_mem mem
  refine ⟨earlier, ?_, h later m earlier split⟩
  rw [split]
  exact fun x there => List.mem_append_right _ (List.mem_cons_of_mem _ there)

/-- Histories are judged by the chains of the classes in them. -/
theorem Disciplined.congr (h : Disciplined w history)
    (chains : ∀ c, .begins c ∈ history ∨ .seeks c ∈ history → w'.chain c = w.chain c) :
    Disciplined w' history := by
  intro later m earlier split
  have due := h later m earlier split
  have mem : m ∈ history := by
    rw [split]
    exact List.mem_append_right _ List.mem_cons_self
  cases m with
  | begins c =>
    refine ⟨due.1, ?_⟩
    rw [chains c (.inl mem)]
    exact due.2
  | calls c => exact due
  | ends c => exact due
  | seeks c =>
    simp only [Due]
    rw [chains c (.inr mem)]
    exact due

end LateBound.Moment
