import LateBound.World.Protocols
import Mathlib.Logic.Relation
import Mathlib.Data.List.Infix
import Mathlib.Data.List.Nodup
import Mathlib.Data.List.Perm.Subperm

/-!
# Resolving a batch

Resolving walks along adoptions depth first. What it finds is in an order in which a protocol comes after
those that it adopts, so adoption among the new members leads nowhere back; and if it does not, then the
walk, whose names all differ, cannot go deeper than the batch has members.
-/

namespace LateBound.ProtocolBatch

variable {registered : String → Option ProtocolDescriptor} {batch found found' : List ProtocolDescriptor}
  {fuel : Nat} {visiting : List String} {adopter : Option String} {name : String} {r : Except Fault Unit}

/-- A member of the batch that is not registered has this name. -/
def New (registered : String → Option ProtocolDescriptor) (batch : List ProtocolDescriptor)
    (name : String) : Prop :=
  registered name = none ∧ ∃ d ∈ batch, d.name = name

/-- One new name adopts another. -/
def Adopts (registered : String → Option ProtocolDescriptor) (batch : List ProtocolDescriptor)
    (name adopted : String) : Prop :=
  (registered name = none ∧ ∃ d ∈ batch, d.name = name ∧ adopted ∈ d.adopts) ∧
    New registered batch adopted

/-- A batch that may be registered. -/
structure Fits (registered : String → Option ProtocolDescriptor) (batch : List ProtocolDescriptor) :
    Prop where
  agree : ∀ d ∈ batch, ∀ e ∈ batch, d.name = e.name → d = e
  same : ∀ d ∈ batch, ∀ old, registered d.name = some old → old = d
  known : ∀ d ∈ batch, registered d.name = none → ∀ name ∈ d.adopts,
    (∃ e ∈ batch, e.name = name) ∨ registered name ≠ none
  acyclic : ∀ name, ¬ Relation.TransGen (Adopts registered batch) name name

/-- New members of the batch, each once and after those that it adopts. -/
inductive Resolved (registered : String → Option ProtocolDescriptor) (batch : List ProtocolDescriptor) :
    List ProtocolDescriptor → Prop where
  | nil : Resolved registered batch []
  | snoc {found : List ProtocolDescriptor} {d : ProtocolDescriptor} (before : Resolved registered batch found)
      (member : d ∈ batch) (new : registered d.name = none) (fresh : ∀ e ∈ found, e.name ≠ d.name)
      (adopted : ∀ name ∈ d.adopts, registered name ≠ none ∨ ∃ e ∈ found, e.name = name) :
      Resolved registered batch (found ++ [d])

/-- A name has been found to be sound. -/
def Settled (registered : String → Option ProtocolDescriptor) (batch found : List ProtocolDescriptor)
    (name : String) : Prop :=
  (∃ e ∈ found, e.name = name) ∨
    ∃ old, registered name = some old ∧ ∀ d, batch.find? (·.name == name) = some d → old = d

theorem find?_name {d : ProtocolDescriptor} (h : batch.find? (·.name == name) = some d) :
    d ∈ batch ∧ d.name = name := by
  refine ⟨List.mem_of_find?_eq_some h, ?_⟩
  have holds := List.find?_some h
  exact eq_of_beq holds

theorem find?_of_agree (agree : ∀ d ∈ batch, ∀ e ∈ batch, d.name = e.name → d = e)
    {d : ProtocolDescriptor} (member : d ∈ batch) : batch.find? (·.name == d.name) = some d := by
  cases h : batch.find? (·.name == d.name) with
  | none =>
    have missing := List.find?_eq_none.mp h d member
    exact absurd (beq_self_eq_true d.name) missing
  | some e =>
    obtain ⟨there, named⟩ := find?_name h
    rw [agree e there d member named]

theorem checkNames_eq_ok_iff :
    checkNames batch = .ok () ↔ ∀ d ∈ batch, ∀ e ∈ batch, d.name = e.name → d = e := by
  have every (ds : List ProtocolDescriptor) : (ds.forM fun d =>
      if batch.find? (·.name == d.name) = some d then (.ok () : Except Fault Unit)
      else .error (.duplicateRegistration d.name)) = .ok () ↔
      ∀ d ∈ ds, batch.find? (·.name == d.name) = some d := by
    induction ds with
    | nil => exact ⟨fun _ => nofun, fun _ => rfl⟩
    | cons d ds ih =>
      rw [List.forall_mem_cons, ← ih]
      have first : ((d :: ds).forM fun d =>
          if batch.find? (·.name == d.name) = some d then (.ok () : Except Fault Unit)
          else .error (.duplicateRegistration d.name)) =
        (if batch.find? (·.name == d.name) = some d then (.ok () : Except Fault Unit)
          else .error (.duplicateRegistration d.name)) >>= fun _ => ds.forM fun d =>
          if batch.find? (·.name == d.name) = some d then (.ok () : Except Fault Unit)
          else .error (.duplicateRegistration d.name) := rfl
      rw [first]
      split
      · rename_i found
        exact ⟨fun h => ⟨found, h⟩, fun h => h.2⟩
      · rename_i found
        exact ⟨nofun, fun h => absurd h.1 found⟩
  rw [checkNames, every]
  constructor
  · intro first d hd e he same
    have found := first d hd
    rw [same, first e he] at found
    exact (Option.some.inj found).symm
  · intro agree d hd
    exact find?_of_agree agree hd

theorem run_bind {α β : Type} (e : BatchM α) (f : α → BatchM β) (found : List ProtocolDescriptor) :
    (e >>= f).run.run found = match e.run.run found with
      | (.ok a, found') => (f a).run.run found'
      | (.error fault, found') => (.error fault, found') := by
  rcases h : e.run.run found with ⟨r, found'⟩
  have h' : e found = (r, found') := h
  cases r with
  | ok a => simp [bind, ExceptT.bind, ExceptT.mk, ExceptT.bindCont, ExceptT.run, StateT.bind, StateT.run, h']
  | error fault =>
    simp [bind, ExceptT.bind, ExceptT.mk, ExceptT.bindCont, ExceptT.run, StateT.bind, StateT.run, h']
    rfl

theorem run_resolve (fuel : Nat) (visiting : List String) (adopter : Option String) (name : String)
    (found : List ProtocolDescriptor) :
    (resolve registered batch (fuel + 1) visiting adopter name).run.run found =
      if found.any (·.name == name) then (.ok (), found)
      else match registered name, batch.find? (·.name == name) with
        | some old, some d => if old ≠ d then (.error (.duplicateRegistration name), found) else (.ok (), found)
        | some _, none => (.ok (), found)
        | none, none =>
          (.error (.malformedHierarchy (adopter.getD name) ("adopts unknown protocol '" ++ name ++ "'")), found)
        | none, some d =>
          if visiting.contains name then
            (.error (.malformedHierarchy name
              ("protocol adoption cycle through " ++ " -> ".intercalate visiting)), found)
          else
            match (d.adopts.forM
              (resolve registered batch fuel (visiting ++ [name]) (some name))).run.run found with
            | (.ok _, found') => (.ok (), found' ++ [d])
            | (.error fault, found') => (.error fault, found') := by
  rw [resolve]
  have get (f : List ProtocolDescriptor → BatchM Unit) :
      ((get : BatchM (List ProtocolDescriptor)) >>= f).run.run found = (f found).run.run found := rfl
  rw [get]
  split
  · rfl
  · cases registered name with
    | some old =>
      cases batch.find? (·.name == name) with
      | some d =>
        simp only
        split
        · rfl
        · rfl
      | none => rfl
    | none =>
      cases batch.find? (·.name == name) with
      | none => rfl
      | some d =>
        simp only
        split
        · rfl
        · rw [run_bind]
          rcases StateT.run _ found with ⟨_ | _, _⟩ <;> rfl

theorem Settled.mono (h : Settled registered batch found name) (more : found <+: found') :
    Settled registered batch found' name := by
  rcases h with ⟨e, there, named⟩ | same
  · exact .inl ⟨e, more.subset there, named⟩
  · exact .inr same

/-- What a walk that begins with some names under way does to what has been found. -/
structure Finds (registered : String → Option ProtocolDescriptor) (batch : List ProtocolDescriptor)
    (visiting : List String) (found found' : List ProtocolDescriptor) : Prop where
  resolved : Resolved registered batch found'
  more : found <+: found'
  waiting : ∀ v ∈ visiting, (∃ e ∈ found', e.name = v) → ∃ e ∈ found, e.name = v

theorem Finds.refl (h : Resolved registered batch found) : Finds registered batch visiting found found :=
  ⟨h, List.prefix_rfl, fun _ _ there => there⟩

theorem Finds.trans {found₁ : List ProtocolDescriptor} (h : Finds registered batch visiting found found₁)
    (h' : Finds registered batch visiting found₁ found') : Finds registered batch visiting found found' :=
  ⟨h'.resolved, h.more.trans h'.more, fun v mem there => h.waiting v mem (h'.waiting v mem there)⟩

/-- Names visited one after the other. -/
theorem finds_forM {visit : String → BatchM PUnit} (names : List String)
    (one : ∀ name found r found', Resolved registered batch found →
      (visit name).run.run found = (r, found') →
      Finds registered batch visiting found found' ∧ (r = .ok () → Settled registered batch found' name))
    (h : Resolved registered batch found) (ran : (names.forM visit).run.run found = (r, found')) :
    Finds registered batch visiting found found' ∧
      (r = .ok () → ∀ name ∈ names, Settled registered batch found' name) := by
  induction names generalizing found with
  | nil =>
    cases ran
    exact ⟨.refl h, fun _ => nofun⟩
  | cons name names ih =>
    have first : ((name :: names).forM visit) = visit name >>= fun _ => names.forM visit := rfl
    rw [first, run_bind] at ran
    rcases run : (visit name).run.run found with ⟨fault | u, found₁⟩
    · rw [run] at ran
      cases ran
      exact ⟨(one _ _ _ _ h run).1, nofun⟩
    · rw [run] at ran
      obtain ⟨finds, settled⟩ := one _ _ _ _ h run
      obtain ⟨rest, all⟩ := ih finds.resolved ran
      refine ⟨finds.trans rest, fun ok => ?_⟩
      rw [List.forall_mem_cons]
      exact ⟨(settled rfl).mono rest.more, all ok⟩

theorem finds_resolve (h : Resolved registered batch found)
    (ran : (resolve registered batch fuel visiting adopter name).run.run found = (r, found')) :
    Finds registered batch visiting found found' ∧ (r = .ok () → Settled registered batch found' name) := by
  induction fuel generalizing visiting adopter name found r found' with
  | zero =>
    cases ran
    exact ⟨.refl h, nofun⟩
  | succ fuel ih =>
    rw [run_resolve] at ran
    split at ran
    · rename_i there
      cases ran
      obtain ⟨e, mem, named⟩ := List.any_eq_true.mp there
      exact ⟨.refl h, fun _ => .inl ⟨e, mem, eq_of_beq named⟩⟩
    · rename_i missing
      split at ran
      · rename_i old d isOld member
        split at ran
        · cases ran
          exact ⟨.refl h, nofun⟩
        · rename_i same
          cases ran
          refine ⟨.refl h, fun _ => .inr ⟨old, isOld, fun e first => ?_⟩⟩
          rw [member] at first
          cases first
          exact not_not.mp same
      · rename_i old isOld none
        cases ran
        refine ⟨.refl h, fun _ => .inr ⟨old, isOld, fun e first => ?_⟩⟩
        rw [none] at first
        cases first
      · cases ran
        exact ⟨.refl h, nofun⟩
      · rename_i d new first
        obtain ⟨member, rfl⟩ := find?_name first
        split at ran
        · cases ran
          exact ⟨.refl h, nofun⟩
        · rename_i unvisited
          rcases run : (d.adopts.forM (resolve registered batch fuel (visiting ++ [d.name])
            (some d.name))).run.run found with ⟨fault | u, found₁⟩
          all_goals
            rw [run] at ran
            cases ran
            obtain ⟨finds, adopted⟩ := finds_forM d.adopts (fun _ _ _ _ h run => ih h run) h run
            have waiting (v : String) (mem : v ∈ visiting) := finds.waiting v (List.mem_append_left _ mem)
          · exact ⟨⟨finds.resolved, finds.more, waiting⟩, nofun⟩
          · have fresh : ∀ e ∈ found₁, e.name ≠ d.name := by
              intro e mem named
              -- The name is under way, so the walk beneath it has not found it.
              obtain ⟨e, old, named⟩ := finds.waiting d.name (List.mem_append_right _ List.mem_cons_self)
                ⟨e, mem, named⟩
              exact missing (List.any_eq_true.mpr ⟨e, old, beq_iff_eq.mpr named⟩)
            have known : ∀ name ∈ d.adopts, registered name ≠ none ∨ ∃ e ∈ found₁, e.name = name := by
              intro name mem
              rcases adopted rfl name mem with there | ⟨old, isOld, -⟩
              · exact .inr there
              · exact .inl (by rw [isOld]; nofun)
            refine ⟨⟨.snoc finds.resolved member new fresh known, ?_, ?_⟩, fun _ => ?_⟩
            · exact finds.more.trans (List.prefix_append _ _)
            · rintro v mem ⟨e, there, named⟩
              rcases List.mem_append.mp there with old | last
              · exact waiting v mem ⟨e, old, named⟩
              · cases List.mem_singleton.mp last
                refine absurd ?_ unvisited
                rw [named]
                exact List.contains_iff_mem.mpr mem
            · exact .inl ⟨d, List.mem_append_right _ List.mem_cons_self, rfl⟩

/-- Members that are found are members of the batch that are not registered. -/
theorem Resolved.new (h : Resolved registered batch found) {d : ProtocolDescriptor} (there : d ∈ found) :
    d ∈ batch ∧ registered d.name = none := by
  induction h with
  | nil => cases there
  | snoc before member new fresh adopted ih =>
    rcases List.mem_append.mp there with old | last
    · exact ih old
    · cases List.mem_singleton.mp last
      exact ⟨member, new⟩

theorem Resolved.nodup (h : Resolved registered batch found) : (found.map (·.name)).Nodup := by
  induction h with
  | nil => exact List.nodup_nil
  | snoc before member new fresh adopted ih =>
    rw [List.map_append, List.nodup_append]
    refine ⟨ih, List.nodup_singleton _, ?_⟩
    rintro name there last mem
    cases List.mem_singleton.mp mem
    obtain ⟨e, mem, rfl⟩ := List.mem_map.mp there
    exact fresh e mem

theorem Resolved.adopted (h : Resolved registered batch found) {d : ProtocolDescriptor} (there : d ∈ found) :
    ∀ name ∈ d.adopts, registered name ≠ none ∨ ∃ e ∈ found, e.name = name := by
  induction h with
  | nil => cases there
  | @snoc found last before member new fresh adopted ih =>
    have known : ∀ name ∈ d.adopts, registered name ≠ none ∨ ∃ e ∈ found, e.name = name := by
      rcases List.mem_append.mp there with old | mem
      · exact ih old
      · cases List.mem_singleton.mp mem
        exact adopted
    intro name adopts
    rcases known name adopts with old | ⟨e, mem, named⟩
    · exact .inl old
    · exact .inr ⟨e, List.mem_append_left _ mem, named⟩

/-- Adoption leads from what is found only to what was found before. -/
theorem Resolved.acc (h : Resolved registered batch found)
    (agree : ∀ d ∈ batch, ∀ e ∈ batch, d.name = e.name → d = e) {d : ProtocolDescriptor} (there : d ∈ found) :
    Acc (fun adopted name => Adopts registered batch name adopted) d.name := by
  induction h generalizing d with
  | nil => cases there
  | @snoc found last before member new fresh adopted ih =>
    rcases List.mem_append.mp there with old | mem
    · exact ih old
    · cases List.mem_singleton.mp mem
      refine .intro _ ?_
      rintro name ⟨⟨-, e, there, named, adopts⟩, unregistered, -⟩
      rw [agree e there last member named] at adopts
      rcases adopted name adopts with registered | ⟨e, mem, rfl⟩
      · exact absurd unregistered registered
      · exact ih mem

theorem not_transGen_of_acc {α : Type} {r : α → α → Prop} {x : α} (h : Acc (fun y x => r x y) x) :
    ¬ Relation.TransGen r x x := by
  induction h with
  | intro x _ ih =>
    intro cycle
    obtain ⟨y, step, back⟩ := Relation.TransGen.head'_iff.mp cycle
    exact ih y step (Relation.TransGen.tail' back step)

/-- The names under way all differ, so the walk does not go deeper than the batch has members. -/
theorem length_le_of_visiting (nodup : visiting.Nodup) (members : ∀ v ∈ visiting, ∃ d ∈ batch, d.name = v) :
    visiting.length ≤ batch.length := by
  have inside : visiting ⊆ batch.map (·.name) := by
    intro v mem
    obtain ⟨d, there, named⟩ := members v mem
    exact List.mem_map.mpr ⟨d, there, named⟩
  have bound := (List.subperm_of_subset nodup inside).length_le
  rwa [List.length_map] at bound

/-- A walk whose names all come to an end comes to its end. -/
theorem forM_ok {visit : String → BatchM PUnit} (names : List String)
    (one : ∀ name ∈ names, ∀ found, Resolved registered batch found → ∃ found',
      (visit name).run.run found = (.ok (), found') ∧ Resolved registered batch found')
    (h : Resolved registered batch found) :
    ∃ found', (names.forM visit).run.run found = (.ok (), found') := by
  induction names generalizing found with
  | nil => exact ⟨found, rfl⟩
  | cons name names ih =>
    rw [List.forall_mem_cons] at one
    obtain ⟨found₁, run, resolved⟩ := one.1 found h
    obtain ⟨found', rest⟩ := ih one.2 resolved
    have first : ((name :: names).forM visit) = visit name >>= fun _ => names.forM visit := rfl
    refine ⟨found', ?_⟩
    rw [first, run_bind, run]
    exact rest

theorem Fits.resolve (fits : Fits registered batch) (h : Resolved registered batch found)
    (known : (∃ d ∈ batch, d.name = name) ∨ registered name ≠ none) (nodup : visiting.Nodup)
    (members : ∀ v ∈ visiting, ∃ d ∈ batch, d.name = v)
    (path : registered name = none →
      ∀ v ∈ visiting, Relation.TransGen (Adopts registered batch) v name)
    (enough : batch.length < fuel + visiting.length) :
    ∃ found', (ProtocolBatch.resolve registered batch fuel visiting adopter name).run.run found =
      (.ok (), found') := by
  induction fuel generalizing visiting adopter name found with
  | zero =>
    have bound := length_le_of_visiting nodup members
    omega
  | succ fuel ih =>
    rw [run_resolve]
    split
    · exact ⟨found, rfl⟩
    · cases isOld : registered name with
      | some old =>
        cases first : batch.find? (·.name == name) with
        | none => exact ⟨found, rfl⟩
        | some d =>
          obtain ⟨member, rfl⟩ := find?_name first
          have same := fits.same d member old isOld
          simp only [same, ne_eq, not_true_eq_false, if_false]
          exact ⟨found, rfl⟩
      | none =>
        cases first : batch.find? (·.name == name) with
        | none =>
          rcases known with ⟨d, member, rfl⟩ | there
          · rw [find?_of_agree fits.agree member] at first
            cases first
          · exact absurd isOld there
        | some d =>
          obtain ⟨member, rfl⟩ := find?_name first
          have unvisited : d.name ∉ visiting := fun mem => fits.acyclic _ (path isOld _ mem)
          simp only [List.contains_iff_mem, unvisited, if_false]
          have nodup' : (visiting ++ [d.name]).Nodup :=
            List.nodup_append.mpr ⟨nodup, List.nodup_singleton _, by
              rintro v mem last there rfl
              exact unvisited (List.mem_singleton.mp there ▸ mem)⟩
          have members' : ∀ v ∈ visiting ++ [d.name], ∃ d ∈ batch, d.name = v := by
            intro v mem
            rcases List.mem_append.mp mem with old | last
            · exact members v old
            · exact ⟨d, member, (List.mem_singleton.mp last).symm⟩
          obtain ⟨found', run⟩ : ∃ found', (d.adopts.forM (ProtocolBatch.resolve registered batch fuel
              (visiting ++ [d.name]) (some d.name))).run.run found = (.ok (), found') := by
            refine forM_ok d.adopts (fun name adopts found h => ?_) h
            have inside := fits.known d member isOld name adopts
            have path' (new : registered name = none) (v : String) (mem : v ∈ visiting ++ [d.name]) :
                Relation.TransGen (Adopts registered batch) v name := by
              have step : Adopts registered batch d.name name :=
                ⟨⟨isOld, d, member, rfl, adopts⟩, new, inside.resolve_right (not_not.mpr new)⟩
              rcases List.mem_append.mp mem with old | last
              · exact (path isOld v old).tail step
              · cases List.mem_singleton.mp last
                exact .single step
            have enough' : batch.length < fuel + (visiting ++ [d.name]).length := by
              rw [List.length_append, List.length_singleton]
              omega
            obtain ⟨found', run⟩ := ih h inside nodup' members' path' enough'
            exact ⟨found', run, (finds_resolve h run).1.resolved⟩
          refine ⟨found' ++ [d], ?_⟩
          rw [run]

/-- A batch is resolved exactly if it fits; then its new members are found. -/
theorem resolveAll_spec (ran : (resolveAll registered batch).run.run [] = (r, found)) :
    (r = .ok () ↔ Fits registered batch) ∧
      (r = .ok () → Resolved registered batch found ∧
        ∀ name, (∃ d ∈ found, d.name = name) ↔ New registered batch name) := by
  cases checked : checkNames batch with
  | error fault =>
    have refused : (resolveAll registered batch).run.run [] = (.error fault, []) := by
      rw [resolveAll, checked]
      rfl
    rw [refused] at ran
    cases ran
    refine ⟨⟨nofun, fun fits => ?_⟩, nofun⟩
    have agree := checkNames_eq_ok_iff.mpr fits.agree
    rw [checked] at agree
    cases agree
  | ok u =>
    have agree := checkNames_eq_ok_iff.mp checked
    have named : resolveAll registered batch = (batch.map (·.name)).forM
        (ProtocolBatch.resolve registered batch (batch.length + 1) [] none) := by
      have walked := List.forM_map (l := batch) (g := (·.name))
        (f := ProtocolBatch.resolve registered batch (batch.length + 1) [] none)
      rw [resolveAll, checked]
      exact walked.symm
    rw [named] at ran
    have nothing : Resolved registered batch [] := .nil
    obtain ⟨finds, settled⟩ := finds_forM _ (fun _ _ _ _ h run => finds_resolve h run) nothing ran
    have resolved := finds.resolved
    have all (ok : r = .ok ()) (name : String) :
        (∃ d ∈ found, d.name = name) ↔ New registered batch name := by
      constructor
      · rintro ⟨d, there, rfl⟩
        obtain ⟨member, new⟩ := resolved.new there
        exact ⟨new, d, member, rfl⟩
      · rintro ⟨new, d, member, rfl⟩
        rcases settled ok d.name (List.mem_map.mpr ⟨d, member, rfl⟩) with there | ⟨old, isOld, -⟩
        · exact there
        · rw [new] at isOld
          cases isOld
    refine ⟨⟨fun ok => ?_, fun fits => ?_⟩, fun ok => ⟨resolved, all ok⟩⟩
    · refine ⟨agree, ?_, ?_, ?_⟩
      · intro d member old isOld
        rcases settled ok d.name (List.mem_map.mpr ⟨d, member, rfl⟩) with
          ⟨e, there, named⟩ | ⟨old', isOld', same⟩
        · have new := (resolved.new there).2
          rw [named, isOld] at new
          cases new
        · rw [isOld] at isOld'
          cases isOld'
          exact same d (find?_of_agree agree member)
      · intro d member new name adopts
        obtain ⟨e, there, named⟩ := (all ok d.name).mpr ⟨new, d, member, rfl⟩
        rw [agree e (resolved.new there).1 d member named] at there
        rcases resolved.adopted there name adopts with old | ⟨e, mem, named⟩
        · exact .inr old
        · exact .inl ⟨e, (resolved.new mem).1, named⟩
      · intro name cycle
        obtain ⟨adopted, ⟨⟨new, d, member, named, -⟩, -⟩, -⟩ := Relation.TransGen.head'_iff.mp cycle
        obtain ⟨e, there, rfl⟩ := (all ok name).mpr ⟨new, d, member, named⟩
        exact not_transGen_of_acc (resolved.acc agree there) cycle
    · obtain ⟨found', run⟩ : ∃ found', ((batch.map (·.name)).forM
          (ProtocolBatch.resolve registered batch (batch.length + 1) [] none)).run.run [] = (.ok (), found') := by
        refine forM_ok _ (fun name mem found h => ?_) nothing
        obtain ⟨d, member, rfl⟩ := List.mem_map.mp mem
        obtain ⟨found', run⟩ := fits.resolve h (.inl ⟨d, member, rfl⟩) List.nodup_nil nofun (fun _ => nofun)
          (Nat.lt_succ_self batch.length)
        exact ⟨found', run, (finds_resolve h run).1.resolved⟩
      rw [run] at ran
      cases ran
      rfl

end LateBound.ProtocolBatch
