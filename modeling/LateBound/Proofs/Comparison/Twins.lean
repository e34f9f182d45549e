import LateBound.Proofs.Comparison.Bodies
import LateBound.Proofs.World.Twins

/-!
# Runs of one program that differ in their backgrounds

Worlds that are twins are compared. So one program is compared with itself where the journals differ,
and where the running thread has lost its pools in one run and has bare pools in the other. Then it may only
hand references over, and be refused.
-/

namespace LateBound

namespace Terms

variable (T : Terms)

theorem usual {α : Type} {e : Edit α} (usual : e.Usual) : e.Unaware T := by
  cases usual with
  | registerClass rt d => exact fun _ => .atomic fun _ _ h => h.registerClass rt d
  | registerProtocol rt d => exact .registerProtocol rt d
  | registerProtocols rt ds => exact .registerProtocols rt ds
  | registerCategory rt d => exact fun _ => .atomic fun _ _ h => h.registerCategory rt d
  | load rt b => exact .load rt b
  | link rt => exact .link rt
  | validateConformance c q => exact .validateConformance c q
  | replaceMethod rt c m => exact fun _ => .atomic fun _ _ h => h.replaceMethod rt c m
  | replaceClassMethod rt c m => exact fun _ => .atomic fun _ _ h => h.replaceClassMethod rt c m
  | addMethod rt c m => exact fun _ => .atomic fun _ _ h => h.addMethod rt c m
  | allocate c => exact fun _ => .atomic fun _ _ h => h.allocate c
  | setScalar o name x => exact fun _ => .atomic fun _ _ h => h.setScalar o name x
  | setReference o name value => exact fun _ => .atomic fun _ _ h => h.setReference o name value

/-- Runs are compared on these terms. -/
def parity : Parity where
  Stage := Stage
  worlds := World.Twin T
  apart k := k.apart.isSome
  exact := True
  lax := True
  environments e e' := e' = e ∧ (T.tuned ∨ e.SetsNone)
  core h := by
    obtain ⟨⟨g, rfl⟩, -⟩ := h
    rfl
  whole _ _ _ _ h := h.rest
  log _ h := h.log ..
  intern h s := h.intern s
  mapObject h o f _ := h.mapObject o f
  mark h c f _ _ := h.mapClass c f
  equip h rt _ := h.mapRuntime rt _
  die h _ _ := h.mapClass ..
  lookup h c s := h.lookup c s
  addRuntimeOf h same := by
    obtain ⟨rfl, tuned⟩ := same
    exact h.addRuntimeOf tuned
  edit usual := T.usual usual
  nest h f := by
    obtain ⟨⟨g, rfl⟩, journals, pools, left, right⟩ := h
    exact ⟨⟨g, rfl⟩, journals, pools, left, right⟩
  adrift {k w v} h apart := by
    obtain ⟨b, of⟩ := Option.isSome_iff_exists.mp apart
    have pools := h.pools
    rw [Stage.Pools, of] at pools
    rw [pools.1, pools.2]
    exact ⟨b.tornDown, b.up, b.frames⟩
  pools {k w v} h even := by
    have pools := h.pools
    rw [Stage.Pools, Option.not_isSome_iff_eq_none.mp even] at pools
    exact pools
  setPools {k w v} h even p := by
    obtain ⟨⟨g, rfl⟩, journals, -, left, right⟩ := h
    refine ⟨⟨{ g with pools := p }, rfl⟩, journals, ?_, left, right⟩
    rw [Stage.Pools, Option.not_isSome_iff_eq_none.mp even]
    rfl
  level := ⟨⟨none, [], []⟩, nofun⟩
  enter {k w v} h := by
    refine ⟨⟨none, w.thread :: k.left, v.thread :: k.right⟩, nofun, ?_, fun {w' v'} after => ?_⟩
    · obtain ⟨⟨g, rfl⟩, journals, -, left, right⟩ := h
      refine ⟨⟨{ g with pools := .empty, suspended := _ :: g.suspended }, rfl⟩, journals, rfl, ?_, ?_⟩
      · exact congrArg (w.thread :: ·) left
      · exact congrArg (_ :: ·) right
    · obtain ⟨g, rfl⟩ := h.rest
      obtain ⟨⟨g', rfl⟩, journals, -, left, right⟩ := after
      have first : w'.resumed = { w' with thread := w.thread, suspended := k.left } := by
        rw [World.resumed, left]
      have second : (w'.against g').resumed =
          { w'.against g' with thread := (w.against g).thread, suspended := k.right } := by
        rw [World.resumed, right]
      rw [first, second]
      exact ⟨⟨{ g' with pools := g.pools, suspended := k.right }, rfl⟩, journals, h.pools, rfl, rfl⟩

/-! What actions ask of the comparison. -/

theorem tuned_parity (tuned : T.tuned) : T.parity.Tuned :=
  fun h => ⟨T.threshold tuned h.journals, fun a => World.Twin.setThreshold h tuned a⟩

theorem opens_parity (d : Settings) (asked : T.tuned ∨ d.threshold = none) : T.parity.Opens d d :=
  fun h => World.Twin.addRuntime h d asked

theorem empties_parity : T.parity.Empties := fun h rt => World.Twin.mapRuntime h rt _

end Terms

end LateBound
