import LateBound.Proofs.Session.Messages
import LateBound.Proofs.Session.Threads
import LateBound.Session.Messaging

/-!
# Carrying out messages

The action of a step that sends a message holds the arguments and the receiver until the result is stored.
-/

namespace LateBound

/-- The reference that an outcome leaves in flight. -/
def Outcome.flown (o : Outcome) : List ObjectId := (o.kept.map Value.flown).getD []

namespace Act

variable {α : Type} {tame : Prop} {m : Mood tame} {b : Behaviour} {s : Session} {h h' : Stake} {scope : Scope}

theorem Pays.store (hb : b.Sound tame) {lender into : Option String} {v : Value} (hs : s.Good)
    (hold : s.Holds m.level h) (secure : h.SecuresValue v)
    (lent : ∀ n, lender = some n → (n, none) ∈ h.lent) :
    Pays m s (Act.store b lender into v) nothing h := by
  unfold Act.store
  split
  · rename_i name o value
    refine .bind hs (Completes.grab hs hold (hold.there hs (secure o value))).toPays ?_
    intro _ s' _ _ good hold
    exact .bindObject hb good hold lent
  · exact .pure hold

theorem Pays.deliver (hb : b.Sound tame) {lender into : Option String} {answer : ValueView → Answer}
    {v : Value} (hs : s.Good) (hold : s.Holds m.level (h.fly v.flown))
    (lent : ∀ n, lender = some n → (n, none) ∈ h.lent) :
    Pays m s (Act.deliver b lender into answer v) Outcome.flown h := by
  have secure : (h.fly v.flown).SecuresValue v := by
    intro o value
    exact Stake.secures_fly (by simp [Value.flown, value])
  rw [Act.deliver]
  refine .read rfl hs ?_
  have stored : Pays m s (Act.store b lender into v) nothing (h.fly v.flown) := .store hb hs hold secure lent
  have undone : Pays m s _ (fun _ => v.flown) h :=
    stored.undoing hs (fun _ => .refl _) fun _ s' good hold => .dropValue hb good hold
  refine .bind hs undone ?_
  intro _ s' _ _ _ hold
  exact .pure hold

theorem Pays.raceOnce (hb : b.Sound tame) {rt : RuntimeId} {o : Option ObjectId} {sel : Selector}
    (hs : s.Good) (hold : s.Holds m.level h) (secure : ∀ x, o = some x → h.Secures x) :
    Pays m s (Act.raceOnce b rt o sel) nothing h := by
  rw [Act.raceOnce]
  have sent : Pays m s (do
      let v ← Act.send b rt o none sel []
      let view ← viewValue v
      dropValue b v
      return view.written) nothing h := by
    refine .bind hs (.send hb hs hold secure nofun) ?_
    intro v s' _ _ good hold
    refine .read rfl good (.bind good (Completes.dropValue hb good hold).toPays ?_)
    intro _ s'' _ _ _ hold
    exact .pure hold
  refine .tryCatch hs sent (fun _ => .refl _) ?_ ⟨fun _ => rfl, fun _ => rfl⟩
  intro _ e s' good hold
  split
  · exact .pure hold
  · exact .throw hold

theorem Pays.ending {body : Act α} (hs : s.Good) (pays : Pays m s body nothing h) :
    Pays m s (Act.ending body) nothing h := by
  rw [Act.ending]
  have ended : Pays m s (do return .ok (← body) : Act (Except Halt α)) nothing h := by
    refine .bind hs pays ?_
    intro x s' _ _ _ hold
    exact .pure hold
  refine .tryCatch hs ended (fun _ => .refl _) ?_ ⟨fun _ => rfl, fun _ => rfl⟩
  intro _ e s' good hold
  split
  · exact .throw hold
  · exact .pure hold

theorem Pays.onThreads (hb : b.Sound tame) {threads : Nat} {body : Act α} (hs : s.Good)
    (hold : s.Holds m.level h)
    (inside : ∀ s', s'.Good → s'.Holds m.level h → Pays m s' body nothing h) :
    Pays m s (Act.onThreads b threads body) nothing h := by
  rw [Act.onThreads]
  refine .bind hs (.mapM ?_ _ hs hold) ?_
  · intro _ s' good hold
    exact .ending good (.onThread hb good hold inside)
  · intro ends s' _ _ good hold
    refine .mapM ?_ _ good hold
    intro r s'' _ hold
    cases r with
    | ok x => exact .pure hold
    | error e => exact .throw hold

/-- What is sent is delivered, and may take the place of the receiver, which is not used any more. -/
theorem Pays.sendAndDeliver (hb : b.Sound tame) {lender into : Option String} {answer : ValueView → Answer}
    {a : Act Value} (hs : s.Good) (stake : h.Even h') (sends : Pays m s a Value.flown h')
    (lent : ∀ n, lender = some n → (n, none) ∈ h.lent) :
    Pays m s (do let v ← a; Act.deliver b lender into answer v) Outcome.flown h := by
  refine .seq hs stake sends ?_
  intro v s' _ _ good hold
  exact .deliver hb good (hold.even (stake.fly fun _ => rfl)) lent

theorem Pays.findFor (hb : b.Sound tame) {fatal : Bool} {rt : RuntimeId} {o : Option ObjectId}
    {start : Option ClassRef} {sel : Selector} (hs : s.Good) (hold : s.Holds m.level h)
    (secured : scope.Secured h) (secure : ∀ x, o = some x → h.Secures x) :
    Pays m s (MessageAction.perform.findFor b scope fatal rt o start sel) nothing h := by
  cases start with
  | none => exact .call fatal hs (.lookupImp hb hs hold secure)
  | some r =>
    refine .withClass hb hs (.refl h) hold secured ?_
    intro c s' good hold
    exact .call fatal good (.lookupImp hb good hold secure)

theorem Pays.callOn (hb : b.Sound tame) {rt : RuntimeId} {imp : Imp} {o : ObjectId} {sel : Selector}
    {args : List ValueExpr} (hs : s.Good) (hold : s.Holds m.level h) (secured : scope.Secured h)
    (secure : h.Secures o) :
    Pays m s (MessageAction.perform.callOn b scope rt imp o sel args) Outcome.flown h := by
  refine .withValues hb hs (.refl h) hold secured ?_
  intro vs os s' good hold given
  have there := hold.there good ((h.part_fly os).secures secure)
  refine .bind good (Completes.grab good hold there).toPays ?_
  intro _ s₁ _ _ good hold
  refine .sendAndDeliver hb good (.refl _) (.holding hb good (hb.invoke rt imp sel good hold ?_ ?_)) nofun
  · exact Stake.secures_fly List.mem_cons_self
  · exact fun v mem o value => (Stake.part_fly _ _).secures (given v mem o value)

end Act

namespace MessageAction

open Act

section

variable {tame : Prop} {m : Mood tame} {b : Behaviour} {s : Session} {h : Stake} {scope : Scope}
  (hb : b.Sound tame) (fatal : Bool) (hs : s.Good) (hold : s.Holds m.level h) (secured : scope.Secured h)

include hb hs hold secured

theorem pays_send (receiver : ObjectRef) (sel : Option String) (args : List ValueExpr) (into : Option String)
    (kind : Option ResultKind) :
    Pays m s ((send receiver sel args into kind).perform b scope fatal) Outcome.flown h := by
  refine .bind hs (.stepRuntime hs hold) ?_
  intro rt s' _ _ good hold
  refine .withReceiver hb good hold secured ?_
  intro o? h₀ h₁ s₁ good hold stake even secure lent
  refine .seq good even (.resolveSelector good hold) ?_
  intro x s₂ _ _ good hold
  refine .withValues hb good even hold ((secured.part stake).part even.toPart) ?_
  intro vs os s₃ good hold given
  have secure (o : ObjectId) (same : o? = some o) : (h₁.fly os).Secures o :=
    (h₁.part_fly os).secures (secure o same)
  refine .sendAndDeliver hb good (even.fly fun _ => rfl) (.call fatal good ?_) lent
  cases kind with
  | none => exact .send hb good hold secure given
  | some kind => exact .sendAs hb good hold secure given

theorem pays_sendSuper (receiver : ObjectRef) (start : ClassRef) (sel : Option String) (args : List ValueExpr)
    (into : Option String) :
    Pays m s ((sendSuper receiver start sel args into).perform b scope fatal) Outcome.flown h := by
  refine .bind hs (.stepRuntime hs hold) ?_
  intro rt s' _ _ good hold
  refine .withReceiver hb good hold secured ?_
  intro o? h₀ h₁ s₁ good hold stake even secure lent
  refine .withClass hb good even hold ((secured.part stake).part even.toPart) ?_
  intro c s₂ good hold
  have even := even.hold c
  have secured := (secured.part stake).part ((h₀.even_hold c).toPart.trans even.toPart)
  refine .seq good even (.resolveSelector good hold) ?_
  intro x s₃ _ _ good hold
  refine .withValues hb good even hold secured ?_
  intro vs os s₄ good hold given
  have secure (o : ObjectId) (same : o? = some o) : ((h₁.hold c).fly os).Secures o :=
    ((h₁.even_hold c).toPart.trans (Stake.part_fly _ os)).secures (secure o same)
  refine .sendAndDeliver hb good (even.fly fun _ => rfl) (.call fatal good ?_) lent
  exact .send hb good hold secure given

theorem pays_sendClass (r : ClassRef) (sel : Option String) (args : List ValueExpr) (into : Option String) :
    Pays m s ((sendClass r sel args into).perform b scope fatal) Outcome.flown h := by
  refine .bind hs (.stepRuntime hs hold) ?_
  intro rt s' _ _ good hold
  refine .withClass hb good (.refl h) hold secured ?_
  intro c s₁ good hold
  refine .bind good (.resolveSelector good hold) ?_
  intro x s₂ _ _ good hold
  refine .withValues hb good (.refl _) hold (secured.part (h.even_hold c).toPart) ?_
  intro vs os s₃ good hold given
  refine .sendAndDeliver hb good (.refl _) (.call fatal good (.bind good (.ask hold) ?_)) nofun
  intro o s₄ asked _ good₄ hold₄
  have there := ask_classObjectOf_there good (good.pinned c (hold.of_pinned List.mem_cons_self)) asked
  refine .bind good₄ (Completes.grab good₄ hold₄ there).toPays ?_
  intro _ s₅ _ _ good hold
  refine .holding hb good (.send hb good hold ?_ ?_)
  · intro p same
    cases same
    exact Stake.secures_fly List.mem_cons_self
  · exact fun v mem o value => (Stake.part_fly _ _).secures (given v mem o value)

theorem pays_lookup (receiver : ObjectRef) (start : Option ClassRef) (sel : Option String) :
    Pays m s ((lookup receiver start sel).perform b scope fatal) Outcome.flown h := by
  refine .bind hs (.stepRuntime hs hold) ?_
  intro rt s' _ _ good hold
  refine .withReceiver hb good hold secured ?_
  intro o? h₀ h₁ s₁ good hold stake even secure _
  refine .part (.bind good (.resolveSelector good hold) ?_) even
  intro x s₂ _ _ good hold
  refine .bind good (.findFor hb good hold ((secured.part stake).part even.toPart) secure) ?_
  intro imp s₃ _ _ _ hold
  exact .pure hold

theorem pays_call (receiver : ObjectRef) (start : Option ClassRef) (sel : Option String) (other : ObjectRef)
    (args : List ValueExpr) :
    Pays m s ((call receiver start sel other args).perform b scope fatal) Outcome.flown h := by
  refine .bind hs (.stepRuntime hs hold) ?_
  intro rt s' _ _ good hold
  refine .withReceiver hb good hold secured ?_
  intro o? h₀ h₁ s₁ good hold stake even secure _
  have secured := (secured.part stake).part even.toPart
  refine .part (.bind good (.resolveSelector good hold) ?_) even
  intro x s₂ _ _ good hold
  refine .bind good (.findFor hb good hold secured secure) ?_
  intro imp s₃ _ _ good hold
  cases o? with
  | some o => exact .callOn hb good hold secured (secure o rfl)
  | none =>
    refine .withObject hb good hold secured ?_
    intro o os s₄ good hold given
    have given (p : ObjectId) (same : some o = some p) : Given s₄ (h₁.fly os) scope other p := by
      cases same
      exact given
    refine .lending good hold given ?_
    intro h₂ h₃ s₅ good hold stake even secure _
    refine .part (.callOn hb good hold ?_ (secure o rfl)) even
    exact ((secured.part (h₁.part_fly os)).part stake).part even.toPart

theorem pays_race (receiver : ObjectRef) (sel : Option String) (threads times : Nat) :
    Pays m s ((race receiver sel threads times).perform b scope fatal) Outcome.flown h := by
  refine .bind hs (.stepRuntime hs hold) ?_
  intro rt s' _ _ good hold
  refine .withReceiver hb good hold secured ?_
  intro o? h₀ h₁ s₁ good hold _ even secure _
  refine .part (.bind good (.resolveSelector good hold) ?_) even
  intro x s₂ _ _ good hold
  refine .bind good (.onThreads hb good hold ?_) ?_
  · intro s₃ good hold
    refine .mapM ?_ _ good hold
    intro _ s₄ good hold
    exact .raceOnce hb good hold secure
  · intro texts s₃ _ _ good hold
    exact .read (on_world s₃) good (.pure hold)

omit hb secured in
theorem pays_clearForwarding : Pays m s (clearForwarding.perform b scope fatal) Outcome.flown h := by
  refine .bind hs (.stepRuntime hs hold) ?_
  intro rt s' _ _ good hold
  refine .bind good (Completes.onWorld good hold (.single (.registry rt _ ?_ ?_))).toPays ?_
  · exact fun _ => rfl
  · exact fun _ => rfl
  · intro _ s'' _ _ _ hold
    exact .pure hold

end

theorem pays_perform {tame : Prop} {m : Mood tame} {b : Behaviour} {s : Session} {h : Stake}
    {scope : Scope} (hb : b.Sound tame) (a : MessageAction) (fatal : Bool) (hs : s.Good)
    (hold : s.Holds m.level h) (secured : scope.Secured h) : Pays m s (a.perform b scope fatal) Outcome.flown h := by
  cases a with
  | send receiver sel args into kind => exact pays_send hb fatal hs hold secured receiver sel args into kind
  | sendSuper receiver start sel args into => exact pays_sendSuper hb fatal hs hold secured receiver start sel args into
  | sendClass r sel args into => exact pays_sendClass hb fatal hs hold secured r sel args into
  | lookup receiver start sel => exact pays_lookup hb fatal hs hold secured receiver start sel
  | call receiver start sel other args => exact pays_call hb fatal hs hold secured receiver start sel other args
  | race receiver sel threads times => exact pays_race hb fatal hs hold secured receiver sel threads times
  | clearForwarding => exact pays_clearForwarding fatal hs hold
  | hasForwarding =>
    refine .bind hs (.stepRuntime hs hold) ?_
    intro rt s' _ _ good hold
    exact .read (on_world s') good (.pure hold)

end MessageAction

end LateBound
