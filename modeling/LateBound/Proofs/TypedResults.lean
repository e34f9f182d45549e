import LateBound.Proofs.Forwarding
import LateBound.Proofs.Session.Refusals

/-!
# Typed results

Every type of results reads back what it writes. A type of whole numbers reads both kinds of numbers, and each
number exactly if it is in its range, so none is wrapped or cut off. A result that cannot be read is let go, and the
sender is told what was expected and what was found; no other refusal of a message says that.
-/

namespace LateBound

/-- The whole number that a value carries, if it is one. -/
def Value.number? : Value → Option Int
  | int n => some n.toInt
  | uint n => some n.toNat
  | _ => none

namespace ResultType

/-- The members of a type stand for the whole numbers from `least` to below `bound`. A value is read exactly if it
carries one of them, and as this one. -/
structure Whole {α : Type} (t : ResultType α) (toInt : α → Int) (least bound : Int) : Prop where
  reads : ∀ v x, t.read? v = some x ↔ v.number? = some (toInt x)
  range : ∀ v, (∃ x, t.read? v = some x) ↔ ∃ z, v.number? = some z ∧ least ≤ z ∧ z < bound

theorem Whole.of_range {α : Type} {t : ResultType α} {toInt : α → Int} {least bound : Int}
    (reads : ∀ v x, t.read? v = some x ↔ v.number? = some (toInt x))
    (range : ∀ z, (∃ x, toInt x = z) ↔ least ≤ z ∧ z < bound) : t.Whole toInt least bound where
  reads := reads
  range v := by
    simp only [reads]
    constructor
    · rintro ⟨x, carried⟩
      exact ⟨toInt x, carried, (range _).mp ⟨x, rfl⟩⟩
    · rintro ⟨z, carried, inside⟩
      obtain ⟨x, rfl⟩ := (range z).mpr inside
      exact ⟨x, carried⟩

theorem int?_eq_some_iff (v : Value) (x : Int64) : v.int? = some x ↔ v.number? = some x.toInt := by
  cases v with
  | int n => simp [Value.int?, Value.number?, Int64.toInt_inj]
  | uint n =>
    have below := x.toInt_lt
    rw [Value.int?, Value.number?]
    split
    · rename_i small
      simp [← Int64.toInt_inj, Int64.toInt_ofNat_of_lt small]
    · simp only [reduceCtorEq, Option.some.injEq, false_iff]
      omega
  | _ => simp [Value.int?, Value.number?]

theorem uint?_eq_some_iff (v : Value) (x : UInt64) : v.uint? = some x ↔ v.number? = some (x.toNat : Int) := by
  cases v with
  | uint n => simp [Value.uint?, Value.number?, UInt64.toNat_inj]
  | int n =>
    have below := n.toInt_lt
    rw [Value.uint?, Value.number?]
    split
    · rename_i positive
      have small : n.toInt.toNat < UInt64.size := by
        simp only [UInt64.size]
        omega
      rw [Option.some.injEq, ← UInt64.toNat_inj, UInt64.toNat_ofNat_of_lt' small, Option.some.injEq]
      omega
    · simp only [reduceCtorEq, Option.some.injEq, false_iff]
      omega
  | _ => simp [Value.uint?, Value.number?]

theorem narrow?_eq_some_iff (n : Int64) (x : Int32) : narrow? n = some x ↔ n.toInt = x.toInt := by
  have least := x.le_toInt
  have below := x.toInt_lt
  rw [narrow?]
  split
  · rename_i inside
    rw [Option.some.injEq, ← Int32.toInt_inj, Int32.toInt_ofInt_of_le inside.1 inside.2]
  · simp only [reduceCtorEq, false_iff]
    omega

theorem whole_int64 : int64.Whole Int64.toInt (-2 ^ 63) (2 ^ 63) := by
  apply Whole.of_range int?_eq_some_iff
  intro z
  constructor
  · rintro ⟨x, rfl⟩
    exact ⟨x.le_toInt, x.toInt_lt⟩
  · rintro ⟨least, below⟩
    exact ⟨.ofInt z, Int64.toInt_ofInt_of_le least below⟩

theorem int32_read?_eq_some_iff (v : Value) (x : Int32) :
    int32.read? v = some x ↔ v.number? = some x.toInt := by
  have wide : int32.read? v = some x ↔ ∃ n : Int64, v.number? = some n.toInt ∧ n.toInt = x.toInt := by
    simp only [int32, Option.bind_eq_some_iff, int?_eq_some_iff, narrow?_eq_some_iff]
  rw [wide]
  constructor
  · rintro ⟨n, carried, same⟩
    rw [carried, same]
  · intro carried
    refine ⟨x.toInt64, ?_, Int32.toInt_toInt64 x⟩
    rw [Int32.toInt_toInt64, carried]

theorem whole_int32 : int32.Whole Int32.toInt (-2 ^ 31) (2 ^ 31) := by
  apply Whole.of_range int32_read?_eq_some_iff
  intro z
  constructor
  · rintro ⟨x, rfl⟩
    exact ⟨x.le_toInt, x.toInt_lt⟩
  · rintro ⟨least, below⟩
    exact ⟨.ofInt z, Int32.toInt_ofInt_of_le least below⟩

theorem whole_uint64 : uint64.Whole (fun n => n.toNat) 0 (2 ^ 64) := by
  apply Whole.of_range uint?_eq_some_iff
  intro z
  constructor
  · rintro ⟨x, rfl⟩
    have := x.toNat_lt
    omega
  · rintro ⟨least, below⟩
    have small : z.toNat < UInt64.size := by
      simp only [UInt64.size]
      omega
    refine ⟨.ofNat z.toNat, ?_⟩
    rw [UInt64.toNat_ofNat_of_lt' small, Int.toNat_of_nonneg least]

/-- What is too great for one type, or too small for another, is not read at all. -/
example : int64.read? (.uint 0x8000000000000000) = none ∧ uint64.read? (.int (-1)) = none ∧
    int32.read? (.uint 0x80000000) = none ∧ int32.read? (.int (-0x80000000)) = some (-0x80000000) := by
  decide

end ResultType

namespace ResultKind

/-- The members of the type. -/
def Member : ResultKind → Type
  | value => Value
  | void => Unit
  | bool => Bool
  | int64 => Int64
  | int32 => Int32
  | uint64 => UInt64
  | float => Double
  | string => String
  | object => Option ObjectId
  | selector => Option Selector

def type : (kind : ResultKind) → ResultType kind.Member
  | value => .value
  | void => .void
  | bool => .bool
  | int64 => .int64
  | int32 => .int32
  | uint64 => .uint64
  | float => .float
  | string => .string
  | object => .object
  | selector => .selector

theorem recast_eq (kind : ResultKind) : kind.recast = kind.type.recast := by
  cases kind <;> rfl

/-- Nothing is lost in a value. -/
theorem read?_write (kind : ResultKind) (x : kind.Member) : kind.type.read? (kind.type.write x) = some x := by
  cases kind with
  | int32 => exact (ResultType.whole_int32.reads _ x).mpr (congrArg some (Int32.toInt_toInt64 x))
  | object => cases x <;> rfl
  | selector => cases x <;> rfl
  | value | void | bool | int64 | uint64 | float | string => rfl

end ResultKind

theorem ResultType.recast_eq_of_read? {α : Type} {t : ResultType α} {v : Value} {x : α} (read : t.read? v = some x) :
    t.recast v = .ok (t.write x) := by
  rw [recast, convert, read]
  rfl

theorem ResultType.recast_eq_of_unread {α : Type} {t : ResultType α} {v : Value} (unread : t.read? v = none) :
    t.recast v = .error (.typeMismatch t.name v.kind) := by
  rw [recast, (t.convert_eq_error_iff v _).mpr ⟨unread, rfl⟩]
  rfl

namespace Act

variable {b b' : Behaviour} {rt : RuntimeId} {receiver : Option ObjectId} {o : ObjectId} {start : Option ClassId}
  {sel : Selector} {args : List Value} {kind : ResultKind} {v : Value} {s t : Session} {m : Nat}

/-- Why a message is refused: nobody answers it, or forwarding would nest too deep. -/
inductive Unanswered : Refusal → Prop
  | misunderstood (c name : String) : Unanswered (.fault (.doesNotUnderstand c name))
  | loop (name : String) (depth : Nat) : Unanswered (.fault (.forwardingLoop name depth))

theorem Forwarded.refused (hb : b.Firm) {result : Except Halt Value × Session}
    (forwarded : Forwarded b rt o sel args s result) {r : Refusal} (refused : result.1 = .error (.refused r)) :
    Unanswered r := by
  cases forwarded with
  | loop =>
    cases refused
    exact .loop ..
  | unhandled =>
    cases refused
    exact .misunderstood ..
  | declined =>
    cases refused
    exact .misunderstood ..
  | halted _ _ asked =>
    cases refused
    exact (Firm.not_refused (hb.answer _ _ _) asked).elim
  | answered _ _ _ _ ran =>
    cases refused
    exact (Firm.not_refused (hb.invoke _ _ _ _ _) ran).elim

theorem send_refused (hb : b.Firm) (shallow : b.Shallow m b') {r : Refusal}
    (refused : (on (send b rt receiver start sel args) s).1 = .error (.refused r)) : Unanswered r := by
  cases receiver with
  | none => cases refused
  | some o =>
    rw [send, on_bind, on_world] at refused
    simp only [on_bind] at refused
    rcases initialized : on (ensureInitialized b rt (s.world.isa o)) s with ⟨e | u, s₁⟩
    · rw [initialized] at refused
      cases refused
      exact (Firm.not_refused (.ensureInitialized hb _ _) initialized).elim
    rw [initialized] at refused
    simp only at refused
    rcases found : on (findImp o start sel) s₁ with ⟨e | _ | imp, s₂⟩
    · rw [found] at refused
      cases refused
      exact (Firm.not_refused (.findImp _ _ _) found).elim
    · rw [found] at refused
      exact (forwarded shallow rt o sel args s₂).refused hb refused
    · rw [found] at refused
      exact absurd refused (hb.invoke rt imp o sel args s₂ r)

/-- What becomes of a result that cannot be read. -/
theorem on_sendAs_unread (sent : on (send b rt (some o) none sel args) s = (.ok v, t))
    (unread : kind.type.read? v = none) :
    on (sendAs b rt (some o) sel args kind) s =
      on (do dropValue b v; refuse (.fault (.typeMismatch kind.type.name v.kind))) t := by
  have failed : kind.recast v = .error (.typeMismatch kind.type.name v.kind) := by
    rw [kind.recast_eq, ResultType.recast_eq_of_unread unread]
  simp only [sendAs, Option.isNone_some, Bool.false_eq_true, if_false, on_bind, sent, failed]

/-- Nothing is refused to who asked for a result that can be read. -/
theorem on_sendAs_read (hb : b.Firm) (sent : on (send b rt (some o) none sel args) s = (.ok v, t))
    {x : kind.Member} (read : kind.type.read? v = some x) (r : Refusal) :
    (on (sendAs b rt (some o) sel args kind) s).1 ≠ .error (.refused r) := by
  have recast : kind.recast v = .ok (kind.type.write x) := by
    rw [kind.recast_eq, ResultType.recast_eq_of_read? read]
  simp only [sendAs, Option.isNone_some, Bool.false_eq_true, if_false, on_bind, sent, recast]
  split
  · exact Firm.bind (.dropValue hb v) (fun _ => .pure _) t r
  · intro refused
    cases refused

theorem sendAs_mismatch_iff (hb : b.Firm) (shallow : b.Shallow m b') {expected found : String} :
    (on (sendAs b rt (some o) sel args kind) s).1 = .error (.refused (.fault (.typeMismatch expected found))) ↔
      ∃ v t, on (send b rt (some o) none sel args) s = (.ok v, t) ∧ kind.type.read? v = none ∧
        (on (dropValue b v) t).1 = .ok () ∧ expected = kind.type.name ∧ found = v.kind := by
  constructor
  · intro refused
    rcases sent : on (send b rt (some o) none sel args) s with ⟨e | v, t⟩
    · have same : on (sendAs b rt (some o) sel args kind) s = (.error e, t) := by
        simp only [sendAs, Option.isNone_some, Bool.false_eq_true, if_false, on_bind, sent]
      rw [same] at refused
      have answered := send_refused hb shallow (congrArg Prod.fst sent |>.trans refused)
      cases answered
    · cases read : kind.type.read? v with
      | some x => exact absurd refused (on_sendAs_read hb sent read _)
      | none =>
        rw [on_sendAs_unread sent read, on_bind] at refused
        rcases dropped : on (dropValue b v) t with ⟨e | u, t'⟩
        · rw [dropped] at refused
          cases refused
          exact (Firm.not_refused (.dropValue hb v) dropped).elim
        · rw [dropped] at refused
          cases refused
          exact ⟨v, t, rfl, read, by rw [dropped], rfl, rfl⟩
  · rintro ⟨v, t, sent, unread, dropped, rfl, rfl⟩
    rw [on_sendAs_unread sent unread, on_bind, on_of_fst dropped]
    rfl

end Act

namespace Program

open Act

/-- Of the types of whole numbers each reads a value exactly if the value carries a number in its range, and as
this number. Every type reads back what it writes, a selector is read as itself, and so is a number of
thirty-two bits without a sign. A message to an object is refused for the type of its result exactly if it is
answered by a value that the type cannot read, and letting go of this value, which may run destructors, comes to
its end. The names in the refusal are those of the type and of the kind of the value. -/
theorem typed_results_exact (p : Program) (n : Nat) :
    (ResultType.int32.Whole Int32.toInt (-2 ^ 31) (2 ^ 31) ∧ ResultType.int64.Whole Int64.toInt (-2 ^ 63) (2 ^ 63) ∧
      ResultType.uint64.Whole (fun x => x.toNat) 0 (2 ^ 64)) ∧
    ((∀ (kind : ResultKind) x, kind.type.read? (kind.type.write x) = some x) ∧
      (∀ sel, ResultType.selector.read? (.sel sel) = some (some sel)) ∧
      ∀ x : UInt32, ∃ y, ResultType.uint64.read? (.ofUInt32 x) = some y ∧ y.toNat = x.toNat) ∧
    ∀ rt o sel args (kind : ResultKind) s expected found,
      (on (sendAs (behaviour p n) rt (some o) sel args kind) s).1 =
          .error (.refused (.fault (.typeMismatch expected found))) ↔
        ∃ v t, on (send (behaviour p n) rt (some o) none sel args) s = (.ok v, t) ∧ kind.type.read? v = none ∧
          (on (dropValue (behaviour p n) v) t).1 = .ok () ∧ expected = kind.type.name ∧ found = v.kind := by
  refine ⟨⟨ResultType.whole_int32, ResultType.whole_int64, ResultType.whole_uint64⟩,
    ⟨ResultKind.read?_write, fun sel => rfl, fun x => ⟨x.toUInt64, rfl, UInt32.toNat_toUInt64 x⟩⟩, ?_⟩
  intro rt o sel args kind s expected found
  exact sendAs_mismatch_iff (p.firm_behaviour n) (p.shallow_behaviour 0 (behaviour p n) n)

/-- A gauge shows the least number that no signed type can hold. -/
def gauge : Program where
  imps := [⟨⟨"reading"⟩, [], .literal (.uint 0x8000000000000000)⟩]
  destructors := []
  environment := []
  threshold := none
  steps := [
    .act none false (.registry (.load {
      protocols := []
      classes := [{ (default : ClassDescriptor) with name := "Gauge", methods := [⟨⟨"read"⟩, ⟨"reading"⟩, none⟩] }]
      categories := [] })),
    .act none false (.objects (.allocate (.named "Gauge") "g"))]

/-- It is read without a sign and not with one. -/
theorem typed_results_exact_gauge :
    ResultType.int64.read? (.uint 0x8000000000000000) = none ∧
    ResultType.uint64.read? (.uint 0x8000000000000000) = some 0x8000000000000000 ∧
    (on (sendAs (behaviour gauge 2) ⟨0⟩ (some ⟨1⟩) ⟨"read"⟩ [] .int64) (gauge.left 2)).1 =
      .error (.refused (.fault (.typeMismatch "int" "uint"))) ∧
    ∀ expected found, (on (sendAs (behaviour gauge 2) ⟨0⟩ (some ⟨1⟩) ⟨"read"⟩ [] .uint64) (gauge.left 2)).1 ≠
      .error (.refused (.fault (.typeMismatch expected found))) := by
  obtain ⟨⟨-, signed, unsigned⟩, -, mismatch⟩ := typed_results_exact gauge 2
  have unread : ResultType.int64.read? (.uint 0x8000000000000000) = none := by
    rw [Option.eq_none_iff_forall_ne_some]
    intro x read
    obtain ⟨z, carried, -, below⟩ := (signed.range _).mp ⟨x, read⟩
    obtain rfl := Option.some.inj carried
    exact absurd below (by decide)
  have read : ResultType.uint64.read? (.uint 0x8000000000000000) = some 0x8000000000000000 :=
    (unsigned.reads _ _).mpr rfl
  have answered : (on (send (behaviour gauge 2) ⟨0⟩ (some ⟨1⟩) none ⟨"read"⟩ []) (gauge.left 2)).1 =
      .ok (.uint 0x8000000000000000) := by decide +kernel
  refine ⟨unread, read, (mismatch ..).mpr ⟨_, _, Prod.ext answered rfl, unread, rfl, rfl, rfl⟩, ?_⟩
  intro expected found refused
  obtain ⟨v, t, sent, unread, -⟩ := (mismatch ..).mp refused
  rw [sent] at answered
  obtain rfl : v = .uint 0x8000000000000000 := Except.ok.inj answered
  cases read.symm.trans unread

end Program

end LateBound
