import LateBound.Encoding

/-!
# Signatures, written and read

A signature is written as its codes with decimal digits after each. No code is a digit, so leaving the digits out
gives back the codes, and what is read is exactly what was written.
-/

namespace LateBound

namespace Encoding

variable {c : Char} {encoding : String} {signature : Signature}

/-- All characters that stand for a type. -/
def typeCodes : List Char := "vcCBsSiIflqQd@#:*^?".toList

theorem isTypeCode_iff : isTypeCode c ↔ c ∈ typeCodes := by
  constructor
  · intro code
    unfold isTypeCode size? at code
    split at code
    all_goals first | decide | cases code
  · intro listed
    have every : typeCodes.all isTypeCode = true := by decide
    exact List.all_eq_true.mp every c listed

theorem isStorable_iff_isTypeCode : isStorable c ↔ isTypeCode c ∧ c ≠ 'v' := by
  rw [isStorable, Bool.and_eq_true, bne_iff_ne]

theorem isDigit_of_isTypeCode (code : isTypeCode c) : c.isDigit = false := by
  have every : typeCodes.all (fun d => d.isDigit == false) = true := by decide
  exact eq_of_beq (List.all_eq_true.mp every c (isTypeCode_iff.mp code))

/-- Codes with the digits after each of them. -/
def write (slots : List (Char × List Char)) : String := String.ofList (slots.flatMap fun slot => slot.1 :: slot.2)

/-- Leaving the digits out gives back the codes. -/
theorem codes_write {slots : List (Char × List Char)} (plain : ∀ slot ∈ slots, slot.1.isDigit = false)
    (digits : ∀ slot ∈ slots, ∀ d ∈ slot.2, d.isDigit) : codes (write slots) = slots.map Prod.fst := by
  rw [codes, write, String.toList_ofList]
  induction slots with
  | nil => rfl
  | cons slot slots ih =>
    simp only [List.mem_cons, forall_eq_or_imp] at plain digits
    have none : slot.2.filter (fun c => !c.isDigit) = [] := by
      simpa using digits.1
    rw [List.flatMap_cons, List.filter_append, ih plain.2 digits.2]
    simp [plain.1, none]

/-- The receiver and the selector come first among the arguments, and every argument takes room. -/
structure Signature.Valid (signature : Signature) : Prop where
  result : isTypeCode signature.result
  slots : ∃ rest, signature.arguments = '@' :: ':' :: rest
  arguments : ∀ a ∈ signature.arguments, isStorable a

theorem signature?_eq_some_iff :
    signature? encoding = some signature ↔
      codes encoding = signature.result :: signature.arguments ∧ signature.Valid := by
  constructor
  · intro read
    unfold signature? at read
    split at read
    · rename_i result rest split
      split at read
      · rename_i valid
        cases read
        rw [Bool.and_eq_true, List.all_eq_true] at valid
        refine ⟨split, valid.1, ⟨rest, rfl⟩, ?_⟩
        simp only [List.mem_cons, forall_eq_or_imp]
        exact ⟨by decide, by decide, valid.2⟩
      · cases read
    · cases read
  · rintro ⟨split, result, ⟨rest, slots⟩, arguments⟩
    obtain ⟨code, all⟩ := signature
    cases slots
    simp only [List.mem_cons, forall_eq_or_imp] at arguments
    have valid : (isTypeCode code && rest.all isStorable) = true := by
      rw [Bool.and_eq_true, List.all_eq_true]
      exact ⟨result, arguments.2.2⟩
    simp only [signature?, split, valid, if_true]

theorem readSignature_eq_ok_iff :
    readSignature encoding = .ok signature ↔
      codes encoding = signature.result :: signature.arguments ∧ signature.Valid := by
  rw [← signature?_eq_some_iff, readSignature]
  cases signature? encoding with
  | none => simp
  | some read => simp

theorem readSignature_eq_error (unread : ∀ signature, readSignature encoding ≠ .ok signature) :
    readSignature encoding = .error (.invalidEncoding encoding) := by
  unfold readSignature at unread ⊢
  cases read : signature? encoding with
  | none => rfl
  | some signature => exact absurd (by rw [read]) (unread signature)

theorem readSignature_write {slots : List (Char × List Char)}
    (split : slots.map Prod.fst = signature.result :: signature.arguments) (valid : signature.Valid)
    (digits : ∀ slot ∈ slots, ∀ d ∈ slot.2, d.isDigit) : readSignature (write slots) = .ok signature := by
  rw [readSignature_eq_ok_iff]
  refine ⟨?_, valid⟩
  rw [codes_write _ digits, split]
  intro slot mem
  have written : slot.1 ∈ signature.result :: signature.arguments := split ▸ List.mem_map_of_mem mem
  rcases List.mem_cons.mp written with result | argument
  · exact isDigit_of_isTypeCode (result ▸ valid.result)
  · exact isDigit_of_isTypeCode (isStorable_iff_isTypeCode.mp (valid.arguments _ argument)).1

/-- A result, the receiver, the selector and the arguments, written with any digits after each, are read as written;
what is read is exactly what is left of the text without its digits, if that is a signature of known codes; any
other text is refused under its own name; and a text passes the check exactly if it can be read. -/
theorem signatures_read_as_written :
    (∀ (result : Char) (arguments : List Char) (slots : List (Char × List Char)),
      isTypeCode result → (∀ a ∈ arguments, isTypeCode a ∧ a ≠ 'v') →
      slots.map Prod.fst = result :: '@' :: ':' :: arguments → (∀ slot ∈ slots, ∀ d ∈ slot.2, d.isDigit) →
      readSignature (write slots) = .ok ⟨result, '@' :: ':' :: arguments⟩) ∧
    (∀ (encoding : String) (result : Char) (arguments : List Char),
      readSignature encoding = .ok ⟨result, arguments⟩ ↔
      (encoding.toList.filter fun c => !c.isDigit) = result :: arguments ∧
      (∃ rest, arguments = '@' :: ':' :: rest) ∧ isTypeCode result ∧ ∀ a ∈ arguments, isTypeCode a ∧ a ≠ 'v') ∧
    (∀ encoding, (∃ signature, readSignature encoding = .ok signature) ∨
      readSignature encoding = .error (.invalidEncoding encoding)) ∧
    (∀ encoding, checkSignature encoding = .ok () ↔ ∃ signature, readSignature encoding = .ok signature) ∧
    ∀ c, isTypeCode c ↔ c ∈ typeCodes := by
  refine ⟨?written, ?read, ?refused, ?checked, fun c => isTypeCode_iff⟩
  case written =>
    intro result arguments slots code storable split digits
    refine readSignature_write split ⟨code, ⟨arguments, rfl⟩, ?_⟩ digits
    simp only [List.mem_cons, forall_eq_or_imp]
    exact ⟨by decide, by decide, fun a mem => isStorable_iff_isTypeCode.mpr (storable a mem)⟩
  case read =>
    intro encoding result arguments
    rw [readSignature_eq_ok_iff]
    constructor
    · rintro ⟨split, code, slots, storable⟩
      exact ⟨split, slots, code, fun a mem => isStorable_iff_isTypeCode.mp (storable a mem)⟩
    · rintro ⟨split, slots, code, storable⟩
      exact ⟨split, code, slots, fun a mem => isStorable_iff_isTypeCode.mpr (storable a mem)⟩
  case refused =>
    intro encoding
    by_cases read : ∃ signature, readSignature encoding = .ok signature
    · exact .inl read
    · exact .inr (readSignature_eq_error (not_exists.mp read))
  case checked =>
    intro encoding
    rw [checkSignature]
    cases readSignature encoding with
    | error fault => simp [Except.map]
    | ok signature => simp [Except.map]

/-- No result, with digits behind it and behind others. Nothing cannot be passed as an argument. -/
theorem signatures_read_as_written_padded :
    readSignature "v16@0:8iq24" = .ok ⟨'v', ['@', ':', 'i', 'q']⟩ ∧ checkSignature "v16@0:8iq24" = .ok () ∧
    readSignature "v@:v" = .error (.invalidEncoding "v@:v") := by
  obtain ⟨written, read, refused, checked, -⟩ := signatures_read_as_written
  have passed : ∀ a ∈ ['i', 'q'], isTypeCode a ∧ a ≠ 'v' := by
    simp only [List.forall_mem_cons]
    exact ⟨by decide, by decide, nofun⟩
  have padded := written 'v' ['i', 'q'] [('v', ['1', '6']), ('@', ['0']), (':', ['8']), ('i', []), ('q', ['2', '4'])]
    (by decide) passed rfl (by simp)
  refine ⟨padded, (checked _).mpr ⟨_, padded⟩, ?_⟩
  rcases refused "v@:v" with ⟨⟨result, arguments⟩, accepted⟩ | fault
  · obtain ⟨split, -, -, storable⟩ := (read _ _ _).mp accepted
    obtain ⟨-, rfl⟩ := List.cons.inj split
    exact absurd rfl (storable 'v' (by decide)).2
  · exact fault

/-- Digits in front are left out as well. -/
example : readSignature "7i24@0:8i16" = .ok ⟨'i', ['@', ':', 'i']⟩ := by rfl

/-- Digits of other scripts are not left out. -/
example : readSignature "i٢@:" = .error (.invalidEncoding "i٢@:") := by rfl

end Encoding

end LateBound
