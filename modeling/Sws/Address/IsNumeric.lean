import Sws.Foundation.Numeral
import Sws.Model.Address

/-!
# The Texts That `is_numeric` Accepts

The loops of `is_numeric` look at one character at a time and remember only whether there has been a
digit.  What they accept is a condition on the characters.

## Key Results

- `isNumeric_inet_iff`, `isNumeric_inet6_iff`: the texts that are accepted.
-/

namespace Sws.Address

open Sws.Foundation

variable {a : Address} {cs : List Char}

theorem isNumericInet_cons (hasNumber : Bool) (c : Char) (cs : List Char) :
    isNumericInet hasNumber (c :: cs) =
      if c = '.' then hasNumber && isNumericInet hasNumber cs
      else if digitValue c < 10 then isNumericInet true cs else false := by
  cases hasNumber <;> simp [isNumericInet, digitValue_lt_ten_iff]

theorem isNumericInet6_cons (hasNumber : Bool) (c : Char) (cs : List Char) :
    isNumericInet6 hasNumber (c :: cs) =
      if digitValue c < 16 then isNumericInet6 true cs
      else if c = ':' then isNumericInet6 hasNumber cs else false := by
  simp only [isNumericInet6, digitValue_lt_sixteen_iff]

/-- Behind a digit, digits and dots are accepted in any order. -/
theorem isNumericInet_true_iff :
    isNumericInet true cs = true ↔ ∀ c ∈ cs, c = '.' ∨ digitValue c < 10 := by
  induction cs with
  | nil => simp [isNumericInet]
  | cons c cs ih =>
    rw [isNumericInet_cons, List.forall_mem_cons, ← ih]
    split_ifs with hdot hdigit
    · simp [hdot]
    · simp [hdigit]
    · simp [hdot, hdigit]

/-- The first character has to be a digit. -/
theorem isNumericInet_iff :
    isNumericInet false cs = true ↔
      (∃ c ∈ cs.head?, digitValue c < 10) ∧ ∀ c ∈ cs, c = '.' ∨ digitValue c < 10 := by
  cases cs with
  | nil => simp [isNumericInet]
  | cons c cs =>
    rw [isNumericInet_cons, List.forall_mem_cons]
    split_ifs with hdot hdigit
    · subst hdot
      simp [show ¬digitValue '.' < 10 by decide]
    · rw [isNumericInet_true_iff]
      simp [hdigit]
    · simp [hdigit]

/-- Digits and colons are accepted in any order, if there is a digit among them. -/
theorem isNumericInet6_iff (hasNumber : Bool) :
    isNumericInet6 hasNumber cs = true ↔
      (∀ c ∈ cs, c = ':' ∨ digitValue c < 16) ∧
        (hasNumber = true ∨ ∃ c ∈ cs, digitValue c < 16) := by
  induction cs generalizing hasNumber with
  | nil => simp [isNumericInet6]
  | cons c cs ih =>
    rw [isNumericInet6_cons, List.forall_mem_cons]
    split_ifs with hdigit hcolon
    · rw [ih]
      simp [hdigit]
    · subst hcolon
      rw [ih]
      simp [hdigit]
    · simp [hdigit, hcolon]

theorem isNumeric_inet_iff (hfamily : a.family = .inet) :
    a.isNumeric = true ↔
      (∃ c ∈ a.address.toList.head?, digitValue c < 10) ∧
        ∀ c ∈ a.address.toList, c = '.' ∨ digitValue c < 10 := by
  rw [isNumeric, hfamily]
  split_ifs with hempty
  · rw [hempty]
    simp
  · exact isNumericInet_iff

theorem isNumeric_inet6_iff (hfamily : a.family = .inet6) :
    a.isNumeric = true ↔
      (∀ c ∈ a.address.toList, c = ':' ∨ digitValue c < 16) ∧
        ∃ c ∈ a.address.toList, digitValue c < 16 := by
  rw [isNumeric, hfamily]
  split_ifs with hempty
  · rw [hempty]
    simp
  · simp [isNumericInet6_iff]

/-- Addresses of other families are not numeric. -/
theorem isNumeric_cases (hnumeric : a.isNumeric = true) :
    a.family = .inet ∧ (∀ c ∈ a.address.toList, c = '.' ∨ digitValue c < 10) ∨
      a.family = .inet6 ∧ ∀ c ∈ a.address.toList, c = ':' ∨ digitValue c < 16 := by
  cases hfamily : a.family with
  | inet => exact .inl ⟨rfl, ((isNumeric_inet_iff hfamily).mp hnumeric).2⟩
  | inet6 => exact .inr ⟨rfl, ((isNumeric_inet6_iff hfamily).mp hnumeric).1⟩
  | none => simp [isNumeric, hfamily] at hnumeric
  | any => simp [isNumeric, hfamily] at hnumeric

end Sws.Address
