import Mathlib.Data.List.Induction
import Mathlib.Tactic.IntervalCases

/-!
# Numerals

Numbers written with the digits `0`-`9` and `a`-`f` in either case, in any base up to 16, and what
a format that restricts their length and their value reads back.
-/

namespace Sws.Foundation

/-! ## Digits -/

/-- The value of a digit; a character that is none has a value that is below no base. -/
def digitValue (c : Char) : ℕ :=
  if '0' ≤ c ∧ c ≤ '9' then c.toNat - '0'.toNat
  else if 'a' ≤ c ∧ c ≤ 'f' then c.toNat - 'a'.toNat + 10
  else if 'A' ≤ c ∧ c ≤ 'F' then c.toNat - 'A'.toNat + 10
  else 16

theorem char_mem_iff {lo hi c : Char} :
    (lo ≤ c ∧ c ≤ hi) ↔ lo.toNat ≤ c.toNat ∧ c.toNat ≤ hi.toNat := Iff.rfl

theorem digitValue_lt_ten_iff {c : Char} : digitValue c < 10 ↔ '0' ≤ c ∧ c ≤ '9' := by
  unfold digitValue
  simp only [char_mem_iff, Char.reduceToNat]
  split_ifs <;> omega

theorem digitValue_lt_sixteen_iff {c : Char} :
    digitValue c < 16 ↔
      ('a' ≤ c ∧ c ≤ 'f') ∨ ('A' ≤ c ∧ c ≤ 'F') ∨ ('0' ≤ c ∧ c ≤ '9') := by
  unfold digitValue
  simp only [char_mem_iff, Char.reduceToNat]
  split_ifs <;> omega

theorem digitValue_digitChar {n : ℕ} (h : n < 16) : digitValue n.digitChar = n := by
  interval_cases n <;> rfl

/-! ## Numbers -/

/-- The number that a list of digits stands for. -/
def numeralValue (base : ℕ) (cs : List Char) : ℕ :=
  cs.foldl (fun n c => base * n + digitValue c) 0

variable {base n : ℕ} {cs : List Char}

/-- The last digit counts once, and what stands before it as often as the base says. -/
theorem numeralValue_snoc (c : Char) :
    numeralValue base (cs ++ [c]) = base * numeralValue base cs + digitValue c := by
  rw [numeralValue, List.foldl_append]
  rfl

/-- Digits are read back as the number they were made of. -/
theorem numeralValue_toDigits (hone : 1 < base) (hbase : base ≤ 16) (n : ℕ) :
    numeralValue base (Nat.toDigits base n) = n := by
  induction n using Nat.strongRecOn with
  | ind n ih =>
    rcases Nat.lt_or_ge n base with hlt | hge
    · rw [Nat.toDigits_of_lt_base hlt]
      show base * 0 + digitValue n.digitChar = n
      rw [digitValue_digitChar (by omega), Nat.mul_zero, Nat.zero_add]
    · have hdigit : n % base < base := Nat.mod_lt n (by omega)
      rw [Nat.toDigits_of_base_le hone hge, numeralValue_snoc,
        ih (n / base) (Nat.div_lt_self (by omega) hone), digitValue_digitChar (by omega)]
      exact Nat.div_add_mod n base

/-- A numeral is made of digits of its base. -/
theorem digitValue_lt_of_mem_toDigits (hone : 1 < base) (hbase : base ≤ 16) {c : Char}
    (hc : c ∈ Nat.toDigits base n) : digitValue c < base := by
  induction n using Nat.strongRecOn with
  | ind n ih =>
    rcases Nat.lt_or_ge n base with hlt | hge
    · rw [Nat.toDigits_of_lt_base hlt, List.mem_singleton] at hc
      rw [hc, digitValue_digitChar (by omega)]
      exact hlt
    · have hdigit : n % base < base := Nat.mod_lt n (by omega)
      rw [Nat.toDigits_of_base_le hone hge, List.mem_append, List.mem_singleton] at hc
      rcases hc with hfront | rfl
      · exact ih (n / base) (Nat.div_lt_self (by omega) hone) hfront
      · rw [digitValue_digitChar (by omega)]
        exact hdigit

/-- No zero stands in front of another digit. -/
def Unpadded (cs : List Char) : Prop := cs.head? = some '0' → cs = ['0']

instance (cs : List Char) : Decidable (Unpadded cs) := inferInstanceAs (Decidable (_ → _))

theorem digitChar_ne_zero (h : n < 16) (hpos : 0 < n) : n.digitChar ≠ '0' := by
  intro hzero
  have hvalue : digitValue '0' = n := by rw [← hzero, digitValue_digitChar h]
  exact absurd hvalue (by rw [show digitValue '0' = 0 from rfl]; omega)

/-- The numeral of a number that is not zero does not begin with a zero. -/
theorem head?_toDigits_ne (hone : 1 < base) (hbase : base ≤ 16) (hpos : 0 < n) :
    (Nat.toDigits base n).head? ≠ some '0' := by
  induction n using Nat.strongRecOn with
  | ind n ih =>
    rcases Nat.lt_or_ge n base with hlt | hge
    · rw [Nat.toDigits_of_lt_base hlt, List.head?_cons, Ne, Option.some.injEq]
      exact digitChar_ne_zero (by omega) hpos
    · have hfront := ih (n / base) (Nat.div_lt_self hpos hone) (Nat.div_pos hge (by omega))
      have hsome : Nat.toDigits base (n / base) ≠ [] := Nat.toDigits_ne_nil
      obtain ⟨c, cs, hcs⟩ := List.exists_cons_of_ne_nil hsome
      rw [Nat.toDigits_of_base_le hone hge, hcs]
      rwa [hcs] at hfront

theorem unpadded_toDigits (hone : 1 < base) (hbase : base ≤ 16) (n : ℕ) :
    Unpadded (Nat.toDigits base n) := by
  intro hhead
  rcases Nat.eq_zero_or_pos n with rfl | hpos
  · exact Nat.toDigits_zero base
  · exact absurd hhead (head?_toDigits_ne hone hbase hpos)

/-- A number has no more digits than its numeral. -/
theorem numeralValue_lt (hdigits : ∀ c ∈ cs, digitValue c < base) :
    numeralValue base cs < base ^ cs.length := by
  induction cs using List.reverseRecOn with
  | nil => exact Nat.one_pos
  | append_singleton cs c ih =>
    have hlast : digitValue c < base := hdigits c (by simp)
    have hfront : numeralValue base cs < base ^ cs.length :=
      ih fun d hd => hdigits d (List.mem_append_left _ hd)
    rw [numeralValue_snoc, List.length_append, List.length_singleton, Nat.pow_succ]
    calc base * numeralValue base cs + digitValue c
        < base * numeralValue base cs + base := by omega
      _ = (numeralValue base cs + 1) * base := by rw [Nat.succ_mul, Nat.mul_comm]
      _ ≤ base ^ cs.length * base := Nat.mul_le_mul_right base hfront

/-! ## Formats -/

/-- The numerals of a base that a format takes: not too long, and not too large. -/
structure NumeralFormat where
  base : ℕ
  maxDigits : ℕ
  maxValue : ℕ
  /-- Whether zeros can stand in front. -/
  padded : Bool
  one_lt_base : 1 < base
  base_le : base ≤ 16
  maxDigits_pos : 0 < maxDigits
  /-- Every number of the format can be written. -/
  maxValue_lt : maxValue < base ^ maxDigits

namespace NumeralFormat

variable (f : NumeralFormat)

/-- A numeral of the format. -/
def Accepts (cs : List Char) : Prop :=
  cs ≠ [] ∧ cs.length ≤ f.maxDigits ∧ (∀ c ∈ cs, digitValue c < f.base) ∧
    numeralValue f.base cs ≤ f.maxValue ∧ (f.padded = false → Unpadded cs)

instance (cs : List Char) : Decidable (f.Accepts cs) :=
  -- the digits of the list are tried, and not all characters
  letI : Decidable (∀ c ∈ cs, digitValue c < f.base) := List.decidableBAll _ cs
  inferInstanceAs (Decidable (_ ∧ _ ∧ _ ∧ _ ∧ _))

/-- The number that a numeral of the format stands for. -/
def read (cs : List Char) : Option ℕ :=
  if f.Accepts cs then some (numeralValue f.base cs) else none

/-- The shortest numeral of a number. -/
def write (n : ℕ) : List Char := Nat.toDigits f.base n

variable {f}

theorem read_isSome_iff : (f.read cs).isSome = true ↔ f.Accepts cs := by
  unfold read
  split_ifs with h
  · exact iff_of_true rfl h
  · exact iff_of_false Bool.false_ne_true h

/-- A format accepts the numerals that it writes. -/
theorem accepts_write (h : n ≤ f.maxValue) : f.Accepts (f.write n) := by
  have hshort : n < f.base ^ f.maxDigits := Nat.lt_of_le_of_lt h f.maxValue_lt
  refine ⟨Nat.toDigits_ne_nil, ?_, fun c hc => ?_, ?_, fun _ => ?_⟩
  · exact (Nat.length_toDigits_le_iff f.one_lt_base f.maxDigits_pos).mpr hshort
  · exact digitValue_lt_of_mem_toDigits f.one_lt_base f.base_le hc
  · rw [write, numeralValue_toDigits f.one_lt_base f.base_le]
    exact h
  · exact unpadded_toDigits f.one_lt_base f.base_le n

/-- **Round trip.** A number of the format is read back from its numeral. -/
theorem read_write (h : n ≤ f.maxValue) : f.read (f.write n) = some n := by
  rw [read, if_pos (accepts_write h), write, numeralValue_toDigits f.one_lt_base f.base_le]

end NumeralFormat

end Sws.Foundation
