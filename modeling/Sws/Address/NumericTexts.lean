import Sws.Address.IsNumeric
import Sws.Address.Platform
import Sws.Foundation.IpShape

/-!
# Texts That Pass for Numeric Addresses

`is_numeric` looks at characters, not at groups: it accepts texts with any number of groups, of any
length and any value.  What it accepts is an address exactly if it has the shape of one.

## Key Results

- `toNative_of_isNumericText`: `to_native` does not refuse a numeric address.
- `sound_iff`: the texts of which `is_numeric` never says wrongly that they are addresses.
-/

namespace Sws.Address

open Sws.Foundation

variable {inet : InetText} {a : Address}

/-- A numeric address of the family. -/
def IsNumericText : AddressFamily → List Char → Prop
  | .inet, cs => IsIpv4 cs
  | .inet6, cs => IsIpv6 cs
  | _, _ => False

/-- If `is_numeric` accepts the text then it is a numeric address, and `to_native` does not refuse
it. -/
def Sound (inet : InetText) (a : Address) : Prop :=
  a.isNumeric = true →
    IsNumericText a.family a.address.toList ∧
      a.toNative inet ≠ .error (.runtimeError "invalid string passed to inet_pton")

/-- The text has another character than digits and separators, or no digit where one has to be, or
the shape of an address. -/
def Shaped (a : Address) : Prop :=
  match a.family with
  | .inet =>
    (∃ c ∈ a.address.toList, ¬(c = '.' ∨ digitValue c < 10)) ∨
      (¬∃ c ∈ a.address.toList.head?, digitValue c < 10) ∨ OctetShape a.address.toList
  | .inet6 =>
    (∃ c ∈ a.address.toList, ¬(c = ':' ∨ digitValue c < 16)) ∨
      (¬∃ c ∈ a.address.toList, digitValue c < 16) ∨ GroupShape a.address.toList
  | _ => True

/-! ## Accepted by the platform -/

/-- `inet_pton` sees the whole of what `is_numeric` accepts. -/
theorem cString_of_isNumeric (hnumeric : a.isNumeric = true) :
    cString a.address = a.address.toList := by
  apply cString_eq_toList
  intro hnul
  rcases isNumeric_cases hnumeric with ⟨-, hall⟩ | ⟨-, hall⟩
  · exact absurd (hall _ hnul) (by decide)
  · exact absurd (hall _ hnul) (by decide)

/-- A numeric address is not refused. -/
theorem toNative_of_isNumericText (hinet : inet.ReadsStandard) (hnumeric : a.isNumeric = true)
    (htext : IsNumericText a.family a.address.toList) : ∃ x, a.toNative inet = .ok x := by
  have hseen := cString_of_isNumeric hnumeric
  rcases isNumeric_cases hnumeric with ⟨hfamily, -⟩ | ⟨hfamily, -⟩
  · rw [hfamily] at htext
    obtain ⟨ns, hns⟩ := Option.isSome_iff_exists.mp (readOctets_isSome_iff.mpr htext)
    have hpton : inet.pton .inet a.address = .address (ns.map UInt8.ofNat) := by
      rw [hinet.pton_inet, hseen, readIpv4, hns]
      rfl
    exact ⟨.inet (htons a.port) (ns.map UInt8.ofNat), by simp only [toNative, hfamily, hpton]⟩
  · rw [hfamily] at htext
    obtain ⟨ws, hws⟩ := Option.isSome_iff_exists.mp (readWords_isSome_iff.mpr htext)
    have hpton : inet.pton .inet6 a.address = .address (bytesOf ws) := by
      rw [hinet.pton_inet6, hseen, readIpv6, hws]
      rfl
    exact ⟨.inet6 (htons a.port) 0 (bytesOf ws) 0, by simp only [toNative, hfamily, hpton]⟩

theorem sound_iff_isNumericText (hinet : inet.ReadsStandard) :
    Sound inet a ↔ (a.isNumeric = true → IsNumericText a.family a.address.toList) := by
  apply forall_congr'
  intro hnumeric
  apply and_iff_left_of_imp
  intro htext
  obtain ⟨x, hx⟩ := toNative_of_isNumericText hinet hnumeric htext
  rw [hx]
  simp

/-! ## The shape -/

/-- A text of the right characters, told by its shape; any other is not accepted. -/
theorem imp_iff_of_accepts {cs : List Char} {start text shape : Prop} {allowed : Char → Prop}
    (hshape : (∀ c ∈ cs, allowed c) → (text ↔ shape)) :
    (start ∧ (∀ c ∈ cs, allowed c) → text) ↔ (∃ c ∈ cs, ¬allowed c) ∨ ¬start ∨ shape := by
  by_cases hall : ∀ c ∈ cs, allowed c
  · have hnone : ¬∃ c ∈ cs, ¬allowed c := fun ⟨c, hc, hnot⟩ => hnot (hall c hc)
    rw [hshape hall, and_iff_left hall, or_iff_right hnone, imp_iff_not_or]
  · have hsome : ∃ c ∈ cs, ¬allowed c := by simpa using hall
    exact iff_of_true (fun h => absurd h.2 hall) (.inl hsome)

/-- **Numeric texts.** Whether `is_numeric` accepts only numeric addresses is a matter of the shape
of the text. -/
theorem sound_iff (hinet : inet.ReadsStandard) (a : Address) : Sound inet a ↔ Shaped a := by
  rw [sound_iff_isNumericText hinet]
  cases hfamily : a.family with
  | inet =>
    rw [isNumeric_inet_iff hfamily]
    simp only [Shaped, hfamily]
    exact imp_iff_of_accepts isIpv4_iff_shape
  | inet6 =>
    rw [isNumeric_inet6_iff hfamily, and_comm]
    simp only [Shaped, hfamily]
    exact imp_iff_of_accepts isIpv6_iff_shape
  | none =>
    simp only [Shaped, hfamily, iff_true]
    intro hnumeric
    rcases isNumeric_cases hnumeric with ⟨h, -⟩ | ⟨h, -⟩ <;> cases hfamily.symm.trans h
  | any =>
    simp only [Shaped, hfamily, iff_true]
    intro hnumeric
    rcases isNumeric_cases hnumeric with ⟨h, -⟩ | ⟨h, -⟩ <;> cases hfamily.symm.trans h

theorem sound_iff_loopback : Sound .standard ⟨"127.0.0.1", 80, .inet⟩ :=
  (sound_iff InetText.standard_reads _).mpr (.inr (.inr
    ⟨by decide, by decide, by decide, by decide, by decide⟩))

/-- Three numbers, an octal one, and a word of hexadecimal digits are accepted. -/
theorem not_sound :
    ¬Sound .standard ⟨"1.2.3", 80, .inet⟩ ∧ ¬Sound .standard ⟨"01.2.3.4", 80, .inet⟩ ∧
      ¬Sound .standard ⟨"beef", 80, .inet6⟩ := by
  refine ⟨?_, ?_, ?_⟩
  · intro h
    have htext : IsIpv4 "1.2.3".toList := (h (by decide)).1
    exact absurd (readOctets_isSome_iff.mpr htext) (by decide)
  · intro h
    have htext : IsIpv4 "01.2.3.4".toList := (h (by decide)).1
    exact absurd (readOctets_isSome_iff.mpr htext) (by decide)
  · intro h
    have htext : IsIpv6 "beef".toList := (h (by decide)).1
    exact absurd (readWords_isSome_iff.mpr htext) (by decide)

end Sws.Address
