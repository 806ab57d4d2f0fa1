import Mathlib.Data.List.TakeWhile
import Sws.Foundation.IpRoundTrip
import Sws.Model.Address

/-!
# The Platform's Text Forms

What `inet_ntop` and `inet_pton` are documented to do, as conditions on the parameter of the model,
and a platform that does it.

## Model

- `InetText.Inverts`: every address has a text, and the text is read back as the address.
- `InetText.PrintsStandard`, `InetText.ReadsStandard`: the texts are the standard ones, and every
  other text is refused.
- `inet_pton` gets the text of an address by `c_str`, and sees it up to its first NUL.
-/

namespace Sws

open Sws.Foundation

/-- The length of a family's addresses. -/
def AddressFamily.addressSize : AddressFamily → Option ℕ
  | .inet => some 4
  | .inet6 => some 16
  | _ => .none

/-- What a native function sees of a text. -/
def cString (text : String) : List Char := text.toList.takeWhile (· ≠ '\x00')

/-- The outcome of `inet_pton` for a text that is read as an address, or is not. -/
def PtonResult.ofOption : Option (List UInt8) → PtonResult
  | some addr => .address addr
  | none => .invalid

/-- Every address has a text, and is read back from it. -/
def InetText.Inverts (inet : InetText) : Prop :=
  ∀ family addr, family.addressSize = some addr.length →
    ∃ text, inet.ntop family addr = some text ∧ inet.pton family text = .address addr

/-- Addresses are printed as their standard texts. -/
structure InetText.PrintsStandard (inet : InetText) : Prop where
  ntop_inet : ∀ addr, inet.ntop .inet addr =
    if addr.length = 4 then some (String.ofList (ipv4Text addr)) else none
  ntop_inet6 : ∀ addr, inet.ntop .inet6 addr =
    if addr.length = 16 then some (String.ofList (ipv6Text addr)) else none

/-- The standard texts are read as addresses, and no others. -/
structure InetText.ReadsStandard (inet : InetText) : Prop where
  pton_inet : ∀ text, inet.pton .inet text = .ofOption (readIpv4 (cString text))
  pton_inet6 : ∀ text, inet.pton .inet6 text = .ofOption (readIpv6 (cString text))

/-- The platform with the standard texts. -/
def InetText.standard : InetText where
  ntop family addr :=
    match family with
    | .inet => if addr.length = 4 then some (String.ofList (ipv4Text addr)) else none
    | .inet6 => if addr.length = 16 then some (String.ofList (ipv6Text addr)) else none
    | _ => none
  pton family text :=
    match family with
    | .inet => .ofOption (readIpv4 (cString text))
    | .inet6 => .ofOption (readIpv6 (cString text))
    | _ => .failure (.other 10047)

theorem InetText.standard_prints : InetText.standard.PrintsStandard where
  ntop_inet _ := rfl
  ntop_inet6 _ := rfl

theorem InetText.standard_reads : InetText.standard.ReadsStandard where
  pton_inet _ := rfl
  pton_inet6 _ := rfl

/-- A text without a NUL is seen as a whole. -/
theorem cString_eq_toList {text : String} (h : '\x00' ∉ text.toList) :
    cString text = text.toList := by
  rw [cString, List.takeWhile_eq_self_iff]
  intro c hc
  exact decide_eq_true fun hnul => h (hnul ▸ hc)

theorem cString_ofList {cs : List Char} (h : '\x00' ∉ cs) : cString (String.ofList cs) = cs := by
  rw [cString_eq_toList (by rw [String.toList_ofList]; exact h), String.toList_ofList]

/-- A standard text has no NUL. -/
theorem cString_ipv4Text (addr : List UInt8) :
    cString (String.ofList (ipv4Text addr)) = ipv4Text addr :=
  cString_ofList fun hnul => absurd (mem_ipv4Text hnul) (by decide)

theorem cString_ipv6Text (addr : List UInt8) :
    cString (String.ofList (ipv6Text addr)) = ipv6Text addr :=
  cString_ofList fun hnul => absurd (mem_ipv6Text hnul) (by decide)

/-- **The standard texts are inverted.** -/
theorem InetText.PrintsStandard.inverts {inet : InetText} (hprints : inet.PrintsStandard)
    (hreads : inet.ReadsStandard) : inet.Inverts := by
  intro family addr hsize
  cases family with
  | inet =>
    have hlen : addr.length = 4 := (Option.some.inj hsize).symm
    refine ⟨_, (hprints.ntop_inet addr).trans (if_pos hlen), ?_⟩
    rw [hreads.pton_inet, cString_ipv4Text, readIpv4_ipv4Text hlen]
    rfl
  | inet6 =>
    have hlen : addr.length = 16 := (Option.some.inj hsize).symm
    refine ⟨_, (hprints.ntop_inet6 addr).trans (if_pos hlen), ?_⟩
    rw [hreads.pton_inet6, cString_ipv6Text, readIpv6_ipv6Text hlen]
    rfl
  | none => cases hsize
  | any => cases hsize

theorem InetText.standard_inverts : InetText.standard.Inverts :=
  standard_prints.inverts standard_reads

/-! ## Byte order -/

/-- Both conversions swap the bytes of a port. -/
theorem htons_ntohs (x : UInt16) : htons (ntohs x) = x := by
  unfold htons ntohs
  rw [← UInt16.toBitVec_inj]
  ext i hi
  have hbeyond : x.toBitVec.getLsbD (8 + (8 + i)) = false := BitVec.getLsbD_of_ge _ _ (by omega)
  -- the two bytes change places, and change them again
  rcases Nat.lt_or_ge i 8 with hlow | hhigh
  · have hup : 8 + i < 16 := by omega
    simp [hlow, hup, hbeyond]
  · have hdown : 8 + (i - 8) = i := by omega
    have hup : ¬8 + i < 16 := by omega
    have hshort : i - 8 < 8 := by omega
    simp [Nat.not_lt.mpr hhigh, hup, hdown, hshort, hbeyond, BitVec.getLsbD_eq_getElem hi]

end Sws
