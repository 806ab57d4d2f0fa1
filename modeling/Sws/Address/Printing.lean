import Sws.Address.IsNumeric
import Sws.Address.Platform

/-!
# Printed IPv6 Addresses

`to_string` puts an IPv6 address between brackets if `is_numeric` accepts its text.  That is so for
all standard texts but that of the address that is all zero, which has no digit, and those of mapped
addresses, which have dots.

## Key Results

- `printsBracketed_iff_isNumeric`: when there are brackets.
- `isNumeric_ipv6Text_iff`: the standard texts that `is_numeric` accepts.
- `printsBracketed_iff`: the addresses that are printed between brackets.
-/

namespace Sws.Address

open Sws.Foundation

variable {inet : InetText} {port : UInt16} {flowInfo scopeId : UInt32} {addr : List UInt8}

/-! ## Brackets -/

/-- A native IPv6 address is printed as its text between brackets, and its port. -/
def PrintsBracketed (inet : InetText) (port : UInt16) (flowInfo : UInt32) (addr : List UInt8)
    (scopeId : UInt32) : Prop :=
  ∃ a, fromNative inet (.inet6 port flowInfo addr scopeId) = .ok a ∧
    a.toString = "[" ++ String.ofList (ipv6Text addr) ++ "]:" ++ (ntohs port).toNat.repr

theorem ntohs_ne_zero (h : port ≠ 0) : ntohs port ≠ 0 := by
  intro hzero
  have hback := htons_ntohs port
  rw [hzero] at hback
  exact h hback.symm

theorem toString_of_isNumeric {text : String} {p : UInt16} (hport : p ≠ 0)
    (hnumeric : Address.isNumeric ⟨text, p, .inet6⟩ = true) :
    Address.toString ⟨text, p, .inet6⟩ = "[" ++ text ++ "]:" ++ p.toNat.repr := by
  rw [toString, if_neg (by simp [hnumeric]), if_pos hport]

theorem toString_of_not_isNumeric {text : String} {p : UInt16} (hport : p ≠ 0)
    (hnumeric : ¬Address.isNumeric ⟨text, p, .inet6⟩ = true) :
    Address.toString ⟨text, p, .inet6⟩ = text ++ ":" ++ p.toNat.repr := by
  rw [toString, if_pos (.inr hnumeric), if_pos hport]

/-- The text is printed between brackets exactly if it is accepted. -/
theorem printsBracketed_iff_isNumeric (hinet : inet.PrintsStandard) (hlen : addr.length = 16)
    (hport : port ≠ 0) :
    PrintsBracketed inet port flowInfo addr scopeId ↔
      Address.isNumeric ⟨String.ofList (ipv6Text addr), ntohs port, .inet6⟩ = true := by
  have hprints : inet.ntop .inet6 addr = some (String.ofList (ipv6Text addr)) :=
    (hinet.ntop_inet6 addr).trans (if_pos hlen)
  have hfrom : fromNative inet (.inet6 port flowInfo addr scopeId) =
      .ok ⟨String.ofList (ipv6Text addr), ntohs port, .inet6⟩ := by
    simp only [fromNative, hprints]
  constructor
  · rintro ⟨a, ha, htext⟩
    cases hfrom.symm.trans ha
    by_contra hnumeric
    -- without brackets the text is shorter
    rw [toString_of_not_isNumeric (ntohs_ne_zero hport) hnumeric] at htext
    have hlength := congrArg String.length htext
    simp only [String.length_append] at hlength
    have hone : "[".length = 1 := rfl
    have htwo : "]:".length = 2 := rfl
    have hcolon : ":".length = 1 := rfl
    omega
  · intro hnumeric
    exact ⟨_, hfrom, toString_of_isNumeric (ntohs_ne_zero hport) hnumeric⟩

/-! ## The texts -/

/-- The standard texts that are accepted are those with a digit and without a dot. -/
theorem isNumeric_ipv6Text_iff (hlen : addr.length = 16) (p : UInt16) :
    Address.isNumeric ⟨String.ofList (ipv6Text addr), p, .inet6⟩ = true ↔
      addr ≠ List.replicate 16 0 ∧ ¬Mapped addr := by
  rw [isNumeric_inet6_iff rfl, String.toList_ofList]
  constructor
  · rintro ⟨hall, c, hc, hdigit⟩
    refine ⟨?_, fun hmapped => ?_⟩
    -- the text `::` has no digit
    · rintro rfl
      have hcolons : ipv6Text (List.replicate 16 0) = [':', ':'] := by decide
      rw [hcolons] at hc
      have hcolon : c = ':' := by simpa using hc
      rw [hcolon] at hdigit
      exact absurd hdigit (by decide)
    -- a mapped address is written with dots
    · have hfour : (addr.drop 12).length = 4 := by rw [List.length_drop, hlen]
      have hdot : '.' ∈ ipv6Text addr := by
        rw [ipv6Text, if_pos hmapped]
        exact List.mem_append_right _ (isIpv4_ipv4Text hfour).dot_mem
      exact absurd (hall '.' hdot) (by decide)
  · rintro ⟨hne, hmapped⟩
    rw [ipv6Text, if_neg hmapped]
    obtain ⟨w, hw, hsome⟩ : ∃ w ∈ wordsOf addr, w ≠ 0 := by
      by_contra hzero
      push Not at hzero
      exact hne (eq_zero_of_wordsOf hlen hzero)
    exact ⟨fun c hc => mem_writeWords hc, exists_digit_writeWords hw hsome⟩

/-- **Brackets.** An IPv6 address is printed as its text between brackets and its port exactly if it
is neither all zero nor mapped. -/
theorem printsBracketed_iff (hinet : inet.PrintsStandard) (hlen : addr.length = 16)
    (hport : port ≠ 0) :
    PrintsBracketed inet port flowInfo addr scopeId ↔
      addr ≠ List.replicate 16 0 ∧ ¬Mapped addr := by
  rw [printsBracketed_iff_isNumeric hinet hlen hport, isNumeric_ipv6Text_iff hlen]

/-- The loopback address. -/
def loopback6 : List UInt8 := [0, 0, 0, 0, 0, 0, 0, 0, 0, 0, 0, 0, 0, 0, 0, 1]

theorem printsBracketed_iff_loopback : PrintsBracketed .standard 36895 0 loopback6 0 :=
  (printsBracketed_iff InetText.standard_prints rfl (by decide)).mpr ⟨by decide, by decide⟩

/-- The loopback address of IPv4. -/
def mappedLoopback : List UInt8 := [0, 0, 0, 0, 0, 0, 0, 0, 0, 0, 255, 255, 127, 0, 0, 1]

/-- The address `::` and a mapped address are printed without brackets. -/
theorem not_printsBracketed :
    ¬PrintsBracketed .standard 20480 0 (List.replicate 16 0) 0 ∧
      ¬PrintsBracketed .standard 20480 0 mappedLoopback 0 := by
  constructor
  · rw [printsBracketed_iff_isNumeric InetText.standard_prints rfl (by decide),
      isNumeric_ipv6Text_iff rfl]
    exact fun h => h.1 rfl
  · rw [printsBracketed_iff_isNumeric InetText.standard_prints rfl (by decide),
      isNumeric_ipv6Text_iff rfl]
    exact fun h => h.2 rfl

end Sws.Address
