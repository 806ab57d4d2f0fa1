import Std.Data.String.ToNat
import Sws.Address.Printing
import Sws.Address.RoundTrip
import Sws.Foundation.IpShape

/-!
# Printed Addresses Are Distinct

`to_string` does not put every IPv6 address between brackets, so the port can follow a text that has
colons itself.  No two native addresses are printed alike nevertheless: the texts that stand without
brackets are no addresses any more with a port behind them.

## Key Results

- `toString_fromNative`: how a native address is printed.
- `text_ne_snoc_port`: a text without brackets and a port are no address.
- `toString_eq_iff`: the addresses that are printed alike.
-/

namespace Sws.Address

open Sws.Foundation

/-! ## Printing -/

/-- The standard text of a native address. -/
def nativeText : Sockaddr → List Char
  | .inet _ addr => ipv4Text addr
  | .inet6 _ _ addr _ => ipv6Text addr
  | .unsupported _ => []

/-- The port, in the byte order of the host. -/
def nativePort : Sockaddr → UInt16
  | .inet port _ => ntohs port
  | .inet6 port _ _ _ => ntohs port
  | .unsupported _ => 0

/-- With a port, the text is put between brackets. -/
def Enclosed : Sockaddr → Prop
  | .inet6 _ _ addr _ => addr ≠ List.replicate 16 0 ∧ ¬Mapped addr
  | _ => False

instance (x : Sockaddr) : Decidable (Enclosed x) := by
  cases x <;> unfold Enclosed <;> infer_instance

/-- What stands in front of the port. -/
def front (x : Sockaddr) : List Char :=
  if Enclosed x then '[' :: (nativeText x ++ [']']) else nativeText x

/-- The decimal digits of a port. -/
def portDigits (p : UInt16) : List Char := Nat.toDigits 10 p.toNat

def printed (x : Sockaddr) : List Char :=
  if nativePort x = 0 then nativeText x else front x ++ ':' :: portDigits (nativePort x)

section Printing

variable {inet : InetText} {x y : Sockaddr} {a b : Address}

theorem toString_fromNative (hinet : inet.PrintsStandard) (hx : x.IsIp)
    (ha : fromNative inet x = .ok a) : a.toString.toList = printed x := by
  have hdigits : ∀ p : UInt16, p.toNat.repr.toList = portDigits p := fun _ => Nat.toList_repr
  cases x with
  | inet port addr =>
    have hlen : addr.length = 4 := hx
    rw [fromNative, hinet.ntop_inet, if_pos hlen] at ha
    cases ha
    rw [printed]
    show _ = if ntohs port = 0 then ipv4Text addr
      else front (.inet port addr) ++ ':' :: portDigits (ntohs port)
    by_cases hport : ntohs port = 0
    · rw [if_pos hport, toString]
      simp [hport]
    -- an IPv4 address is never enclosed
    · have hopen : ¬Enclosed (.inet port addr) := id
      rw [if_neg hport, toString, if_pos (.inl (by simp)), if_pos hport, front, if_neg hopen]
      simp only [String.toList_append, String.toList_ofList, hdigits]
      simp [nativeText]
  | inet6 port flowInfo addr scopeId =>
    have hlen : addr.length = 16 := hx
    rw [fromNative, hinet.ntop_inet6, if_pos hlen] at ha
    cases ha
    -- `is_numeric` decides about the brackets
    have hnumeric := isNumeric_ipv6Text_iff hlen (ntohs port)
    rw [printed]
    show _ = if ntohs port = 0 then ipv6Text addr
      else front (.inet6 port flowInfo addr scopeId) ++ ':' :: portDigits (ntohs port)
    by_cases hport : ntohs port = 0
    · rw [if_pos hport, toString]
      simp [hport]
    · rw [if_neg hport]
      by_cases henclosed : Enclosed (.inet6 port flowInfo addr scopeId)
      · rw [toString_of_isNumeric hport (hnumeric.mpr henclosed), front, if_pos henclosed]
        simp only [String.toList_append, String.toList_ofList, hdigits]
        simp [nativeText]
      · rw [toString_of_not_isNumeric hport (mt hnumeric.mp henclosed), front, if_neg henclosed]
        simp only [String.toList_append, String.toList_ofList, hdigits]
        simp [nativeText]
  | unsupported family => exact hx.elim

end Printing

/-! ## Texts -/

section Texts

variable {x y : Sockaddr} {p : List Char}

/-- There are no other characters in the text of an address. -/
theorem mem_nativeText {c : Char} (hc : c ∈ nativeText x) :
    c = ':' ∨ c = '.' ∨ digitValue c < 16 := by
  cases x with
  | inet port addr => exact .inr ((mem_ipv4Text hc).imp_right fun h => by omega)
  | inet6 port flowInfo addr scopeId => exact mem_ipv6Text hc
  | unsupported family => cases hc

/-- Among the IPv6 addresses only mapped ones have dots. -/
theorem mapped_of_dot_mem {addr : List UInt8} (hdot : '.' ∈ ipv6Text addr) : Mapped addr := by
  by_contra hplain
  rw [ipv6Text, if_neg hplain] at hdot
  exact absurd (mem_writeWords hdot) (by decide)

theorem ipv6Text_of_dot_mem {addr : List UInt8} (hdot : '.' ∈ ipv6Text addr) :
    ipv6Text addr = "::ffff:".toList ++ ipv4Text (addr.drop 12) := by
  rw [ipv6Text, if_pos (mapped_of_dot_mem hdot)]

/-- An IPv4 address has dots and no colon. -/
theorem ipv4Text_ne_ipv6Text {addr addr' : List UInt8} (hlen : addr.length = 4) :
    ipv4Text addr ≠ ipv6Text addr' := by
  intro heq
  have hipv4 := isIpv4_ipv4Text hlen
  rw [heq] at hipv4
  rw [ipv6Text_of_dot_mem hipv4.dot_mem] at hipv4
  exact hipv4.colon_not_mem (by simp)

/-- The text tells the family and the address. -/
theorem unscoped_eq_of_nativeText (hx : x.IsIp) (hy : y.IsIp)
    (htext : nativeText x = nativeText y) (hport : nativePort x = nativePort y) :
    x.unscoped = y.unscoped := by
  have hnet : ∀ {p q : UInt16}, ntohs p = ntohs q → p = q := fun {p q} h => by
    rw [← htons_ntohs p, h, htons_ntohs]
  cases x with
  | unsupported family => exact hx.elim
  | inet port addr =>
    cases y with
    | unsupported family => exact hy.elim
    | inet6 port' flowInfo addr' scopeId => exact absurd htext (ipv4Text_ne_ipv6Text hx)
    | inet port' addr' =>
      obtain rfl := hnet hport
      -- the text is read back as either address
      have hread := readIpv4_ipv4Text hx
      rw [show ipv4Text addr = ipv4Text addr' from htext, readIpv4_ipv4Text hy] at hread
      cases hread
      rfl
  | inet6 port flowInfo addr scopeId =>
    cases y with
    | unsupported family => exact hy.elim
    | inet port' addr' => exact absurd htext.symm (ipv4Text_ne_ipv6Text hy)
    | inet6 port' flowInfo' addr' scopeId' =>
      obtain rfl := hnet hport
      have hread := readIpv6_ipv6Text hx
      rw [show ipv6Text addr = ipv6Text addr' from htext, readIpv6_ipv6Text hy] at hread
      cases hread
      rfl

/-- Three colons are in no address. -/
theorem not_isIpv6_three_colons (hp : ∀ c ∈ p, digitValue c < 10) :
    ¬IsIpv6 (':' :: ':' :: ':' :: p) := by
  intro h
  have hall : ∀ c ∈ ':' :: ':' :: ':' :: p, c = ':' ∨ digitValue c < 16 := by
    simp only [List.forall_mem_cons, true_or, true_and]
    exact fun c hc => .inr ((hp c hc).trans (by decide))
  have hgaps := ((isIpv6_iff_shape hall).mp h).groups
  rw [gaps_cons, gaps_cons, if_pos ⟨rfl, rfl⟩, if_pos ⟨rfl, rfl⟩] at hgaps
  omega

/-- **Ports.** A text that is printed without brackets is no address any more with a port behind
it. -/
theorem text_ne_snoc_port (hx : x.IsIp) (hy : y.IsIp) (hopen : ¬Enclosed x)
    (hp : ∀ c ∈ p, digitValue c < 10) : nativeText y ≠ nativeText x ++ ':' :: p := by
  intro heq
  have hcolon : ':' ∈ nativeText y := by
    rw [heq]
    exact List.mem_append_right _ List.mem_cons_self
  have hnotin : ':' ∉ p := fun hmem => absurd (hp ':' hmem) (by decide)
  cases y with
  | unsupported family => exact hy.elim
  | inet port addr' => exact (isIpv4_ipv4Text hy).colon_not_mem hcolon
  | inet6 port flowInfo addr' scopeId =>
    replace heq : ipv6Text addr' = nativeText x ++ ':' :: p := heq
    cases x with
    | unsupported family => exact hx.elim
    | inet port' addr =>
      -- it begins with the digits of an octet, and has dots
      have hipv4 := isIpv4_ipv4Text hx
      have hdot : '.' ∈ ipv6Text addr' := by
        rw [heq]
        exact List.mem_append_left _ hipv4.dot_mem
      rw [ipv6Text_of_dot_mem hdot] at heq
      obtain ⟨c, cs, hcs⟩ := List.exists_cons_of_ne_nil (List.ne_nil_of_mem hipv4.dot_mem)
      rw [show nativeText (.inet port' addr) = ipv4Text addr from rfl, hcs] at heq
      have hfirst : ':' = c := (List.cons_eq_cons.mp heq).1
      exact hipv4.colon_not_mem (by rw [hcs, hfirst]; exact List.mem_cons_self)
    | inet6 port' flowInfo' addr scopeId' =>
      replace heq : ipv6Text addr' = ipv6Text addr ++ ':' :: p := heq
      rcases Classical.em (Mapped addr) with hmapped | hplain
      · -- another mapped address would have a colon in its IPv4 address
        have htext : ipv6Text addr = "::ffff:".toList ++ ipv4Text (addr.drop 12) := if_pos hmapped
        have hfour : (addr.drop 12).length = 4 := by
          rw [List.length_drop, show addr.length = 16 from hx]
        have hfour' : (addr'.drop 12).length = 4 := by
          rw [List.length_drop, show addr'.length = 16 from hy]
        have hdot : '.' ∈ ipv6Text addr' := by
          rw [heq, htext]
          simp [(isIpv4_ipv4Text hfour).dot_mem]
        rw [ipv6Text_of_dot_mem hdot, htext, List.append_assoc, List.append_cancel_left_eq] at heq
        apply (isIpv4_ipv4Text hfour').colon_not_mem
        rw [heq]
        exact List.mem_append_right _ List.mem_cons_self
      · -- the only other one without brackets is all zero
        obtain rfl : addr = List.replicate 16 0 := not_not.mp fun hne => hopen ⟨hne, hplain⟩
        have hread : readIpv6 (ipv6Text addr') = some addr' := readIpv6_ipv6Text hy
        rw [heq, show ipv6Text (List.replicate 16 0) = [':', ':'] by decide] at hread
        apply not_isIpv6_three_colons hp
        rw [← readWords_isSome_iff]
        have hsome := Option.isSome_of_eq_some hread
        rwa [readIpv6, Option.isSome_map] at hsome

end Texts

/-! ## Two addresses -/

section Distinct

variable {inet : InetText} {x y : Sockaddr} {a b : Address} {p : UInt16}

theorem digitValue_portDigits {c : Char} (hc : c ∈ portDigits p) : digitValue c < 10 :=
  digitValue_lt_of_mem_toDigits (by decide) (by decide) hc

theorem colon_not_mem_portDigits : ':' ∉ portDigits p :=
  fun hmem => absurd (digitValue_portDigits hmem) (by decide)

theorem portDigits_injective {q : UInt16} (h : portDigits p = portDigits q) : p = q := by
  apply UInt16.toNat_inj.mp
  apply Nat.repr_injective
  rw [← String.toList_inj, Nat.toList_repr, Nat.toList_repr]
  exact h

/-- No address begins with a bracket. -/
theorem bracket_not_mem_nativeText : '[' ∉ nativeText x :=
  fun hmem => absurd (mem_nativeText hmem) (by decide)

theorem nativeText_eq_of_front (h : front x = front y) : nativeText x = nativeText y := by
  unfold front at h
  split_ifs at h
  · exact List.append_inj_left' (List.cons_eq_cons.mp h).2 rfl
  · exact absurd (h ▸ List.mem_cons_self) bracket_not_mem_nativeText
  · exact absurd (h ▸ List.mem_cons_self) bracket_not_mem_nativeText
  · exact h

/-- An address without a port is not printed as another one with a port. -/
theorem nativeText_ne_front_port (hx : x.IsIp) (hy : y.IsIp) :
    nativeText y ≠ front x ++ ':' :: portDigits p := by
  rw [front]
  split_ifs with henclosed
  · intro heq
    exact bracket_not_mem_nativeText (x := y) (by rw [heq]; exact List.mem_cons_self)
  · exact text_ne_snoc_port hx hy henclosed fun c hc => digitValue_portDigits hc

theorem unscoped_eq_of_printed (hx : x.IsIp) (hy : y.IsIp) (h : printed x = printed y) :
    x.unscoped = y.unscoped := by
  unfold printed at h
  split_ifs at h with hportx hporty hporty
  · exact unscoped_eq_of_nativeText hx hy h (hportx.trans hporty.symm)
  · exact absurd h (nativeText_ne_front_port hy hx)
  · exact absurd h.symm (nativeText_ne_front_port hx hy)
  · obtain ⟨hfront, hdigits⟩ :=
      eq_of_last_sep colon_not_mem_portDigits colon_not_mem_portDigits h
    exact unscoped_eq_of_nativeText hx hy (nativeText_eq_of_front hfront)
      (portDigits_injective hdigits)

/-- **Distinct texts.** Two native addresses are printed alike exactly if they are the same, up to
the flow information and the scope of an IPv6 address. -/
theorem toString_eq_iff (hinet : inet.PrintsStandard) (hx : x.IsIp) (hy : y.IsIp)
    (ha : fromNative inet x = .ok a) (hb : fromNative inet y = .ok b) :
    a.toString = b.toString ↔ x.unscoped = y.unscoped := by
  constructor
  · intro h
    apply unscoped_eq_of_printed hx hy
    rw [← toString_fromNative hinet hx ha, ← toString_fromNative hinet hy hb, h]
  · intro h
    -- the conversion does not look at what differs
    have hunscoped : ∀ z : Sockaddr, fromNative inet z = fromNative inet z.unscoped := by
      intro z
      cases z <;> rfl
    rw [hunscoped x, h, ← hunscoped y, hb] at ha
    cases ha
    rfl

/-- An IPv4 address and its mapped form are printed with a port in different ways. -/
theorem toString_eq_iff_mapped :
    ∃ a b, fromNative .standard (.inet 20480 [127, 0, 0, 1]) = .ok a ∧
      fromNative .standard (.inet6 20480 0 mappedLoopback 0) = .ok b ∧ a.toString ≠ b.toString := by
  have hx : (Sockaddr.inet 20480 [127, 0, 0, 1]).IsIp := rfl
  have hy : (Sockaddr.inet6 20480 0 mappedLoopback 0).IsIp := rfl
  obtain ⟨a, ha, -⟩ := toNative_fromNative InetText.standard_inverts hx
  obtain ⟨b, hb, -⟩ := toNative_fromNative InetText.standard_inverts hy
  refine ⟨a, b, ha, hb, fun h => ?_⟩
  have hsame := (toString_eq_iff InetText.standard_prints hx hy ha hb).mp h
  cases hsame

end Distinct

end Sws.Address
