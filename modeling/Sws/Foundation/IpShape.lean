import Sws.Foundation.IpText

/-!
# The Shape of IP Addresses

Among the texts of the right characters the addresses are told by their shape: how many groups they
have, how long these are, and where their separators stand.

## Key Results

- `isIpv4_iff_shape`, `isIpv6_iff_shape`: the shapes of the addresses.
-/

namespace Sws.Foundation

/-- Three dots, each between two digits, and four numbers that fit an octet: each is `0` or begins
with another digit. -/
structure OctetShape (cs : List Char) : Prop where
  gaps_eq : gaps '.' cs = 0
  start : cs.head? ≠ some '.'
  stop : cs.getLast? ≠ some '.'
  four : (written '.' cs).length = 4
  octets : ∀ o ∈ written '.' cs, o.length ≤ 3 ∧ numeralValue 10 o ≤ 255 ∧ Unpadded o

/-- Groups of up to four digits: eight, or no more than seven with one gap.  A colon at either end
is part of the gap. -/
structure GroupShape (cs : List Char) : Prop where
  short : ∀ g ∈ written ':' cs, g.length ≤ 4
  start : cs.head? = some ':' → [':', ':'] <+: cs
  stop : cs.getLast? = some ':' → [':', ':'] <:+ cs
  groups : gaps ':' cs = 0 ∧ (written ':' cs).length = 8 ∨
    gaps ':' cs = 1 ∧ (written ':' cs).length ≤ 7

/-! ## Rows -/

section Rows

variable {f : NumeralFormat} {sep : Char} {n : ℕ} {cs : List Char}

/-- A row of numerals, told by the places of its separators and by its groups. -/
theorem isRow_iff_written (hsep : f.base ≤ digitValue sep)
    (hall : ∀ c ∈ cs, c = sep ∨ digitValue c < f.base) :
    IsRow f sep n cs ↔
      (cs.head? ≠ some sep ∧ gaps sep cs = 0 ∧ cs.getLast? ≠ some sep) ∧
        (written sep cs).length = n ∧
          ∀ g ∈ written sep cs, g.length ≤ f.maxDigits ∧ numeralValue f.base g ≤ f.maxValue ∧
            (f.padded = false → Unpadded g) := by
  rw [isRow_iff hsep, ← parts_ne_nil_iff]
  constructor
  · rintro ⟨hlen, haccepts⟩
    have hsome : ∀ p ∈ parts sep cs, p ≠ [] := fun p hp => (haccepts p hp).1
    rw [written_eq_parts hsome]
    exact ⟨hsome, hlen, fun p hp => ⟨(haccepts p hp).2.1, (haccepts p hp).2.2.2⟩⟩
  · rintro ⟨hsome, hlen, hfits⟩
    rw [written_eq_parts hsome] at hlen hfits
    refine ⟨hlen, fun p hp => ⟨hsome p hp, (hfits p hp).1, fun c hc => ?_, (hfits p hp).2⟩⟩
    obtain ⟨hmem, hne⟩ := mem_of_mem_parts hp hc
    exact (hall c hmem).resolve_left hne

end Rows

theorem isIpv4_iff_shape {cs : List Char} (hall : ∀ c ∈ cs, c = '.' ∨ digitValue c < 10) :
    IsIpv4 cs ↔ OctetShape cs := by
  rw [IsIpv4, isRow_iff_written (by decide) hall]
  constructor
  · rintro ⟨⟨hstart, hgaps, hstop⟩, hfour, hoctets⟩
    refine ⟨hgaps, hstart, hstop, hfour, fun o ho => ?_⟩
    obtain ⟨hshort, hvalue, hpadded⟩ := hoctets o ho
    exact ⟨hshort, hvalue, hpadded rfl⟩
  · rintro ⟨hgaps, hstart, hstop, hfour, hoctets⟩
    refine ⟨⟨hstart, hgaps, hstop⟩, hfour, fun o ho => ?_⟩
    obtain ⟨hshort, hvalue, hunpadded⟩ := hoctets o ho
    exact ⟨hshort, hvalue, fun _ => hunpadded⟩

/-! ## IPv6 -/

section Ipv6

variable {cs l r : List Char} {m n : ℕ}

/-- Up to four hexadecimal digits always fit a word. -/
theorem isGroups_iff_written (hall : ∀ c ∈ cs, c = ':' ∨ digitValue c < 16) :
    IsRow hexGroup ':' n cs ↔
      (cs.head? ≠ some ':' ∧ gaps ':' cs = 0 ∧ cs.getLast? ≠ some ':') ∧
        (written ':' cs).length = n ∧ ∀ g ∈ written ':' cs, g.length ≤ 4 := by
  rw [isRow_iff_written (by decide) hall]
  apply and_congr_right
  intro _
  apply and_congr_right
  intro _
  apply forall₂_congr
  intro g hg
  apply and_iff_left_of_imp
  intro hshort
  -- a group has digits only, and four of them never exceed a word
  have hdigits : ∀ c ∈ g, digitValue c < 16 := by
    intro c hc
    obtain ⟨hmem, hne⟩ := mem_of_mem_splitOn (List.mem_of_mem_filter hg) hc
    exact (hall c hmem).resolve_left hne
  have hvalue : numeralValue 16 g < 16 ^ g.length := numeralValue_lt hdigits
  have hpow : 16 ^ g.length ≤ 16 ^ 4 := Nat.pow_le_pow_right (by decide) hshort
  refine ⟨?_, fun hpadded => absurd hpadded (by decide)⟩
  show numeralValue 16 g ≤ 65535
  omega

/-- Without dots there is no IPv4 address at the end. -/
theorem isTail_iff_isRow (hall : ∀ c ∈ cs, c = ':' ∨ digitValue c < 16) :
    IsTail n cs ↔ IsRow hexGroup ':' n cs := by
  constructor
  · intro h
    cases h with
    | groups h => exact h
    | @dotted gs last hgs hlast =>
      have hdot : '.' ∈ [':'].intercalate (gs ++ [last]) :=
        mem_intercalate_of_mem (List.mem_append_right _ (List.mem_singleton_self _)) hlast.dot_mem
      exact absurd (hall '.' hdot) (by decide)
  · exact .groups

/-- Groups in front of a gap and behind it. -/
theorem groupShape_gap (hl : IsRow hexGroup ':' m l) (hr : IsRow hexGroup ':' n r)
    (hall : ∀ c ∈ l ++ ':' :: ':' :: r, c = ':' ∨ digitValue c < 16) (hfew : m + n ≤ 7) :
    GroupShape (l ++ ':' :: ':' :: r) := by
  rw [isGroups_iff_written fun c hc => hall c (List.mem_append_left _ hc)] at hl
  rw [isGroups_iff_written fun c hc => hall c (by simp [hc])] at hr
  obtain ⟨⟨hstartl, hgapsl, hstopl⟩, hlenl, hshortl⟩ := hl
  obtain ⟨⟨hstartr, hgapsr, hstopr⟩, hlenr, hshortr⟩ := hr
  refine ⟨?_, fun hhead => ?_, fun hlast => ?_, .inr ⟨?_, ?_⟩⟩
  · rw [written_gap]
    exact fun g hg => (List.mem_append.mp hg).elim (hshortl g) (hshortr g)
  -- no row begins or ends with a colon, so that one at either end belongs to the gap
  · cases l with
    | nil => exact ⟨r, rfl⟩
    | cons a l => exact absurd hhead hstartl
  · rcases List.eq_nil_or_concat r with rfl | ⟨r, c, rfl⟩
    · exact ⟨l, rfl⟩
    · rw [List.concat_eq_append, List.getLast?_concat] at hstopr
      rw [List.concat_eq_append, getLast?_gap_snoc] at hlast
      exact absurd hlast hstopr
  · rw [gaps_gap, gaps_append, hgapsl, if_neg fun h => hstopl h.1, gaps_singleton, gaps_cons,
      if_neg fun h => hstartr h.2, hgapsr]
  · rw [written_gap, List.length_append, hlenl, hlenr]
    exact hfew

/-- Without a gap there is no colon at either end. -/
theorem GroupShape.isRow (h : GroupShape cs) (hall : ∀ c ∈ cs, c = ':' ∨ digitValue c < 16)
    (hgaps : gaps ':' cs = 0) (hlen : (written ':' cs).length = 8) : IsRow hexGroup ':' 8 cs := by
  refine (isGroups_iff_written hall).mpr ⟨⟨fun hhead => ?_, hgaps, fun hlast => ?_⟩, hlen, h.short⟩
  · obtain ⟨rest, rfl⟩ := h.start hhead
    rw [gaps_append] at hgaps
    simp [gaps] at hgaps
  · obtain ⟨front, rfl⟩ := h.stop hlast
    rw [gaps_gap] at hgaps
    omega

/-- What is in front of the only gap is a row. -/
theorem GroupShape.isRow_left (h : GroupShape (l ++ ':' :: ':' :: r))
    (hall : ∀ c ∈ l, c = ':' ∨ digitValue c < 16) (hgaps : gaps ':' (l ++ [':']) = 0) :
    IsRow hexGroup ':' (written ':' l).length l := by
  have hshort : ∀ g ∈ written ':' l, g.length ≤ 4 := fun g hg =>
    h.short g (by rw [written_gap]; exact List.mem_append_left _ hg)
  have hparts := hgaps
  rw [gaps_append, gaps_singleton] at hparts
  refine (isGroups_iff_written hall).mpr
    ⟨⟨fun hhead => ?_, by omega, fun hlast => ?_⟩, rfl, hshort⟩
  · obtain ⟨l, rfl⟩ := List.head?_eq_some_iff.mp hhead
    -- a colon in front would make a gap before the one that is first
    obtain ⟨rest, hrest⟩ := h.start rfl
    have hbehind : ':' :: rest = l ++ ':' :: ':' :: r := by simpa using hrest
    have hnext : (l ++ [':']).head? = some ':' := by
      rw [← head?_append_gap (r := r), ← hbehind]
      rfl
    rw [List.cons_append, gaps_cons, if_pos ⟨rfl, hnext⟩] at hgaps
    omega
  · rw [if_pos ⟨hlast, rfl⟩] at hparts
    omega

/-- What is behind the only gap is a row. -/
theorem GroupShape.isRow_right (h : GroupShape (l ++ ':' :: ':' :: r))
    (hall : ∀ c ∈ r, c = ':' ∨ digitValue c < 16) (hgaps : gaps ':' (':' :: r) = 0) :
    IsRow hexGroup ':' (written ':' r).length r := by
  have hshort : ∀ g ∈ written ':' r, g.length ≤ 4 := fun g hg =>
    h.short g (by rw [written_gap]; exact List.mem_append_right _ hg)
  have hparts := hgaps
  rw [gaps_cons] at hparts
  refine (isGroups_iff_written hall).mpr
    ⟨⟨fun hhead => ?_, by omega, fun hlast => ?_⟩, rfl, hshort⟩
  · rw [if_pos ⟨rfl, hhead⟩] at hparts
    omega
  · obtain ⟨r, rfl⟩ := List.getLast?_eq_some_iff.mp hlast
    -- a colon behind would make another gap with the one before it
    obtain ⟨front, hfront⟩ := h.stop (getLast?_gap_snoc ':')
    have hbefore : front ++ [':'] = l ++ [':'] ++ ':' :: r := by
      apply (List.append_left_inj [':']).mp
      simpa using hfront
    have hprev : (':' :: r).getLast? = some ':' := by
      rw [← List.getLast?_append_cons (l ++ [':']), ← hbefore, List.getLast?_concat]
    rw [← List.cons_append, gaps_append, if_pos ⟨hprev, rfl⟩] at hgaps
    omega

/-- **Shape.** Among the texts of hexadecimal digits and colons the IPv6 addresses are those of the
right shape. -/
theorem isIpv6_iff_shape (hall : ∀ c ∈ cs, c = ':' ∨ digitValue c < 16) :
    IsIpv6 cs ↔ GroupShape cs := by
  constructor
  · intro h
    cases h with
    | full h =>
      rw [isTail_iff_isRow hall, isGroups_iff_written hall] at h
      obtain ⟨⟨hstart, hgaps, hstop⟩, hlen, hshort⟩ := h
      exact ⟨hshort, fun hhead => absurd hhead hstart, fun hlast => absurd hlast hstop,
        .inl ⟨hgaps, hlen⟩⟩
    | gap hl hr hfew =>
      rw [isTail_iff_isRow fun c hc => hall c (by simp [hc])] at hr
      exact groupShape_gap hl hr hall hfew
  · intro h
    rcases h.groups with ⟨hgaps, hlen⟩ | ⟨hgaps, hfew⟩
    · exact .full (.groups (h.isRow hall hgaps hlen))
    -- the only gap divides the text into two rows
    · cases hcut : cut ':' cs with
      | none =>
        rw [cut_eq_none_iff.mp hcut] at hgaps
        cases hgaps
      | some halves =>
        obtain ⟨l, r⟩ := halves
        obtain ⟨rfl, hfirst⟩ := cut_eq_some_iff.mp hcut
        rw [gaps_gap, hfirst] at hgaps
        rw [written_gap, List.length_append] at hfew
        have hl := h.isRow_left (fun c hc => hall c (List.mem_append_left _ hc)) hfirst
        have hr := h.isRow_right (fun c hc => hall c (by simp [hc])) (by omega)
        exact .gap hl (.groups hr) hfew

end Ipv6

end Sws.Foundation
