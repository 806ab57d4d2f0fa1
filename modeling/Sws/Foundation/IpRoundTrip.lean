import Sws.Foundation.IpText

/-!
# Round Trips of IP Addresses

Every IPv4 and every IPv6 address is read back from its standard text.

## Key Results

- `longestZeros_spec`: the groups that a text leaves out are the first longest run of zeros.
- `readIpv4_ipv4Text`, `readIpv6_ipv6Text`: the round trips.
-/

namespace Sws.Foundation

variable {ws ns : List ℕ} {addr : List UInt8}

/-! ## The longest run of zeros -/

theorem leadingZeros_cons (w : ℕ) (ws : List ℕ) :
    leadingZeros (w :: ws) = if w = 0 then leadingZeros ws + 1 else 0 := by
  unfold leadingZeros
  by_cases hw : w = 0 <;> simp [hw]

/-- A list is its leading zeros, and then the rest. -/
theorem replicate_append_drop_leadingZeros (ws : List ℕ) :
    List.replicate (leadingZeros ws) 0 ++ ws.drop (leadingZeros ws) = ws := by
  induction ws with
  | nil => rfl
  | cons w ws ih =>
    rw [leadingZeros_cons]
    split_ifs with hw
    · rw [hw, List.replicate_succ, List.drop_succ_cons, List.cons_append, ih]
    · rfl

/-- The first one of the longest runs of zeros. -/
structure IsLongestZeros (ws : List ℕ) (pos len : ℕ) : Prop where
  eq_append : ws.take pos ++ List.replicate len 0 ++ ws.drop (pos + len) = ws
  longest : ∀ i, leadingZeros (ws.drop i) ≤ len
  first : ∀ i < pos, leadingZeros (ws.drop i) < len

/-- The run that is found is the first of the longest. -/
theorem longestZeros_spec (ws : List ℕ) :
    IsLongestZeros ws (longestZeros ws).1 (longestZeros ws).2 := by
  induction ws with
  | nil => exact ⟨rfl, fun i => by simp [leadingZeros], fun i hi => absurd hi (Nat.not_lt_zero i)⟩
  | cons w ws ih =>
    rw [longestZeros]
    generalize longestZeros ws = run at ih ⊢
    obtain ⟨pos, len⟩ := run
    obtain ⟨happend, hlongest, hfirst⟩ := ih
    simp only at happend hlongest hfirst ⊢
    split_ifs with hhere
    · -- the run in front is at least as long as any behind it
      refine ⟨?_, fun i => ?_, fun i hi => absurd hi (Nat.not_lt_zero i)⟩
      · rw [List.take_zero, List.nil_append, Nat.zero_add]
        exact replicate_append_drop_leadingZeros (w :: ws)
      · cases i with
        | zero => exact Nat.le_refl _
        | succ i => exact (hlongest i).trans hhere
    · rw [Nat.not_le] at hhere
      refine ⟨?_, fun i => ?_, fun i hi => ?_⟩
      · rw [List.take_succ_cons, Nat.add_right_comm, List.drop_succ_cons, List.cons_append,
          List.cons_append, happend]
      · cases i with
        | zero => exact hhere.le
        | succ i => exact hlongest i
      · cases i with
        | zero => exact hhere
        | succ i => exact hfirst i (Nat.lt_of_succ_lt_succ hi)

/-- What a run leaves on its two sides. -/
theorem IsLongestZeros.length_eq {pos len : ℕ} (h : IsLongestZeros ws pos len) :
    (ws.take pos).length + (ws.drop (pos + len)).length + len = ws.length := by
  have hlen := congrArg List.length h.eq_append
  rw [List.length_append, List.length_append, List.length_replicate] at hlen
  omega

/-! ## IPv4 -/

theorem octets_le (addr : List UInt8) : ∀ n ∈ addr.map UInt8.toNat, n ≤ 255 := by
  intro n hn
  obtain ⟨b, -, rfl⟩ := List.mem_map.mp hn
  exact Nat.le_of_lt_succ b.toNat_lt

/-- Every part of a row of numerals is a numeral. -/
theorem accepts_of_mem_map_write {f : NumeralFormat} (h : ∀ n ∈ ns, n ≤ f.maxValue)
    {p : List Char} (hp : p ∈ ns.map f.write) : f.Accepts p := by
  obtain ⟨n, hn, rfl⟩ := List.mem_map.mp hp
  exact NumeralFormat.accepts_write (h n hn)

theorem readOctets_writeOctets (hlen : ns.length = 4) (h : ∀ n ∈ ns, n ≤ 255) :
    readOctets (writeOctets ns) = some ns := by
  have hparts : parts '.' (writeOctets ns) = ns.map octet.write :=
    parts_row (fun p hp => accepts_of_mem_map_write h hp) (by decide)
  rw [readOctets, hparts, if_pos (by rw [List.length_map, hlen]),
    NumeralFormat.readAll_map_write h]

theorem map_ofNat_toNat (addr : List UInt8) : (addr.map UInt8.toNat).map UInt8.ofNat = addr := by
  rw [List.map_map]
  exact List.map_id'' (fun b => UInt8.ofNat_toNat) addr

/-- **IPv4.** An address is read back from its text. -/
theorem readIpv4_ipv4Text (hlen : addr.length = 4) : readIpv4 (ipv4Text addr) = some addr := by
  rw [readIpv4, ipv4Text, readOctets_writeOctets (by rw [List.length_map, hlen]) (octets_le addr),
    Option.map_some, map_ofNat_toNat]

/-! ## IPv6 -/

/-- A row of groups falls apart into its groups. -/
theorem parts_writeGroups (h : ∀ w ∈ ws, w ≤ 65535) :
    parts ':' (writeGroups ws) = ws.map hexGroup.write :=
  parts_row (fun p hp => accepts_of_mem_map_write h hp) (by decide)

theorem readTail_writeGroups (h : ∀ w ∈ ws, w ≤ 65535) :
    readTail (parts ':' (writeGroups ws)) = some ws := by
  rw [parts_writeGroups h]
  exact readTail_of_readAll (NumeralFormat.readAll_map_write h)

theorem parts_writeGroups_ne_nil (h : ∀ w ∈ ws, w ≤ 65535) :
    ∀ p ∈ parts ':' (writeGroups ws), p ≠ [] := by
  rw [parts_writeGroups h]
  exact fun p hp => (accepts_of_mem_map_write (f := hexGroup) h hp).1

theorem readWords_writeGroups (hlen : ws.length = 8) (h : ∀ w ∈ ws, w ≤ 65535) :
    readWords (writeGroups ws) = some ws := by
  have hcut : cut ':' (writeGroups ws) = none :=
    cut_eq_none_iff.mpr (parts_ne_nil_iff.mp (parts_writeGroups_ne_nil h)).2.1
  exact readWords_full hcut (readTail_writeGroups h) hlen

/-- Words with zeros between them are read back from their text with a gap. -/
theorem readWords_writeGroups_gap {vs : List ℕ} {len : ℕ} (hlen : ws.length + vs.length + len = 8)
    (hgap : 0 < len) (hws : ∀ w ∈ ws, w ≤ 65535) (hvs : ∀ w ∈ vs, w ≤ 65535) :
    readWords (writeGroups ws ++ ':' :: ':' :: writeGroups vs) =
      some (ws ++ List.replicate len 0 ++ vs) := by
  have hcut : cut ':' (writeGroups ws ++ ':' :: ':' :: writeGroups vs) =
      some (writeGroups ws, writeGroups vs) :=
    cut_eq_some_iff.mpr ⟨rfl, gaps_snoc_eq_zero (parts_writeGroups_ne_nil hws)⟩
  have hread : hexGroup.readAll (parts ':' (writeGroups ws)) = some ws := by
    rw [parts_writeGroups hws]
    exact NumeralFormat.readAll_map_write hws
  have hmissing : 8 - (ws.length + vs.length) = len := by omega
  rw [readWords_gap hcut hread (readTail_writeGroups hvs) (by omega), hmissing]

/-- Words are read back from their text, with a gap in it or without. -/
theorem readWords_writeWords (hlen : ws.length = 8) (h : ∀ w ∈ ws, w ≤ 65535) :
    readWords (writeWords ws) = some ws := by
  have hzeros := longestZeros_spec ws
  rw [writeWords]
  generalize longestZeros ws = run at hzeros ⊢
  obtain ⟨pos, len⟩ := run
  simp only at hzeros ⊢
  split_ifs with hshort
  · exact readWords_writeGroups hlen h
  · have hfew := hzeros.length_eq
    rw [readWords_writeGroups_gap (by rw [hfew, hlen]) (by omega)
      (fun w hw => h w (List.mem_of_mem_take hw)) (fun w hw => h w (List.mem_of_mem_drop hw)),
      hzeros.eq_append]

/-! ## Addresses -/

theorem wordsOf_cons (hi lo : UInt8) (addr : List UInt8) :
    wordsOf (hi :: lo :: addr) = (256 * hi.toNat + lo.toNat) :: wordsOf addr := rfl

/-- A word is made of two bytes. -/
theorem wordsOf_le : ∀ addr : List UInt8, ∀ w ∈ wordsOf addr, w ≤ 65535
  | [], w, hw => by cases hw
  | [_], w, hw => by cases hw
  | hi :: lo :: addr, w, hw => by
    rw [wordsOf_cons] at hw
    rcases List.mem_cons.mp hw with rfl | hrest
    · have hhi := hi.toNat_lt
      have hlo := lo.toNat_lt
      omega
    · exact wordsOf_le addr w hrest

theorem length_wordsOf : ∀ addr : List UInt8, (wordsOf addr).length = addr.length / 2
  | [] => rfl
  | [_] => by simp [wordsOf, wordsOfOctets]
  | hi :: lo :: addr => by
    rw [wordsOf_cons, List.length_cons, List.length_cons, List.length_cons, length_wordsOf addr]
    omega

theorem bytesOf_cons (hi lo : UInt8) (ws : List ℕ) :
    bytesOf ((256 * hi.toNat + lo.toNat) :: ws) = hi :: lo :: bytesOf ws := by
  have hlo := lo.toNat_lt
  have hfirst : UInt8.ofNat ((256 * hi.toNat + lo.toNat) / 256) = hi := by
    rw [show (256 * hi.toNat + lo.toNat) / 256 = hi.toNat by omega, UInt8.ofNat_toNat]
  have hsecond : UInt8.ofNat (256 * hi.toNat + lo.toNat) = lo := by
    rw [← UInt8.toNat_inj, UInt8.toNat_ofNat']
    omega
  rw [bytesOf, List.flatMap_cons, hfirst, hsecond]
  rfl

/-- The words of an even number of bytes hold all of them. -/
theorem bytesOf_wordsOf : ∀ addr : List UInt8, addr.length % 2 = 0 → bytesOf (wordsOf addr) = addr
  | [], _ => rfl
  | [_], h => by cases h
  | hi :: lo :: addr, h => by
    rw [wordsOf_cons, bytesOf_cons, bytesOf_wordsOf addr
      (by rw [List.length_cons, List.length_cons] at h; omega)]

theorem isIpv4_ipv4Text (hlen : addr.length = 4) : IsIpv4 (ipv4Text addr) :=
  readOctets_isSome_iff.mp (Option.isSome_of_eq_some
    (readOctets_writeOctets (by rw [List.length_map, hlen]) (octets_le addr)))

/-! ## Mapped addresses -/

/-- The group and the IPv4 address that a mapped address has behind its gap. -/
def mappedGroups (addr : List UInt8) : List (List Char) :=
  [hexGroup.write 65535] ++ [ipv4Text (addr.drop 12)]

/-- A mapped address is written with a gap before its groups. -/
theorem ipv6Text_of_mapped (h : Mapped addr) :
    ipv6Text addr = [] ++ ':' :: ':' :: [':'].intercalate (mappedGroups addr) := by
  have hprefix : "::ffff:".toList = ':' :: ':' :: (hexGroup.write 65535 ++ [':']) := by decide
  rw [ipv6Text, if_pos h, hprefix, mappedGroups, List.singleton_append,
    List.intercalate_cons_cons, List.intercalate_singleton]
  simp

theorem readTail_mappedGroups (hfour : (addr.drop 12).length = 4) :
    readTail (parts ':' ([':'].intercalate (mappedGroups addr))) =
      some (65535 :: wordsOf (addr.drop 12)) := by
  have hgroup : ∀ g ∈ [hexGroup.write 65535], hexGroup.Accepts g := by decide
  have hdotted : IsIpv4 (ipv4Text (addr.drop 12)) := isIpv4_ipv4Text hfour
  rw [mappedGroups, parts_dotted hgroup hdotted,
    readTail_snoc fun hall => hdotted.not_accepts (hall _ (by simp)), ipv4Text,
    readOctets_writeOctets (by rw [List.length_map, hfour]) (octets_le _)]
  rfl

theorem readWords_of_mapped (hfour : (addr.drop 12).length = 4) (h : Mapped addr) :
    readWords (ipv6Text addr) = some (List.replicate 5 0 ++ 65535 :: wordsOf (addr.drop 12)) := by
  have hcut : cut ':' (ipv6Text addr) = some ([], _) :=
    cut_eq_some_iff.mpr ⟨ipv6Text_of_mapped h, gaps_singleton ':'⟩
  have hnone : hexGroup.readAll (parts ':' []) = some [] := rfl
  have hthree : (65535 :: wordsOf (addr.drop 12)).length = 3 := by
    rw [List.length_cons, length_wordsOf, hfour]
  rw [readWords_gap hcut hnone (readTail_mappedGroups hfour) (by rw [hthree]; decide), hthree]
  rfl

theorem readIpv6_of_mapped (hlen : addr.length = 16) (h : Mapped addr) :
    readIpv6 (ipv6Text addr) = some addr := by
  have hfour : (addr.drop 12).length = 4 := by rw [List.length_drop, hlen]
  have hbytes : bytesOf (List.replicate 5 0 ++ 65535 :: wordsOf (addr.drop 12)) =
      [0, 0, 0, 0, 0, 0, 0, 0, 0, 0, 255, 255] ++ bytesOf (wordsOf (addr.drop 12)) := rfl
  rw [readIpv6, readWords_of_mapped hfour h, Option.map_some, hbytes,
    bytesOf_wordsOf _ (by rw [hfour]), ← h, List.take_append_drop]

/-- **IPv6.** An address is read back from its text. -/
theorem readIpv6_ipv6Text (hlen : addr.length = 16) : readIpv6 (ipv6Text addr) = some addr := by
  by_cases hmapped : Mapped addr
  · exact readIpv6_of_mapped hlen hmapped
  · rw [readIpv6, ipv6Text, if_neg hmapped,
      readWords_writeWords (by rw [length_wordsOf, hlen]) (wordsOf_le addr), Option.map_some,
      bytesOf_wordsOf addr (by rw [hlen])]

/-! ## The characters of a text -/

theorem mem_row {f : NumeralFormat} {sep c : Char}
    (hc : c ∈ [sep].intercalate (ns.map f.write)) : c = sep ∨ digitValue c < f.base := by
  rcases mem_intercalate hc with hsep | ⟨p, hp, hcp⟩
  · exact .inl hsep
  · obtain ⟨n, -, rfl⟩ := List.mem_map.mp hp
    exact .inr (digitValue_lt_of_mem_toDigits f.one_lt_base f.base_le hcp)

theorem mem_ipv4Text {c : Char} (hc : c ∈ ipv4Text addr) : c = '.' ∨ digitValue c < 10 :=
  mem_row (f := octet) hc

theorem mem_writeWords {c : Char} (hc : c ∈ writeWords ws) : c = ':' ∨ digitValue c < 16 := by
  rw [writeWords] at hc
  simp only at hc
  split_ifs at hc
  · exact mem_row (f := hexGroup) hc
  · simp only [List.mem_append, List.mem_cons] at hc
    rcases hc with hl | rfl | rfl | hr
    · exact mem_row (f := hexGroup) hl
    · exact .inl rfl
    · exact .inl rfl
    · exact mem_row (f := hexGroup) hr

theorem mem_ipv6Text {c : Char} (hc : c ∈ ipv6Text addr) :
    c = ':' ∨ c = '.' ∨ digitValue c < 16 := by
  unfold ipv6Text at hc
  split_ifs at hc
  · rcases List.mem_append.mp hc with hprefix | hdotted
    · have hf : digitValue 'f' < 16 := by decide
      have hall : ∀ d ∈ "::ffff:".toList, d = ':' ∨ d = '.' ∨ digitValue d < 16 := by simp [hf]
      exact hall c hprefix
    · exact .inr ((mem_ipv4Text hdotted).imp_right fun h => by omega)
  · exact (mem_writeWords hc).imp_right .inr

/-- A row of numbers has a digit. -/
theorem exists_digit_row {f : NumeralFormat} {sep : Char} (hsome : ns ≠ []) :
    ∃ c ∈ [sep].intercalate (ns.map f.write), digitValue c < f.base := by
  obtain ⟨n, rest, rfl⟩ := List.exists_cons_of_ne_nil hsome
  obtain ⟨c, cs, hc⟩ := List.exists_cons_of_ne_nil (Nat.toDigits_ne_nil (n := n) (b := f.base))
  have hmem : c ∈ f.write n := by
    rw [NumeralFormat.write, hc]
    exact List.mem_cons_self
  exact ⟨c, mem_intercalate_of_mem (List.mem_map_of_mem List.mem_cons_self) hmem,
    digitValue_lt_of_mem_toDigits f.one_lt_base f.base_le hmem⟩

/-- A word that is not zero is not left out. -/
theorem exists_digit_writeWords {w : ℕ} (hw : w ∈ ws) (hne : w ≠ 0) :
    ∃ c ∈ writeWords ws, digitValue c < 16 := by
  have hzeros := longestZeros_spec ws
  rw [writeWords]
  generalize longestZeros ws = run at hzeros ⊢
  obtain ⟨pos, len⟩ := run
  simp only at hzeros ⊢
  split_ifs with hshort
  · exact exists_digit_row (f := hexGroup) (List.ne_nil_of_mem hw)
  · rw [← hzeros.eq_append, List.append_assoc, List.mem_append, List.mem_append] at hw
    rcases hw with hl | hzero | hr
    · obtain ⟨c, hc, hdigit⟩ := exists_digit_row (f := hexGroup) (List.ne_nil_of_mem hl)
      exact ⟨c, List.mem_append_left _ hc, hdigit⟩
    · exact absurd (List.eq_of_mem_replicate hzero) hne
    · obtain ⟨c, hc, hdigit⟩ := exists_digit_row (f := hexGroup) (List.ne_nil_of_mem hr)
      have hbehind := List.mem_cons_of_mem ':' (List.mem_cons_of_mem ':' hc)
      exact ⟨c, List.mem_append_right _ hbehind, hdigit⟩

/-- An address whose words are all zero is all zero. -/
theorem eq_zero_of_wordsOf (hlen : addr.length = 16) (hzero : ∀ w ∈ wordsOf addr, w = 0) :
    addr = List.replicate 16 0 := by
  have hwords : wordsOf addr = List.replicate 8 0 :=
    List.eq_replicate_iff.mpr ⟨by rw [length_wordsOf, hlen], hzero⟩
  rw [← bytesOf_wordsOf addr (by rw [hlen]), hwords]
  rfl

end Sws.Foundation
