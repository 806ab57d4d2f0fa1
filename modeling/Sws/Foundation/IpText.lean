import Mathlib.Data.UInt
import Sws.Foundation.Numeral
import Sws.Foundation.Separated

/-!
# The Text of IP Addresses

The standard texts of IPv4 and IPv6 addresses, and what is read as one.

An IPv4 address is four octets between dots.  An IPv6 address is eight groups of hexadecimal digits
between colons, where one run of zero groups can be left out, and where an IPv4 address can stand in
place of the last two groups.

## Key Results

- `readOctets_isSome_iff`, `readWords_isSome_iff`: what is read as an address is what the grammar
  says.
-/

namespace Sws.Foundation

/-! ## Groups -/

/-- An octet in decimal digits: a zero in front of another digit would make it octal. -/
def octet : NumeralFormat where
  base := 10
  maxDigits := 3
  maxValue := 255
  padded := false
  one_lt_base := by decide
  base_le := by decide
  maxDigits_pos := by decide
  maxValue_lt := by decide

/-- A group of hexadecimal digits. -/
def hexGroup : NumeralFormat where
  base := 16
  maxDigits := 4
  maxValue := 65535
  padded := true
  one_lt_base := by decide
  base_le := by decide
  maxDigits_pos := by decide
  maxValue_lt := by decide

/-- Numerals in a row. -/
def NumeralFormat.readAll (f : NumeralFormat) (ps : List (List Char)) : Option (List ℕ) :=
  ps.mapM f.read

section Rows

variable {f : NumeralFormat} {ps : List (List Char)} {ns : List ℕ}

theorem NumeralFormat.readAll_cons (p : List Char) (ps : List (List Char)) :
    f.readAll (p :: ps) = (f.read p).bind fun n => (f.readAll ps).map (n :: ·) := by
  rw [readAll, List.mapM_cons]
  cases f.read p with
  | none => rfl
  | some n => cases h : f.readAll ps <;> simp_all [readAll]

theorem NumeralFormat.readAll_isSome_iff :
    (f.readAll ps).isSome = true ↔ ∀ p ∈ ps, f.Accepts p := by
  induction ps with
  | nil => simp [readAll]
  | cons p ps ih =>
    rw [List.forall_mem_cons, ← ih, ← read_isSome_iff, readAll_cons]
    cases f.read p <;> cases f.readAll ps <;> simp

theorem NumeralFormat.length_of_readAll (h : f.readAll ps = some ns) : ns.length = ps.length := by
  induction ps generalizing ns with
  | nil =>
    cases h
    rfl
  | cons p ps ih =>
    rw [readAll_cons, Option.bind_eq_some_iff] at h
    obtain ⟨n, -, hrest⟩ := h
    obtain ⟨ms, hms, rfl⟩ := Option.map_eq_some_iff.mp hrest
    rw [List.length_cons, List.length_cons, ih hms]

theorem NumeralFormat.readAll_map_write (h : ∀ n ∈ ns, n ≤ f.maxValue) :
    f.readAll (ns.map f.write) = some ns := by
  induction ns with
  | nil => rfl
  | cons n ns ih =>
    rw [List.forall_mem_cons] at h
    rw [List.map_cons, readAll_cons, read_write h.1, ih h.2]
    rfl

end Rows

/-! ## IPv4 -/

/-- The octets of a text. -/
def readOctets (cs : List Char) : Option (List ℕ) :=
  if (parts '.' cs).length = 4 then octet.readAll (parts '.' cs) else none

def writeOctets (ns : List ℕ) : List Char := ['.'].intercalate (ns.map octet.write)

/-- `inet_pton` for IPv4. -/
def readIpv4 (cs : List Char) : Option (List UInt8) := (readOctets cs).map (·.map UInt8.ofNat)

def ipv4Text (addr : List UInt8) : List Char := writeOctets (addr.map UInt8.toNat)

/-! ## IPv6 -/

/-- The words that four octets make up. -/
def wordsOfOctets : List ℕ → List ℕ
  | hi :: lo :: ns => (256 * hi + lo) :: wordsOfOctets ns
  | _ => []

/-- Groups at the end of an address: an IPv4 address can stand for the last two. -/
def readTail (ps : List (List Char)) : Option (List ℕ) :=
  match hexGroup.readAll ps with
  | some ws => some ws
  | none => do
    let last ← ps.getLast?
    let ws ← hexGroup.readAll ps.dropLast
    let ns ← readOctets last
    return ws ++ wordsOfOctets ns

/-- The eight words of a text.  A gap stands for at least one zero word. -/
def readWords (cs : List Char) : Option (List ℕ) :=
  match cut ':' cs with
  | none => do
    let ws ← readTail (parts ':' cs)
    if ws.length = 8 then return ws else none
  | some (l, r) => do
    let ws ← hexGroup.readAll (parts ':' l)
    let vs ← readTail (parts ':' r)
    if ws.length + vs.length ≤ 7 then
      return ws ++ List.replicate (8 - (ws.length + vs.length)) 0 ++ vs
    else none

/-- The number of zeros at the front. -/
def leadingZeros (ws : List ℕ) : ℕ := (ws.takeWhile (· = 0)).length

/-- The position and the length of the first one of the longest runs of zeros. -/
def longestZeros : List ℕ → ℕ × ℕ
  | [] => (0, 0)
  | w :: ws =>
    let (pos, len) := longestZeros ws
    if len ≤ leadingZeros (w :: ws) then (0, leadingZeros (w :: ws)) else (pos + 1, len)

def writeGroups (ws : List ℕ) : List Char := [':'].intercalate (ws.map hexGroup.write)

/-- The longest run of zeros is left out, unless it is a single word. -/
def writeWords (ws : List ℕ) : List Char :=
  let (pos, len) := longestZeros ws
  if len < 2 then writeGroups ws
  else writeGroups (ws.take pos) ++ ':' :: ':' :: writeGroups (ws.drop (pos + len))

/-- The words of an address. -/
def wordsOf (addr : List UInt8) : List ℕ := wordsOfOctets (addr.map UInt8.toNat)

/-- The bytes of words. -/
def bytesOf (ws : List ℕ) : List UInt8 :=
  ws.flatMap fun w => [UInt8.ofNat (w / 256), UInt8.ofNat w]

/-- `inet_pton` for IPv6. -/
def readIpv6 (cs : List Char) : Option (List UInt8) := (readWords cs).map bytesOf

/-- An IPv4 address in the form of an IPv6 address. -/
def Mapped (addr : List UInt8) : Prop := addr.take 12 = [0, 0, 0, 0, 0, 0, 0, 0, 0, 0, 255, 255]

instance (addr : List UInt8) : Decidable (Mapped addr) :=
  inferInstanceAs (Decidable (_ = _))

/-- The standard text of an IPv6 address; a mapped one ends in its IPv4 address. -/
def ipv6Text (addr : List UInt8) : List Char :=
  if Mapped addr then "::ffff:".toList ++ ipv4Text (addr.drop 12) else writeWords (wordsOf addr)

/-! ## Grammar -/

/-- `n` numerals with a separator between any two of them. -/
def IsRow (f : NumeralFormat) (sep : Char) (n : ℕ) (cs : List Char) : Prop :=
  ∃ ps : List (List Char), ps.length = n ∧ (∀ p ∈ ps, f.Accepts p) ∧ cs = [sep].intercalate ps

/-- Four octets between dots. -/
def IsIpv4 (cs : List Char) : Prop := IsRow octet '.' 4 cs

/-- What the last `n` groups can be: an IPv4 address stands for two. -/
inductive IsTail : ℕ → List Char → Prop
  | groups {n : ℕ} {cs : List Char} (h : IsRow hexGroup ':' n cs) : IsTail n cs
  | dotted {gs : List (List Char)} {last : List Char} (hgs : ∀ g ∈ gs, hexGroup.Accepts g)
      (hlast : IsIpv4 last) : IsTail (gs.length + 2) ([':'].intercalate (gs ++ [last]))

/-- Eight groups between colons, or fewer with a gap in one place. -/
inductive IsIpv6 : List Char → Prop
  | full {cs : List Char} (h : IsTail 8 cs) : IsIpv6 cs
  | gap {m n : ℕ} {l r : List Char} (hl : IsRow hexGroup ':' m l) (hr : IsTail n r)
      (hfew : m + n ≤ 7) : IsIpv6 (l ++ ':' :: ':' :: r)

section Rows

variable {f : NumeralFormat} {sep : Char} {n : ℕ} {cs p : List Char} {ps : List (List Char)}

theorem NumeralFormat.Accepts.not_mem (h : f.Accepts p) (hsep : f.base ≤ digitValue sep) :
    sep ∉ p := by
  intro hmem
  have hdigit := h.2.2.1 sep hmem
  omega

/-- The parts of a row are its numerals. -/
theorem parts_row (hps : ∀ p ∈ ps, f.Accepts p) (hsep : f.base ≤ digitValue sep) :
    parts sep ([sep].intercalate ps) = ps :=
  parts_intercalate (fun p hp => (hps p hp).1) fun p hp => (hps p hp).not_mem hsep

theorem isRow_iff (hsep : f.base ≤ digitValue sep) :
    IsRow f sep n cs ↔ (parts sep cs).length = n ∧ ∀ p ∈ parts sep cs, f.Accepts p := by
  constructor
  · rintro ⟨ps, hlen, hps, rfl⟩
    rw [parts_row hps hsep]
    exact ⟨hlen, hps⟩
  · rintro ⟨hlen, hps⟩
    exact ⟨parts sep cs, hlen, hps, intercalate_parts.symm⟩

theorem IsRow.parts_ne_nil (hsep : f.base ≤ digitValue sep) (h : IsRow f sep n cs) :
    ∀ p ∈ parts sep cs, p ≠ [] :=
  fun p hp => (((isRow_iff hsep).mp h).2 p hp).1

/-- What is read from the parts of a text is a row. -/
theorem readAll_iff (hsep : f.base ≤ digitValue sep) :
    (∃ ns, f.readAll (parts sep cs) = some ns ∧ ns.length = n) ↔ IsRow f sep n cs := by
  rw [isRow_iff hsep, ← NumeralFormat.readAll_isSome_iff]
  constructor
  · rintro ⟨ns, hns, rfl⟩
    exact ⟨(NumeralFormat.length_of_readAll hns).symm, Option.isSome_of_eq_some hns⟩
  · rintro ⟨hlen, hsome⟩
    obtain ⟨ns, hns⟩ := Option.isSome_iff_exists.mp hsome
    exact ⟨ns, hns, (NumeralFormat.length_of_readAll hns).trans hlen⟩

end Rows

section Reading

variable {m n : ℕ} {cs l r : List Char}

theorem readOctets_isSome_iff : (readOctets cs).isSome = true ↔ IsIpv4 cs := by
  rw [IsIpv4, isRow_iff (by decide), readOctets]
  split_ifs with hlen
  · rw [NumeralFormat.readAll_isSome_iff]
    exact ⟨fun h => ⟨hlen, h⟩, fun h => h.2⟩
  · exact iff_of_false Bool.false_ne_true fun h => hlen h.1

theorem IsIpv4.dot_mem (h : IsIpv4 cs) : '.' ∈ cs := by
  by_contra hnone
  rw [IsIpv4, isRow_iff (by decide)] at h
  obtain ⟨hlen, -⟩ := h
  unfold parts at hlen
  split_ifs at hlen
  rw [List.splitOn_eq_singleton hnone] at hlen
  cases hlen

theorem IsIpv4.colon_not_mem (h : IsIpv4 cs) : ':' ∉ cs := by
  obtain ⟨ps, -, hps, rfl⟩ := h
  intro hmem
  rcases mem_intercalate hmem with hdot | ⟨p, hp, hcolon⟩
  · exact absurd hdot (by decide)
  · exact (hps p hp).not_mem (by decide) hcolon

/-- An IPv4 address is no group: it has dots. -/
theorem IsIpv4.not_accepts (h : IsIpv4 cs) : ¬hexGroup.Accepts cs :=
  fun haccepts => haccepts.not_mem (by decide) h.dot_mem

section Dotted

variable {gs : List (List Char)} {last p : List Char}

/-- Groups in front of an IPv4 address: none is empty, and none has a colon. -/
theorem dotted_group (hgs : ∀ g ∈ gs, hexGroup.Accepts g) (hlast : IsIpv4 last)
    (hp : p ∈ gs ++ [last]) : p ≠ [] ∧ ':' ∉ p := by
  rcases List.mem_append.mp hp with hg | hl
  · exact ⟨(hgs p hg).1, (hgs p hg).not_mem (by decide)⟩
  · rw [List.mem_singleton.mp hl]
    exact ⟨List.ne_nil_of_mem hlast.dot_mem, hlast.colon_not_mem⟩

theorem parts_dotted (hgs : ∀ g ∈ gs, hexGroup.Accepts g) (hlast : IsIpv4 last) :
    parts ':' ([':'].intercalate (gs ++ [last])) = gs ++ [last] :=
  parts_intercalate (fun _ hp => (dotted_group hgs hlast hp).1)
    fun _ hp => (dotted_group hgs hlast hp).2

end Dotted

/-- None of the last parts is empty. -/
theorem IsTail.parts_ne_nil (h : IsTail n cs) : ∀ p ∈ parts ':' cs, p ≠ [] := by
  cases h with
  | groups h => exact h.parts_ne_nil (by decide)
  | dotted hgs hlast =>
    rw [parts_dotted hgs hlast]
    exact fun p hp => (dotted_group hgs hlast hp).1

theorem readTail_of_readAll {ps : List (List Char)} {ws : List ℕ}
    (h : hexGroup.readAll ps = some ws) : readTail ps = some ws := by
  rw [readTail, h]

theorem readTail_snoc {gs : List (List Char)} {last : List Char}
    (h : ¬∀ p ∈ gs ++ [last], hexGroup.Accepts p) :
    readTail (gs ++ [last]) =
      (hexGroup.readAll gs).bind fun ws =>
        (readOctets last).map fun ns => ws ++ wordsOfOctets ns := by
  have hnone : hexGroup.readAll (gs ++ [last]) = none := by
    rw [← Option.not_isSome_iff_eq_none, NumeralFormat.readAll_isSome_iff]
    exact h
  simp only [readTail, hnone, List.getLast?_concat, List.dropLast_concat, Option.bind_eq_bind,
    Option.bind_some]
  cases hexGroup.readAll gs <;> cases readOctets last <;> rfl

theorem length_wordsOfOctets {ns : List ℕ} (h : (readOctets cs) = some ns) :
    (wordsOfOctets ns).length = 2 := by
  unfold readOctets at h
  split_ifs at h with hlen
  have hfour := NumeralFormat.length_of_readAll h
  rw [hlen] at hfour
  obtain ⟨a, b, c, d, rfl⟩ := List.length_eq_four.mp hfour
  rfl

/-- What is read at the end of an address is what can stand there. -/
theorem readTail_iff :
    (∃ ws, readTail (parts ':' cs) = some ws ∧ ws.length = n) ↔ IsTail n cs := by
  constructor
  · rintro ⟨ws, hread, rfl⟩
    by_cases hall : ∀ p ∈ parts ':' cs, hexGroup.Accepts p
    · obtain ⟨vs, hvs⟩ := Option.isSome_iff_exists.mp (NumeralFormat.readAll_isSome_iff.mpr hall)
      rw [readTail_of_readAll hvs] at hread
      cases hread
      exact .groups ((readAll_iff (by decide)).mp ⟨ws, hvs, rfl⟩)
    -- a part that is no group has to be the last one, with dots
    · obtain ⟨gs, last, hparts⟩ : ∃ gs last, parts ':' cs = gs ++ [last] := by
        rcases List.eq_nil_or_concat (parts ':' cs) with hnil | ⟨gs, last, hparts⟩
        · exact absurd (fun p hp => by rw [hnil] at hp; cases hp) hall
        · exact ⟨gs, last, by rw [hparts, List.concat_eq_append]⟩
      have hcs : [':'].intercalate (gs ++ [last]) = cs := hparts ▸ intercalate_parts
      rw [hparts] at hread hall
      rw [readTail_snoc hall, Option.bind_eq_some_iff] at hread
      obtain ⟨vs, hvs, hdotted⟩ := hread
      obtain ⟨ns, hns, rfl⟩ := Option.map_eq_some_iff.mp hdotted
      rw [List.length_append, length_wordsOfOctets hns, NumeralFormat.length_of_readAll hvs, ← hcs]
      exact .dotted (NumeralFormat.readAll_isSome_iff.mp (Option.isSome_of_eq_some hvs))
        (readOctets_isSome_iff.mp (Option.isSome_of_eq_some hns))
  · intro h
    cases h with
    | groups h =>
      obtain ⟨ws, hws, hlen⟩ := (readAll_iff (by decide)).mpr h
      exact ⟨ws, readTail_of_readAll hws, hlen⟩
    | @dotted gs last hgs hlast =>
      obtain ⟨ws, hws⟩ := Option.isSome_iff_exists.mp (NumeralFormat.readAll_isSome_iff.mpr hgs)
      obtain ⟨ns, hns⟩ := Option.isSome_iff_exists.mp (readOctets_isSome_iff.mpr hlast)
      refine ⟨ws ++ wordsOfOctets ns, ?_, ?_⟩
      · rw [parts_dotted hgs hlast,
          readTail_snoc fun hall => hlast.not_accepts (hall last (by simp)), hws, hns]
        rfl
      · rw [List.length_append, NumeralFormat.length_of_readAll hws, length_wordsOfOctets hns]

theorem readWords_full {ws : List ℕ} (hcut : cut ':' cs = none)
    (hws : readTail (parts ':' cs) = some ws) (hlen : ws.length = 8) : readWords cs = some ws := by
  rw [readWords, hcut]
  simp only [hws, Option.bind_eq_bind, Option.bind_some, if_pos hlen]
  rfl

theorem readWords_gap {ws vs : List ℕ} (hcut : cut ':' cs = some (l, r))
    (hws : hexGroup.readAll (parts ':' l) = some ws) (hvs : readTail (parts ':' r) = some vs)
    (hfew : ws.length + vs.length ≤ 7) :
    readWords cs = some (ws ++ List.replicate (8 - (ws.length + vs.length)) 0 ++ vs) := by
  rw [readWords, hcut]
  simp only [hws, hvs, Option.bind_eq_bind, Option.bind_some, if_pos hfew]
  rfl

/-- **Grammar.** What is read as an IPv6 address is what the grammar says. -/
theorem readWords_isSome_iff : (readWords cs).isSome = true ↔ IsIpv6 cs := by
  constructor
  · intro hsome
    obtain ⟨us, hus⟩ := Option.isSome_iff_exists.mp hsome
    unfold readWords at hus
    split at hus
    · rename_i hcut
      obtain ⟨ws, hws, hus⟩ := Option.bind_eq_some_iff.mp hus
      split_ifs at hus with hlen
      exact .full (readTail_iff.mp ⟨ws, hws, hlen⟩)
    · rename_i l r hcut
      obtain ⟨ws, hws, hus⟩ := Option.bind_eq_some_iff.mp hus
      obtain ⟨vs, hvs, hus⟩ := Option.bind_eq_some_iff.mp hus
      split_ifs at hus with hfew
      obtain ⟨rfl, -⟩ := cut_eq_some_iff.mp hcut
      exact .gap ((readAll_iff (by decide)).mp ⟨ws, hws, rfl⟩) (readTail_iff.mp ⟨vs, hvs, rfl⟩) hfew
  · intro h
    -- the text is cut where the grammar has its gap
    cases h with
    | full h =>
      have hcut : cut ':' cs = none :=
        cut_eq_none_iff.mpr (parts_ne_nil_iff.mp h.parts_ne_nil).2.1
      obtain ⟨ws, hws, hlen⟩ := readTail_iff.mpr h
      exact Option.isSome_of_eq_some (readWords_full hcut hws hlen)
    | @gap m n l r hl hr hfew =>
      have hcut : cut ':' (l ++ ':' :: ':' :: r) = some (l, r) :=
        cut_eq_some_iff.mpr ⟨rfl, gaps_snoc_eq_zero (hl.parts_ne_nil (by decide))⟩
      obtain ⟨ws, hws, hlen⟩ := (readAll_iff (by decide)).mpr hl
      obtain ⟨vs, hvs, hlen'⟩ := readTail_iff.mpr hr
      exact Option.isSome_of_eq_some (readWords_gap hcut hws hvs (by rw [hlen, hlen']; exact hfew))

end Reading

end Sws.Foundation
