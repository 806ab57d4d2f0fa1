import Mathlib.Data.List.Basic
import Mathlib.Tactic.Common

/-!
# Separated Lists

A list as the parts that a separator leaves between its occurrences.  Two adjacent separators leave
an empty part between them, a gap.

## Key Results

- `parts_ne_nil_iff`: no part is empty exactly if there is no gap, and no separator at either end.
- `cut_eq_some_iff`: a list is cut at its first gap.
-/

namespace Sws.Foundation

variable {α : Type*}

section Intercalate

variable {sep : α} {l r : List α}

theorem mem_intercalate {ps : List (List α)} {c : α} (h : c ∈ [sep].intercalate ps) :
    c = sep ∨ ∃ p ∈ ps, c ∈ p := by
  induction ps with
  | nil => cases h
  | cons p ps ih =>
    cases ps with
    | nil =>
      rw [List.intercalate_singleton] at h
      exact .inr ⟨p, List.mem_cons_self, h⟩
    | cons q qs =>
      rw [List.intercalate_cons_cons, List.append_assoc, List.mem_append, List.mem_append,
        List.mem_singleton] at h
      rcases h with hp | rfl | hrest
      · exact .inr ⟨p, List.mem_cons_self, hp⟩
      · exact .inl rfl
      · rcases ih hrest with rfl | ⟨p', hp', hc⟩
        · exact .inl rfl
        · exact .inr ⟨p', List.mem_cons_of_mem p hp', hc⟩

theorem mem_intercalate_of_mem {ps : List (List α)} {p : List α} (hp : p ∈ ps) {c : α}
    (hc : c ∈ p) : c ∈ [sep].intercalate ps := by
  induction ps with
  | nil => cases hp
  | cons q qs ih =>
    rcases List.mem_cons.mp hp with rfl | hrest
    · cases qs <;> simp [hc]
    · rw [List.intercalate_cons_of_ne_nil (List.ne_nil_of_mem hrest)]
      exact List.mem_append_right _ (ih hrest)

/-- What stands in front of two separators begins as it would in front of one. -/
theorem head?_append_gap : (l ++ sep :: sep :: r).head? = (l ++ [sep]).head? := by
  cases l <;> rfl

theorem getLast?_gap_snoc (c : α) : (l ++ sep :: sep :: (r ++ [c])).getLast? = some c := by
  rw [← List.cons_append, ← List.cons_append, ← List.append_assoc, List.getLast?_concat]

/-- A list is cut at its last separator in one way only. -/
theorem eq_of_last_sep {t t' p p' : List α} (hp : sep ∉ p) (hp' : sep ∉ p')
    (h : t ++ sep :: p = t' ++ sep :: p') : t = t' ∧ p = p' := by
  rcases List.append_eq_append_iff.mp h with ⟨l, rfl, hl⟩ | ⟨l, rfl, hl⟩
  · cases l with
    | nil => exact ⟨(List.append_nil t).symm, (List.cons_eq_cons.mp hl).2⟩
    | cons a l =>
      -- otherwise it would not be the last one
      obtain ⟨rfl, hp₀⟩ := List.cons_eq_cons.mp hl
      exact absurd (hp₀ ▸ List.mem_append_right l List.mem_cons_self) hp
  · cases l with
    | nil => exact ⟨List.append_nil t', (List.cons_eq_cons.mp hl).2.symm⟩
    | cons a l =>
      obtain ⟨rfl, hp₀⟩ := List.cons_eq_cons.mp hl
      exact absurd (hp₀ ▸ List.mem_append_right l List.mem_cons_self) hp'

end Intercalate

variable [DecidableEq α] (sep : α)

/-- The parts between the separators; there are none in an empty list. -/
def parts (cs : List α) : List (List α) := if cs = [] then [] else cs.splitOn sep

/-- The number of places where two separators are adjacent. -/
def gaps : List α → ℕ
  | [] => 0
  | a :: cs => (if a = sep ∧ cs.head? = some sep then 1 else 0) + gaps cs

/-- The parts that are not empty. -/
def written (cs : List α) : List (List α) := (cs.splitOn sep).filter (· ≠ [])

/-- What is in front of the first gap, and what is behind it. -/
def cut : List α → Option (List α × List α)
  | [] => none
  | a :: cs =>
    if a = sep ∧ cs.head? = some sep then some ([], cs.tail)
    else (cut cs).map fun (l, r) => (a :: l, r)

variable {cs l r : List α}

/-- A list has no separator, or a first one with a list behind it. -/
theorem separated_induction {P : List α → Prop} (single : ∀ p, sep ∉ p → P p)
    (cons : ∀ p rest, sep ∉ p → P rest → P (p ++ sep :: rest)) (cs : List α) : P cs := by
  induction hlen : cs.length using Nat.strongRecOn generalizing cs with
  | ind n ih =>
    subst hlen
    by_cases hmem : sep ∈ cs
    · obtain ⟨p, rest, hcs, hp⟩ := List.eq_append_cons_of_mem hmem
      subst hcs
      exact cons p rest hp (ih rest.length (by simp; omega) rest rfl)
    · exact single cs hmem

variable {sep}

/-! ## Parts -/

theorem mem_of_mem_splitOn {p : List α} (hp : p ∈ cs.splitOn sep) {c : α} (hc : c ∈ p) :
    c ∈ cs ∧ c ≠ sep := by
  induction cs using separated_induction sep generalizing p with
  | single q hq =>
    rw [List.splitOn_eq_singleton hq, List.mem_singleton] at hp
    subst hp
    exact ⟨hc, fun h => hq (h ▸ hc)⟩
  | cons q rest hq ih =>
    rw [List.splitOn_append_cons_self_of_not_mem hq] at hp
    rcases List.mem_cons.mp hp with rfl | hrest
    · exact ⟨List.mem_append_left _ hc, fun h => hq (h ▸ hc)⟩
    · obtain ⟨hmem, hne⟩ := ih hrest hc
      exact ⟨List.mem_append_right q (List.mem_cons_of_mem sep hmem), hne⟩

theorem mem_of_mem_parts {p : List α} (hp : p ∈ parts sep cs) {c : α} (hc : c ∈ p) :
    c ∈ cs ∧ c ≠ sep := by
  unfold parts at hp
  split_ifs at hp
  · cases hp
  · exact mem_of_mem_splitOn hp hc

/-- The parts are put together again by the separator. -/
theorem intercalate_parts : [sep].intercalate (parts sep cs) = cs := by
  unfold parts
  split_ifs with hcs
  · rw [hcs]
    rfl
  · exact List.intercalate_splitOn sep

/-- Parts that are put together are found again. -/
theorem parts_intercalate {ps : List (List α)} (hsome : ∀ p ∈ ps, p ≠ [])
    (hsep : ∀ p ∈ ps, sep ∉ p) : parts sep ([sep].intercalate ps) = ps := by
  cases ps with
  | nil => rfl
  | cons p ps =>
    have hne : [sep].intercalate (p :: ps) ≠ [] := by
      have hp := hsome p List.mem_cons_self
      cases ps <;> simp [hp]
    rw [parts, if_neg hne, List.splitOn_intercalate sep hsep (List.cons_ne_nil p ps)]

theorem written_append (l r : List α) :
    written sep (l ++ sep :: r) = written sep l ++ written sep r := by
  rw [written, List.splitOn_append_cons_self, List.filter_append]
  rfl

/-- A gap separates what is in front of it from what is behind it. -/
theorem written_gap (l r : List α) :
    written sep (l ++ sep :: sep :: r) = written sep l ++ written sep r := by
  have hnone : written sep (sep :: r) = written sep r := written_append [] r
  rw [written_append, hnone]

theorem written_eq_parts (hsome : ∀ p ∈ parts sep cs, p ≠ []) : written sep cs = parts sep cs := by
  unfold parts at hsome ⊢
  split_ifs at hsome ⊢ with hcs
  · rw [hcs, written, List.splitOn_nil]
    rfl
  · exact List.filter_eq_self.mpr fun p hp => decide_eq_true (hsome p hp)

/-! ## Gaps -/

theorem gaps_cons (a : α) (cs : List α) :
    gaps sep (a :: cs) = (if a = sep ∧ cs.head? = some sep then 1 else 0) + gaps sep cs := rfl

@[simp] theorem gaps_singleton (a : α) : gaps sep [a] = 0 := by
  simp [gaps]

theorem gaps_append (l r : List α) :
    gaps sep (l ++ r) = gaps sep l +
      (if l.getLast? = some sep ∧ r.head? = some sep then 1 else 0) + gaps sep r := by
  induction l with
  | nil => simp [gaps]
  | cons a l ih =>
    cases l with
    | nil => simp [gaps]
    | cons b l =>
      have hlast : (a :: b :: l).getLast? = (b :: l).getLast? := List.getLast?_cons_cons
      have hfirst : (b :: l ++ r).head? = (b :: l).head? := rfl
      rw [List.cons_append, gaps_cons a, gaps_cons a, ih, hlast, hfirst]
      omega

/-- There is no gap in front of the first separator. -/
theorem gaps_append_of_not_mem (hl : sep ∉ l) (r : List α) : gaps sep (l ++ r) = gaps sep r := by
  induction l with
  | nil => rfl
  | cons a l ih =>
    rw [List.mem_cons, not_or] at hl
    rw [List.cons_append, gaps_cons, if_neg fun hgap => hl.1 hgap.1.symm, ih hl.2, Nat.zero_add]

theorem gaps_cons_append {p : List α} (hp : sep ∉ p) (hr : r.head? = some sep) :
    gaps sep (sep :: (p ++ r)) = (if p = [] then 1 else 0) + gaps sep r := by
  rw [gaps_cons, gaps_append_of_not_mem hp]
  cases p with
  | nil => simp [hr]
  | cons a p =>
    have ha : a ≠ sep := fun h => hp (h ▸ List.mem_cons_self)
    simp [ha]

/-- With a separator put at either end, the gaps are where the empty parts are. -/
theorem count_nil_splitOn :
    (cs.splitOn sep).count [] = gaps sep (sep :: (cs ++ [sep])) := by
  induction cs using separated_induction sep with
  | single p hp =>
    rw [List.splitOn_eq_singleton hp, gaps_cons_append hp rfl]
    cases p <;> simp [gaps]
  | cons p rest hp ih =>
    rw [List.splitOn_append_cons_self_of_not_mem hp, List.count_cons, ih, List.append_assoc,
      gaps_cons_append hp rfl]
    cases p <;> simp [Nat.add_comm]

/-- No part is empty exactly if there is no gap, and no separator at either end. -/
theorem parts_ne_nil_iff :
    (∀ p ∈ parts sep cs, p ≠ []) ↔
      cs.head? ≠ some sep ∧ gaps sep cs = 0 ∧ cs.getLast? ≠ some sep := by
  cases cs with
  | nil => simp [parts, gaps]
  | cons a cs =>
    have hnone : (∀ p ∈ (a :: cs).splitOn sep, p ≠ []) ↔ ((a :: cs).splitOn sep).count [] = 0 := by
      rw [List.count_eq_zero]
      exact ⟨fun h hmem => h [] hmem rfl, fun h p hp hnil => h (hnil ▸ hp)⟩
    have hfirst : (a :: cs ++ [sep]).head? = (a :: cs).head? := rfl
    rw [parts, if_neg (List.cons_ne_nil a cs), hnone, count_nil_splitOn, gaps_cons,
      gaps_append (a :: cs), hfirst, gaps_singleton]
    generalize gaps sep (a :: cs) = n
    by_cases hhead : (a :: cs).head? = some sep <;>
      by_cases hlast : (a :: cs).getLast? = some sep <;>
      simp [hhead, hlast]

/-- Behind a list without empty parts, a separator makes no gap. -/
theorem gaps_snoc_eq_zero (hsome : ∀ p ∈ parts sep cs, p ≠ []) : gaps sep (cs ++ [sep]) = 0 := by
  obtain ⟨-, hnone, hlast⟩ := parts_ne_nil_iff.mp hsome
  rw [gaps_append, hnone, if_neg fun h => hlast h.1, gaps_singleton]

theorem gaps_gap (l r : List α) :
    gaps sep (l ++ sep :: sep :: r) = gaps sep (l ++ [sep]) + 1 + gaps sep (sep :: r) := by
  rw [gaps_append, gaps_append, gaps_singleton, gaps_cons sep (sep :: r)]
  simp only [List.head?_cons, and_self, if_true]
  omega

/-! ## Cutting at the first gap -/

theorem cut_eq_none_iff : cut sep cs = none ↔ gaps sep cs = 0 := by
  induction cs with
  | nil => simp [cut, gaps]
  | cons a cs ih =>
    rw [cut, gaps_cons]
    split_ifs with hgap
    · simp
    · rw [Option.map_eq_none_iff, ih, Nat.zero_add]

/-- What is in front of the first gap has none itself, not even with the separator behind it. -/
theorem cut_eq_some_iff :
    cut sep cs = some (l, r) ↔ cs = l ++ sep :: sep :: r ∧ gaps sep (l ++ [sep]) = 0 := by
  induction cs generalizing l with
  | nil => simp [cut]
  | cons a cs ih =>
    by_cases hgap : a = sep ∧ cs.head? = some sep
    · rw [cut, if_pos hgap]
      cases l with
      | nil =>
        obtain ⟨rest, rfl⟩ := List.head?_eq_some_iff.mp hgap.2
        simp [hgap.1]
      | cons b l =>
        -- a list that begins with a gap has none further on that is the first
        apply iff_of_false (by simp)
        rintro ⟨hcs, hnone⟩
        rw [List.cons_append, List.cons.injEq] at hcs
        rw [hcs.1, hcs.2, head?_append_gap] at hgap
        rw [List.cons_append, gaps_cons, if_pos hgap] at hnone
        omega
    · rw [cut, if_neg hgap, Option.map_eq_some_iff]
      cases l with
      | nil =>
        apply iff_of_false (by simp)
        rintro ⟨hcs, -⟩
        apply hgap
        obtain ⟨rfl, rfl⟩ := List.cons.inj hcs
        exact ⟨rfl, rfl⟩
      | cons b l =>
        have hfirst :
            (∃ halves, cut sep cs = some halves ∧ (a :: halves.1, halves.2) = (b :: l, r)) ↔
              a = b ∧ cut sep cs = some (l, r) := by
          constructor
          · rintro ⟨⟨l', r'⟩, hcut, heq⟩
            cases heq
            exact ⟨rfl, hcut⟩
          · rintro ⟨rfl, hcut⟩
            exact ⟨(l, r), hcut, rfl⟩
        rw [hfirst, ih, List.cons_append, List.cons.injEq, List.cons_append, gaps_cons]
        constructor
        · rintro ⟨rfl, rfl, hnone⟩
          rw [head?_append_gap] at hgap
          exact ⟨⟨rfl, rfl⟩, by rw [if_neg hgap, hnone]⟩
        · rintro ⟨⟨rfl, rfl⟩, hnone⟩
          exact ⟨rfl, rfl, Nat.eq_zero_of_add_eq_zero_left hnone⟩

end Sws.Foundation
