import Mathlib.Data.List.TakeDrop
import Mathlib.Tactic.Common

/-!
# Segments of Lists

Two operations on flat storage: bringing a list to a given length (`List.takeD`, from the
library), and overwriting the cells from a position on (`splice`).  A splice that reaches
behind the end extends the list, one that ends before it keeps the cells that follow.

## Key Results

- `splice_takeD`: growing the storage first and splicing then is one splice.
- `drop_splice`: a splice behind a prefix is a splice of what follows the prefix.
- `take_drop_splice`: reading back the segment just written.
- `Excerpt`: segments of a list, one behind the other.
-/

namespace Sws.Foundation

variable {α : Type*}

/-! ## Overwriting a segment -/

/-- `xs` with the cells from position `i` on replaced by `ys`. -/
def splice (xs : List α) (i : ℕ) (ys : List α) : List α :=
  xs.take i ++ ys ++ xs.drop (i + ys.length)

@[simp] theorem splice_nil (xs : List α) (i : ℕ) : splice xs i [] = xs := by
  simp [splice]

theorem length_splice (xs ys : List α) {i : ℕ} (hi : i ≤ xs.length) :
    (splice xs i ys).length = max xs.length (i + ys.length) := by
  simp only [splice, List.length_append, List.length_take, List.length_drop]
  omega

/-- The cells in front of the position stay. -/
theorem take_splice (xs ys : List α) {i j : ℕ} (hj : j ≤ i) (hi : i ≤ xs.length) :
    (splice xs i ys).take j = xs.take j := by
  rw [splice, List.append_assoc, List.take_append_of_le_length, List.take_take, Nat.min_eq_left hj]
  rw [List.length_take]
  omega

/-- A splice at the front of `n + i` cells is a splice at `i` of what follows the first `n`. -/
theorem drop_splice (xs ys : List α) {n i : ℕ} (hn : n ≤ xs.length) :
    (splice xs (n + i) ys).drop n = splice (xs.drop n) i ys := by
  -- the first cells come off the part in front of the segment
  have htake : (xs.take (n + i)).drop n = (xs.drop n).take i := by
    rw [List.drop_take, Nat.add_sub_cancel_left]
  have hlen : n ≤ (xs.take (n + i)).length := by
    rw [List.length_take]; omega
  rw [splice, List.append_assoc, List.drop_append_of_le_length hlen, htake, splice,
    List.append_assoc, List.drop_drop, Nat.add_assoc]

/-- The cells behind the segment stay. -/
theorem drop_splice_of_le (xs ys : List α) {i j : ℕ} (hi : i ≤ xs.length)
    (hj : i + ys.length ≤ j) : (splice xs i ys).drop j = xs.drop j := by
  have hlen : (xs.take i ++ ys).length = i + ys.length := by
    rw [List.length_append, List.length_take, Nat.min_eq_left hi]
  obtain ⟨k, rfl⟩ := Nat.exists_eq_add_of_le hj
  rw [splice, ← hlen, List.drop_append, List.drop_drop]
  simp

/-- Reading back the segment that was written. -/
theorem take_drop_splice (xs ys : List α) {i : ℕ} (hi : i ≤ xs.length) :
    ((splice xs i ys).drop i).take ys.length = ys := by
  have hlen : (xs.take i).length = i := by rw [List.length_take, Nat.min_eq_left hi]
  rw [splice, List.append_assoc, List.drop_append_of_le_length (by omega),
    List.drop_of_length_le (by omega), List.nil_append, List.take_left]

/-- The segment that was written lies behind its position. -/
theorem prefix_drop_splice (xs ys : List α) {i : ℕ} (hi : i ≤ xs.length) :
    ys <+: (splice xs i ys).drop i := by
  have h := take_drop_splice xs ys hi
  exact ⟨((splice xs i ys).drop i).drop ys.length, by
    conv_lhs => rw [← h]
    rw [h]
    conv_rhs => rw [← List.take_append_drop ys.length ((splice xs i ys).drop i), h]⟩

/-- Two splices one behind the other are one. -/
theorem splice_append (xs ys zs : List α) {i : ℕ} (hi : i ≤ xs.length) :
    splice (splice xs i ys) (i + ys.length) zs = splice xs i (ys ++ zs) := by
  have hlen : (xs.take i ++ ys).length = i + ys.length := by
    rw [List.length_append, List.length_take, Nat.min_eq_left hi]
  -- the second splice keeps what the first has put in front of it
  have htake : (splice xs i ys).take (i + ys.length) = xs.take i ++ ys := by
    rw [splice, ← hlen, List.take_left]
  have hdrop := drop_splice_of_le xs ys hi (Nat.le_add_right (i + ys.length) zs.length)
  rw [splice, htake, hdrop, splice, List.length_append, Nat.add_assoc]
  simp only [List.append_assoc]

theorem splice_zero (xs ys : List α) : splice xs 0 ys = ys ++ xs.drop ys.length := by
  simp [splice]

theorem takeD_eq_append (n : ℕ) (xs : List α) (a : α) :
    xs.takeD n a = xs.take n ++ List.replicate (n - xs.length) a := by
  induction n generalizing xs with
  | zero => simp
  | succ n ih =>
    cases xs with
    | nil => simp [List.replicate_succ]
    | cons x xs => simp [ih]

/-- Growing a list to the end of a segment and then overwriting the segment is one splice. -/
theorem splice_takeD (xs ys : List α) (a : α) {i : ℕ} (hi : i ≤ xs.length) :
    splice (xs.takeD (max xs.length (i + ys.length)) a) i ys = splice xs i ys := by
  rw [takeD_eq_append, List.take_of_length_le (Nat.le_max_left ..)]
  simp only [splice, List.take_append_of_le_length hi, List.append_assoc]
  congr 2
  -- the fill behind the old end is overwritten, or there is none
  rw [List.drop_append, List.drop_replicate]
  have hfill : max xs.length (i + ys.length) - xs.length - (i + ys.length - xs.length) = 0 := by
    omega
  rw [hfill, List.replicate_zero, List.append_nil]

/-! ## Segments one behind the other -/

/-- The parts are segments of a list that do not overlap, in the order in which they stand
there.  Built from the front of the list to its end. -/
inductive Excerpt : List (List α) → List α → Prop
  | nil : Excerpt [] []
  | skip {parts : List (List α)} {xs : List α} (h : Excerpt parts xs) (gap : List α) :
      Excerpt parts (xs ++ gap)
  | take {parts : List (List α)} {xs : List α} (h : Excerpt parts xs) (part : List α) :
      Excerpt (parts ++ [part]) (xs ++ part)

end Sws.Foundation
