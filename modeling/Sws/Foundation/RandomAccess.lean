import Sws.Foundation.Segment
import Mathlib.Tactic.Common

/-!
# Random-Access Files with Two Cursors

A file of cells of any type, with a cursor that reads and one that writes.  Both stand in the
file or at its end, which the type carries.  A write replaces the cells behind its cursor and
extends the file where it reaches over the end; a seek whose target lies outside the file is
refused.
-/

namespace Sws.Foundation

variable {α : Type*}

/-- A file with a read cursor `r` and a write cursor `w`. -/
structure File (α : Type*) where
  payload : List α
  r : ℕ
  w : ℕ
  r_le : r ≤ payload.length
  w_le : w ≤ payload.length

/-- Where a seek counts from. -/
inductive Origin
  | start
  | current
  | finish
  deriving DecidableEq, Repr

inductive FileCursor
  | read
  | write
  deriving DecidableEq, Repr

/-- What a file can be told to do. -/
inductive FileCommand (α : Type*)
  | write (cells : List α) (whole : Bool)
  | read (count : ℕ) (whole : Bool)
  | seek (cursor : FileCursor) (origin : Origin) (offset : Int)
  | tell (cursor : FileCursor)
  | atEnd
  | isEmpty
  | clear

/-- What it answers; a refused command changes nothing. -/
inductive FileAnswer (α : Type*)
  | written (count : ℕ)
  | cells (cells : List α)
  | position (pos : Int)
  | flag (b : Bool)
  | done
  | refused
  deriving DecidableEq, Repr

namespace File

def empty : File α := ⟨[], 0, 0, Nat.le_refl 0, Nat.le_refl 0⟩

/-- Writes cells behind the write cursor. -/
def write (f : File α) (cells : List α) : File α where
  payload := splice f.payload f.w cells
  r := f.r
  w := f.w + cells.length
  r_le := by
    have := f.r_le
    rw [length_splice _ _ f.w_le]; omega
  w_le := by rw [length_splice _ _ f.w_le]; omega

/-- How many of `count` cells there are behind the read cursor. -/
def available (f : File α) (count : ℕ) : ℕ := min (f.payload.length - f.r) count

/-- Passes over cells behind the read cursor. -/
def skip (f : File α) (count : ℕ) : File α where
  payload := f.payload
  r := f.r + f.available count
  w := f.w
  r_le := by
    have := f.r_le
    simp only [available]; omega
  w_le := f.w_le

def position (f : File α) : FileCursor → ℕ
  | .read => f.r
  | .write => f.w

/-- Where a seek wants to put a cursor. -/
def target (f : File α) (cursor : FileCursor) (offset : Int) : Origin → Int
  | .start => offset
  | .current => f.position cursor + offset
  | .finish => f.payload.length - offset

/-- Puts a cursor at a place inside the file. -/
def place (f : File α) (cursor : FileCursor) (pos : ℕ) (h : pos ≤ f.payload.length) : File α :=
  match cursor with
  | .read => ⟨f.payload, pos, f.w, h, f.w_le⟩
  | .write => ⟨f.payload, f.r, pos, f.r_le, h⟩

/-- One command, on a file that may grow to `capacity` cells. -/
def step (capacity : ℕ) : FileCommand α → File α → FileAnswer α × File α
  | .write cells _, f =>
    if f.w + cells.length ≤ capacity then (.written cells.length, f.write cells)
    else (.written 0, f)
  | .read count whole, f =>
    if f.available count = 0 ∨ (whole = true ∧ f.available count < count) then (.cells [], f)
    else (.cells ((f.payload.drop f.r).take (f.available count)), f.skip count)
  | .seek cursor origin offset, f =>
    if h : 0 ≤ f.target cursor offset origin ∧
        f.target cursor offset origin ≤ f.payload.length then
      (.done, f.place cursor (f.target cursor offset origin).toNat (by omega))
    else (.refused, f)
  | .tell cursor, f => (.position (f.position cursor), f)
  | .atEnd, f => (.flag (f.r == f.payload.length), f)
  | .isEmpty, f => (.flag (f.payload.length == 0), f)
  | .clear, _ => (.done, empty)

end File

end Sws.Foundation
