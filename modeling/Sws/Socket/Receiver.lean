import Sws.Foundation.Transition
import Sws.Model.Socket
import Sws.Packet.Valid

/-!
# A Receiver of Frames

What a stream of frames becomes when every native receive that does not give a whole header
or a whole payload is lost.  The receiver knows no buffer and no cursor: it has the stream,
the size of the payload it waits for, and the payloads it has taken.

## Key Results

- `Receiver.Step.balance`: no byte is taken from the stream without being accounted for.
- `Receiver.cuts_of_lossless`: a receiver that loses nothing was given whole pieces.
- `Receiver.Aligned.finished`: a receiver that is given whole pieces takes every frame.
-/

namespace Sws.Socket

open Sws.Foundation
open Packet (frame)

/-! ## Cuts of a stream -/

/-- The counts among native results. -/
def cuts (results : List NativeResult) : List ℕ :=
  results.filterMap fun
    | .count n => some n
    | .failure _ => none

@[simp] theorem cuts_nil : cuts [] = [] := rfl

@[simp] theorem cuts_count (n : ℕ) (rest : List NativeResult) :
    cuts (.count n :: rest) = n :: cuts rest := rfl

@[simp] theorem cuts_failure (e : SocketError) (rest : List NativeResult) :
    cuts (.failure e :: rest) = cuts rest := rfl

@[simp] theorem cuts_append (results results' : List NativeResult) :
    cuts (results ++ results') = cuts results ++ cuts results' :=
  List.filterMap_append ..

/-- The cuts that give every header and every payload in one piece. -/
def pieces (frames : List (List UInt8)) : List ℕ := frames.flatMap fun f => [2, f.length]

@[simp] theorem pieces_nil : pieces [] = [] := rfl

@[simp] theorem pieces_cons (f : List UInt8) (frames : List (List UInt8)) :
    pieces (f :: frames) = 2 :: f.length :: pieces frames := rfl

@[simp] theorem pieces_append (frames frames' : List (List UInt8)) :
    pieces (frames ++ frames') = pieces frames ++ pieces frames' :=
  List.flatMap_append

/-- The pieces of some frames are as long as their stream. -/
theorem sum_pieces (frames : List (List UInt8)) :
    (pieces frames).sum = (frames.flatMap frame).length := by
  induction frames with
  | nil => rfl
  | cons f frames ih =>
    simp only [pieces_cons, List.sum_cons, ih, List.flatMap_cons, List.length_append,
      Packet.length_frame]
    omega

/-- A native receive that goes on delivering: it gives a byte at least, or fails with an error
code. -/
def Delivers : NativeResult → Prop
  | .count n => 0 < n
  | .failure e => e ≠ .none

instance : DecidablePred Delivers
  | .count n => inferInstanceAs (Decidable (0 < n))
  | .failure e => inferInstanceAs (Decidable (e ≠ .none))

/-! ## The receiver -/

structure Receiver where
  /-- The size of the payload that was announced and has not been taken. -/
  awaited : Option ℕ := none
  /-- The bytes to come. -/
  stream : List UInt8
  /-- The payloads taken, in order. -/
  taken : List (List UInt8) := []
  /-- How many bytes have been taken from the stream in vain. -/
  lost : ℕ := 0
  deriving DecidableEq, Repr

namespace Receiver

/-- The buffer takes the payload that is awaited. -/
def HasRoom (r : Receiver) : Prop := ∀ t ∈ r.awaited, t + 2 < datagramSize

/-- What one native result does. -/
inductive Step : Receiver → NativeResult → Receiver → Prop
  | failure {r : Receiver} {e : SocketError} (hroom : r.HasRoom) (he : e ≠ .none) :
      Step r (.failure e) r
  /-- A whole header announces a payload. -/
  | header {r : Receiver} {bytes rest : List UInt8} (hidle : r.awaited = none)
      (hstream : r.stream = bytes ++ rest) (hlen : bytes.length = 2) (hsize : 0 < ofBytes bytes) :
      Step r (.count bytes.length) { r with stream := rest, awaited := some (ofBytes bytes) }
  /-- Any other header is dropped, and what follows it is taken for a header. -/
  | noHeader {r : Receiver} {bytes rest : List UInt8} (hidle : r.awaited = none)
      (hstream : r.stream = bytes ++ rest) (hlen : bytes.length ≤ 2)
      (hsize : ¬(bytes.length = 2 ∧ 0 < ofBytes bytes)) :
      Step r (.count bytes.length) { r with stream := rest, lost := r.lost + bytes.length }
  /-- A whole payload is taken. -/
  | payload {r : Receiver} {bytes rest : List UInt8} (hawaited : r.awaited = some bytes.length)
      (hroom : bytes.length + 2 < datagramSize) (hstream : r.stream = bytes ++ rest) :
      Step r (.count bytes.length)
        { r with stream := rest, awaited := none, taken := r.taken ++ [bytes] }
  /-- The next receive puts its bytes over those of a payload that came in part. -/
  | partialPayload {r : Receiver} {bytes rest : List UInt8} {t : ℕ} (hawaited : r.awaited = some t)
      (hroom : t + 2 < datagramSize) (hstream : r.stream = bytes ++ rest)
      (hlen : bytes.length < t) :
      Step r (.count bytes.length) { r with stream := rest, lost := r.lost + bytes.length }

/-- How many bytes a native receive is asked for. -/
def request (r : Receiver) : ℕ := r.awaited.getD 2

/-- No native receive can give the next result. -/
def Stuck (r : Receiver) (results : List NativeResult) : Prop :=
  ∀ res rest r', results = res :: rest → ¬Step r res r'

theorem Step.hasRoom {r r' : Receiver} {res : NativeResult} (h : Step r res r') : r.HasRoom := by
  intro t ht
  cases h with
  | failure hroom he => exact hroom t ht
  | header hidle | noHeader hidle => simp [hidle] at ht
  | payload hawaited hroom | partialPayload hawaited hroom =>
    rw [hawaited, Option.mem_some_iff] at ht
    rwa [← ht]

theorem Step.count_le {r r' : Receiver} {n : ℕ} (h : Step r (.count n) r') :
    n ≤ min r.request r.stream.length := by
  cases h with
  | header hidle hstream hlen => simp [request, hidle, hstream, hlen]
  | noHeader hidle hstream hlen => simp [request, hidle, hstream, hlen]
  | payload hawaited hroom hstream => simp [request, hawaited, hstream]
  | partialPayload hawaited hroom hstream hlen =>
    simp [request, hawaited, hstream, Nat.le_of_lt hlen]

theorem Step.error {r r' : Receiver} {e : SocketError} (h : Step r (.failure e) r') :
    e ≠ .none := by
  cases h with
  | failure hroom he => exact he

/-! ## Nothing is taken unaccounted for -/

/-- The pieces that came whole. -/
def whole (r : Receiver) : List ℕ :=
  pieces r.taken ++
    match r.awaited with
    | none => []
    | some _ => [2]

/-- A native result is a failure, gives a piece that is put to use, or one that is lost. -/
theorem Step.balance {r r' : Receiver} {res : NativeResult} (h : Step r res r') :
    ∃ used missed : List ℕ, cuts [res] = used ++ missed ∧ r'.whole = r.whole ++ used ∧
      r'.lost = r.lost + missed.sum ∧
      r.stream.length = (cuts [res]).sum + r'.stream.length := by
  cases h with
  | failure hroom he => exact ⟨[], [], by simp⟩
  | @header bytes rest hidle hstream hlen hsize =>
    exact ⟨[bytes.length], [], by simp [whole, hidle, hstream, hlen]⟩
  | @noHeader bytes rest hidle hstream hlen hsize =>
    exact ⟨[], [bytes.length], by simp [whole, hstream]⟩
  | @payload bytes rest hawaited hroom hstream =>
    exact ⟨[bytes.length], [], by simp [whole, hawaited, hstream]⟩
  | @partialPayload bytes rest t hawaited hroom hstream hlen =>
    exact ⟨[], [bytes.length], by simp [whole, hstream]⟩

/-- A receiver at the start of a stream. -/
def start (stream : List UInt8) : Receiver := { stream }

section Run

variable {stream : List UInt8} {results : List NativeResult} {r : Receiver}

/-- Every byte of the stream was put to use, lost, or is still to come. -/
theorem length_of_reaches (h : Reaches Step (start stream) results r) :
    stream.length = r.whole.sum + r.lost + r.stream.length := by
  refine h.invariant (P := fun r => stream.length = r.whole.sum + r.lost + r.stream.length)
    (fun r res r' hr hstep => ?_) (by simp [start, whole])
  -- a step moves what it takes from the stream to the pieces, or to the loss
  obtain ⟨used, missed, hcuts, hwhole, hlost, hlen⟩ := hstep.balance
  simp only [hwhole, hlost, hcuts, List.sum_append] at *
  omega

/-- **Nothing lost.** Then every header and every payload came in one piece. -/
theorem cuts_of_lossless (h : Reaches Step (start stream) results r)
    (hdelivers : ∀ res ∈ results, Delivers res) (hlost : r.lost = 0) : cuts results = r.whole := by
  -- by induction on the run: the loss only grows
  have hrun : (∀ res ∈ results, Delivers res) → r.lost = 0 → cuts results = r.whole := by
    refine h.trace (P := fun results r =>
      (∀ res ∈ results, Delivers res) → r.lost = 0 → cuts results = r.whole) ?_ ?_
    · intro _ _
      simp [start, whole]
    · intro labels t res t' ih hstep hall hzero
      obtain ⟨used, missed, hcuts, hwhole, hlost', -⟩ := hstep.balance
      have hlast : Delivers res := hall res (by simp)
      -- a count is positive, so that none was missed
      have hnone : missed = [] := by
        cases res with
        | failure e => simpa using (List.append_eq_nil_iff.mp hcuts.symm).2
        | count n =>
          rcases List.append_eq_singleton_iff.mp (hcuts.symm : used ++ missed = [n]) with
            ⟨-, hmissed⟩ | ⟨-, hmissed⟩
          · have hpos : 0 < n := hlast
            simp only [hmissed, List.sum_cons, List.sum_nil] at hlost'
            omega
          · exact hmissed
      rw [cuts_append, hcuts, hnone, List.append_nil, hwhole,
        ih (fun res hres => hall res (List.mem_append_left _ hres)) (by omega)]
  exact hrun hdelivers hlost

/-- A receiver that has taken all frames of its stream has lost nothing and awaits nothing. -/
theorem pieces_of_taken {frames : List (List UInt8)}
    (h : Reaches Step (start (frames.flatMap frame)) results r)
    (hdelivers : ∀ res ∈ results, Delivers res) (htaken : r.taken = frames) :
    cuts results = pieces frames := by
  have hlen := length_of_reaches h
  rw [← sum_pieces, whole, htaken, List.sum_append] at hlen
  -- the payloads taken and their headers are as long as the whole stream
  have hcuts := cuts_of_lossless h hdelivers (by omega)
  rw [hcuts, whole, htaken]
  cases hawaited : r.awaited with
  | none => exact List.append_nil _
  | some t =>
    simp only [hawaited, List.sum_cons, List.sum_nil] at hlen
    omega

end Run

/-! ## Whole pieces -/

/-- The frames still to come stand in the stream, and the results to come give each header and
each payload in one piece. -/
inductive Aligned (frames : List (List UInt8)) (results : List NativeResult) (r : Receiver) : Prop
  | between {todo : List (List UInt8)} (hframes : frames = r.taken ++ todo)
      (hidle : r.awaited = none) (hstream : r.stream = todo.flatMap frame)
      (hcuts : pieces todo <+: cuts results)
  | inside {f : List UInt8} {todo : List (List UInt8)} (hframes : frames = r.taken ++ f :: todo)
      (hawaited : r.awaited = some f.length) (hstream : r.stream = f ++ todo.flatMap frame)
      (hcuts : f.length :: pieces todo <+: cuts results)

namespace Aligned

variable {frames : List (List UInt8)} {res : NativeResult} {results : List NativeResult}
  {r r' : Receiver}

/-- A receiver at the start of a stream of frames. -/
theorem start (hcuts : pieces frames <+: cuts results) :
    Aligned frames results (start (frames.flatMap frame)) :=
  .between rfl rfl rfl hcuts

/-- Two ways to cut a stream at the same place give the same pieces. -/
theorem eq_of_cut {bytes rest xs ys : List UInt8} (h : xs ++ ys = bytes ++ rest)
    (hlen : bytes.length = xs.length) : bytes = xs ∧ rest = ys := by
  obtain ⟨hxs, hys⟩ := List.append_inj h hlen.symm
  exact ⟨hxs.symm, hys.symm⟩

/-- The stream of a frame is its header, its payload and what follows. -/
theorem flatMap_frame_cons (f : List UInt8) (todo : List (List UInt8)) :
    (f :: todo).flatMap frame = toBytes 2 f.length ++ (f ++ todo.flatMap frame) := by
  rw [List.flatMap_cons, frame, List.append_assoc]

theorem ofBytes_header {f : List UInt8} (hlen : f.length ≤ 65533) :
    ofBytes (toBytes 2 f.length) = f.length :=
  ofBytes_toBytes_of_lt (by norm_num; omega)

/-- A header is due. -/
theorem step_between {todo : List (List UInt8)} (hframes : frames = r.taken ++ todo)
    (hsizes : ∀ f ∈ todo, 1 ≤ f.length ∧ f.length ≤ 65533) (hidle : r.awaited = none)
    (hstream : r.stream = todo.flatMap frame) (hcuts : pieces todo <+: cuts (res :: results))
    (hdelivers : Delivers res) (hstep : Step r res r') : Aligned frames results r' := by
  -- a count that is due is that of a header
  have hheader : ∀ {bytes rest : List UInt8}, res = .count bytes.length →
      r.stream = bytes ++ rest → ∃ f todo', todo = f :: todo' ∧ bytes = toBytes 2 f.length ∧
        rest = f ++ todo'.flatMap frame ∧ f.length :: pieces todo' <+: cuts results := by
    rintro bytes rest rfl hbytes
    rw [hstream] at hbytes
    cases todo with
    | nil =>
      have hnone := (List.append_eq_nil_iff.mp hbytes.symm).1
      have hpos : 0 < bytes.length := hdelivers
      simp [hnone] at hpos
    | cons f todo' =>
      simp only [pieces_cons, cuts_count, List.cons_prefix_cons] at hcuts
      obtain ⟨htwo, hrest⟩ := hcuts
      rw [flatMap_frame_cons] at hbytes
      obtain ⟨hb, hr⟩ := eq_of_cut hbytes (by rw [length_toBytes, htwo])
      exact ⟨f, todo', rfl, hb, hr, hrest⟩
  cases hstep with
  | failure hroom he => exact .between hframes hidle hstream hcuts
  | header hidle' hbytes hlen hsize =>
    obtain ⟨f, todo', rfl, rfl, rfl, hrest⟩ := hheader rfl hbytes
    -- the header announces the frame that comes next
    refine .inside hframes ?_ rfl hrest
    rw [ofBytes_header (hsizes f List.mem_cons_self).2]
  | noHeader hidle' hbytes hlen hbad =>
    obtain ⟨f, todo', rfl, rfl, rfl, hrest⟩ := hheader rfl hbytes
    have hsize := hsizes f List.mem_cons_self
    exact absurd ⟨length_toBytes .., by rw [ofBytes_header hsize.2]; exact hsize.1⟩ hbad
  | payload hawaited hroom hbytes => simp [hidle] at hawaited
  | partialPayload hawaited hroom hbytes hlen => simp [hidle] at hawaited

/-- A payload is due. -/
theorem step_inside {f : List UInt8} {todo : List (List UInt8)}
    (hframes : frames = r.taken ++ f :: todo) (hawaited : r.awaited = some f.length)
    (hstream : r.stream = f ++ todo.flatMap frame)
    (hcuts : f.length :: pieces todo <+: cuts (res :: results)) (hstep : Step r res r') :
    Aligned frames results r' := by
  cases hstep with
  | failure hroom he => exact .inside hframes hawaited hstream hcuts
  | header hidle hbytes hlen hsize => simp [hawaited] at hidle
  | noHeader hidle hbytes hlen hbad => simp [hawaited] at hidle
  | payload hawaited' hroom hbytes =>
    obtain ⟨hlen, hrest⟩ := List.cons_prefix_cons.mp hcuts
    obtain ⟨rfl, rfl⟩ := eq_of_cut (hstream ▸ hbytes) hlen.symm
    refine .between ?_ rfl rfl hrest
    rw [hframes, List.append_assoc, List.singleton_append]
  | partialPayload hawaited' hroom hbytes hlen =>
    -- the count that is due is that of the whole payload
    obtain ⟨hwhole, -⟩ := List.cons_prefix_cons.mp hcuts
    rw [hawaited, Option.some.injEq] at hawaited'
    omega

/-- Whole pieces keep the receiver aligned. -/
theorem step (hsizes : ∀ f ∈ frames, 1 ≤ f.length ∧ f.length ≤ 65533)
    (h : Aligned frames (res :: results) r) (hdelivers : Delivers res) (hstep : Step r res r') :
    Aligned frames results r' := by
  rcases h with ⟨hframes, hidle, hstream, hcuts⟩ | ⟨hframes, hawaited, hstream, hcuts⟩
  · refine step_between hframes (fun f hf => hsizes f ?_) hidle hstream hcuts hdelivers hstep
    rw [hframes]
    exact List.mem_append_right _ hf
  · exact step_inside hframes hawaited hstream hcuts hstep

/-- Where a count is due, the next result is a failure or that count. -/
theorem next_of_due {c : ℕ} {cs : List ℕ} (hcuts : c :: cs <+: cuts results)
    (hdelivers : ∀ res ∈ results, Delivers res) :
    ∃ res rest, results = res :: rest ∧
      ((∃ e, res = .failure e ∧ e ≠ .none) ∨ res = .count c) := by
  match results, hcuts, hdelivers with
  | [], hcuts, _ => simp at hcuts
  | .failure e :: rest, _, hdelivers =>
    have he : Delivers (.failure e) := hdelivers _ List.mem_cons_self
    exact ⟨_, rest, rfl, .inl ⟨e, rfl, he⟩⟩
  | .count n :: rest, hcuts, _ =>
    obtain ⟨rfl, -⟩ := List.cons_prefix_cons.mp hcuts
    exact ⟨_, rest, rfl, .inr rfl⟩

/-- **Whole pieces.** A receiver that can go no further has taken every frame. -/
theorem finished (hsizes : ∀ f ∈ frames, 1 ≤ f.length ∧ f.length ≤ 65533)
    (h : Aligned frames results r) (hdelivers : ∀ res ∈ results, Delivers res)
    (hstuck : r.Stuck results) : r.taken = frames := by
  rcases h with ⟨hframes, hidle, hstream, hcuts⟩ | ⟨hframes, hawaited, hstream, hcuts⟩
  · rename_i todo
    cases todo with
    | nil => rw [hframes, List.append_nil]
    | cons f todo =>
      -- a receiver to which something is due is not stuck
      exfalso
      have hsize := hsizes f (by rw [hframes]; simp)
      rw [flatMap_frame_cons] at hstream
      obtain ⟨res, rest, hres, ⟨e, rfl, he⟩ | rfl⟩ := next_of_due hcuts hdelivers
      · exact hstuck _ _ _ hres (.failure (by simp [HasRoom, hidle]) he)
      · refine hstuck _ _ _ hres (.header hidle hstream (length_toBytes ..) ?_)
        rw [ofBytes_header hsize.2]
        exact hsize.1
  · rename_i f todo
    exfalso
    have hsize := hsizes f (by rw [hframes]; simp)
    have hroom : f.length + 2 < datagramSize := by simp only [datagramSize]; omega
    obtain ⟨res, rest, hres, ⟨e, rfl, he⟩ | rfl⟩ := next_of_due hcuts hdelivers
    · refine hstuck _ _ _ hres (.failure (fun t ht => ?_) he)
      rw [hawaited, Option.mem_some_iff] at ht
      rwa [← ht]
    · exact hstuck _ _ _ hres (.payload hawaited hroom hstream)

/-- Whole pieces keep the receiver aligned over a run. -/
theorem reaches {used rest : List NativeResult}
    (hsizes : ∀ f ∈ frames, 1 ≤ f.length ∧ f.length ≤ 65533)
    (hdelivers : ∀ res ∈ used ++ rest, Delivers res) (h : Aligned frames (used ++ rest) r)
    (hrun : Reaches Step r used r') : Aligned frames rest r' := by
  -- for every split of the results into those of the run and those that follow
  suffices haligned : ∀ later, used ++ rest = used ++ later → Aligned frames later r' from
    haligned rest rfl
  refine hrun.trace (P := fun labels s => ∀ later, used ++ rest = labels ++ later →
    Aligned frames later s) ?_ ?_
  · rintro later hlater
    rwa [hlater] at h
  · intro labels s res s' ih hstep later hlater
    rw [List.append_assoc, List.singleton_append] at hlater
    refine (ih _ hlater).step hsizes (hdelivers res ?_) hstep
    rw [hlater]
    simp

end Aligned

end Receiver

end Sws.Socket
