import Sws.Socket.Receiver

/-!
# One Direction of a Connection

What one side's packets become on their way, without sockets, packets or buffers: a sender whose
frames are accepted whole or in part, a stream that arrives in portions, and a `Receiver`.

## Key Results

- `Receiver.Framed.step`, `Receiver.Framed.reaches`: what whole pieces keep of the frames.
- `Flow.Ordered.step`: no event of an orderly run breaks the order.
- `Flow.Ordered.taken_prefix`, `Flow.Ordered.taken_eq`: what the receiver has taken.
- `Flow.Excerpted.step`: in any run, what is taken are segments of the stream.
-/

namespace Sws.Socket

open Sws.Foundation
open Packet (frame)

/-! ## Undivided receives -/

/-- Every native receive that gives some bytes gives all that it is asked for: the two of a
header, or those of the payload that the header announces. -/
def Undivided : (awaited : Option ℕ) → (inbound : List UInt8) → List NativeResult → Prop
  | _, _, [] => True
  | awaited, inbound, .failure _ :: rest => Undivided awaited inbound rest
  | awaited, inbound, .count n :: rest =>
    if n = 0 then Undivided awaited inbound rest
    else n = awaited.getD 2 ∧
      Undivided (if awaited = none then some (ofBytes (inbound.take 2)) else none)
        (inbound.drop n) rest

namespace Receiver

/-- The frames of some payloads: the receiver has taken the first ones, and the others are in its
stream and in what is coming behind it. -/
inductive Framed (payloads : List (List UInt8)) (coming : List UInt8) (r : Receiver) : Prop
  | between {todo : List (List UInt8)} (hpayloads : payloads = r.taken ++ todo)
      (hidle : r.awaited = none) (hstream : r.stream ++ coming = todo.flatMap frame)
  | inside {f : List UInt8} {todo : List (List UInt8)} (hpayloads : payloads = r.taken ++ f :: todo)
      (hawaited : r.awaited = some f.length)
      (hstream : r.stream ++ coming = f ++ todo.flatMap frame)

namespace Framed

variable {payloads : List (List UInt8)} {coming : List UInt8} {r r' : Receiver}
  {res : NativeResult} {rest : List NativeResult}

theorem start : Framed [] [] (start []) :=
  .between rfl rfl rfl

theorem taken_prefix (h : Framed payloads coming r) : r.taken <+: payloads := by
  rcases h with ⟨hpayloads, -, -⟩ | ⟨hpayloads, -, -⟩
  · rw [hpayloads]
    exact List.prefix_append ..
  · rw [hpayloads]
    exact List.prefix_append ..

/-- Between two frames with nothing to come, all have been taken. -/
theorem taken_eq (h : Framed payloads coming r) (hidle : r.awaited = none)
    (hdrained : r.stream ++ coming = []) : r.taken = payloads := by
  rcases h with ⟨hpayloads, -, hstream⟩ | ⟨-, hawaited, -⟩
  · rename_i todo
    cases todo with
    | nil => rw [hpayloads, List.append_nil]
    | cons f todo =>
      -- a frame has a header at least
      rw [hdrained, Aligned.flatMap_frame_cons] at hstream
      have hlen := congrArg List.length hstream
      simp only [List.length_nil, List.length_append, length_toBytes] at hlen
      omega
  · rw [hidle] at hawaited
    cases hawaited

/-- With bytes still to come, not all have been taken. -/
theorem taken_ne (h : Framed payloads coming r) (hcoming : coming ≠ []) : r.taken ≠ payloads := by
  rcases h with ⟨hpayloads, -, hstream⟩ | ⟨hpayloads, -, -⟩
  · rename_i todo
    rintro htaken
    rw [hpayloads, List.self_eq_append_right] at htaken
    rw [htaken, List.flatMap_nil, List.append_eq_nil_iff] at hstream
    exact hcoming hstream.2
  · rintro htaken
    rw [hpayloads, List.self_eq_append_right] at htaken
    cases htaken

/-- One frame more is on its way. -/
theorem concat (h : Framed payloads coming r) (f : List UInt8) :
    Framed (payloads ++ [f]) (coming ++ frame f) r := by
  rcases h with ⟨hpayloads, hidle, hstream⟩ | ⟨hpayloads, hawaited, hstream⟩
  · rename_i todo
    refine .between (?_ : payloads ++ [f] = r.taken ++ (todo ++ [f])) hidle ?_
    · rw [hpayloads, List.append_assoc]
    · rw [← List.append_assoc, hstream, List.flatMap_append, List.flatMap_singleton]
  · rename_i g todo
    refine .inside (?_ : payloads ++ [f] = r.taken ++ g :: (todo ++ [f])) hawaited ?_
    · rw [hpayloads, List.append_assoc, List.cons_append]
    · rw [← List.append_assoc, hstream, List.flatMap_append, List.flatMap_singleton,
        List.append_assoc]

/-- Bytes that arrive were coming before. -/
theorem arrive (h : Framed payloads coming r) {stream coming' : List UInt8}
    (hbytes : stream ++ coming' = r.stream ++ coming) :
    Framed payloads coming' { r with stream } := by
  rcases h with ⟨hpayloads, hidle, hstream⟩ | ⟨hpayloads, hawaited, hstream⟩
  · exact .between hpayloads hidle (hbytes.trans hstream)
  · exact .inside hpayloads hawaited (hbytes.trans hstream)

/-- The bytes at the front, when a header is due. -/
theorem header_of_due {bytes tail : List UInt8} (h : Framed payloads coming r)
    (hidle : r.awaited = none) (hstream : r.stream = bytes ++ tail) (hlen : bytes.length = 2) :
    ∃ f todo, payloads = r.taken ++ f :: todo ∧ bytes = toBytes 2 f.length ∧
      tail ++ coming = f ++ todo.flatMap frame := by
  rcases h with ⟨hpayloads, -, hframes⟩ | ⟨-, hawaited, -⟩
  · rename_i todo
    rw [hstream, List.append_assoc] at hframes
    cases todo with
    | nil =>
      have hnone := (List.append_eq_nil_iff.mp hframes).1
      rw [hnone] at hlen
      cases hlen
    | cons f todo =>
      rw [Aligned.flatMap_frame_cons] at hframes
      obtain ⟨hbytes, htail⟩ := Aligned.eq_of_cut hframes.symm (by rw [length_toBytes, hlen])
      exact ⟨f, todo, hpayloads, hbytes, htail⟩
  · rw [hidle] at hawaited
    cases hawaited

/-- The payload that is due. -/
theorem payload_of_due {t : ℕ} (h : Framed payloads coming r) (hawaited : r.awaited = some t) :
    ∃ f todo, payloads = r.taken ++ f :: todo ∧ t = f.length ∧
      r.stream ++ coming = f ++ todo.flatMap frame := by
  rcases h with ⟨-, hidle, -⟩ | ⟨hpayloads, hawaited', hframes⟩
  · rw [hidle] at hawaited
    cases hawaited
  · rw [hawaited', Option.some.injEq] at hawaited
    exact ⟨_, _, hpayloads, hawaited.symm, hframes⟩

/-- A receive in vain: the receiver is where it was. -/
theorem of_nothing {stream : List UInt8} {lost : ℕ} (h : Framed payloads coming r)
    (hstream : r.stream = stream) : Framed payloads coming { r with stream, lost } := by
  subst hstream
  rcases h with ⟨hpayloads, hidle, hstream⟩ | ⟨hpayloads, hawaited, hstream⟩
  · exact .between hpayloads hidle hstream
  · exact .inside hpayloads hawaited hstream

/-- **One piece.** Whole pieces keep the frames apart. -/
theorem step (hsizes : ∀ f ∈ payloads, 1 ≤ f.length ∧ f.length ≤ 65533)
    (h : Framed payloads coming r) (hwhole : Undivided r.awaited r.stream (res :: rest))
    (hstep : Step r res r') :
    Framed payloads coming r' ∧ Undivided r'.awaited r'.stream rest := by
  cases hstep with
  | failure hroom he => exact ⟨h, hwhole⟩
  | @header bytes tail hidle hstream hlen hsize =>
    obtain ⟨f, todo, hpayloads, hbytes, htail⟩ := h.header_of_due hidle hstream hlen
    have hf := hsizes f (by rw [hpayloads]; simp)
    have hannounced : ofBytes bytes = f.length := by
      rw [hbytes]
      exact Aligned.ofBytes_header hf.2
    have hnext : Undivided (some (ofBytes bytes)) tail rest := by
      rw [Undivided, if_neg (by omega), hidle, if_pos rfl, hstream, List.drop_left,
        List.take_left' hlen] at hwhole
      exact hwhole.2
    refine ⟨.inside hpayloads ?_ htail, hnext⟩
    rw [hannounced]
  | @noHeader bytes tail hidle hstream hlen hbad =>
    rcases Nat.eq_zero_or_pos bytes.length with hzero | hpos
    · rw [hzero, Undivided, if_pos rfl] at hwhole
      rw [List.length_eq_zero_iff.mp hzero, List.nil_append] at hstream
      rw [hstream] at hwhole
      exact ⟨h.of_nothing hstream, hwhole⟩
    · -- a header that came whole is one
      exfalso
      rw [Undivided, if_neg (by omega), hidle] at hwhole
      have htwo : bytes.length = 2 := hwhole.1
      obtain ⟨f, todo, hpayloads, hbytes, -⟩ := h.header_of_due hidle hstream htwo
      have hf := hsizes f (by rw [hpayloads]; simp)
      apply hbad
      rw [hbytes, Aligned.ofBytes_header hf.2]
      exact ⟨length_toBytes .., hf.1⟩
  | @payload bytes tail hawaited hroom hstream =>
    obtain ⟨f, todo, hpayloads, hlen, hframes⟩ := h.payload_of_due hawaited
    have hf := hsizes f (by rw [hpayloads]; simp)
    rw [hstream, List.append_assoc] at hframes
    obtain ⟨hbytes, htail⟩ := Aligned.eq_of_cut hframes.symm hlen
    have hnext : Undivided none tail rest := by
      rw [Undivided, if_neg (by omega), hawaited, hstream, List.drop_left] at hwhole
      exact hwhole.2
    refine ⟨.between ?_ rfl htail, hnext⟩
    rw [hpayloads, hbytes, List.append_assoc, List.singleton_append]
  | @partialPayload bytes tail t hawaited hroom hstream hlen =>
    rcases Nat.eq_zero_or_pos bytes.length with hzero | hpos
    · rw [hzero, Undivided, if_pos rfl] at hwhole
      rw [List.length_eq_zero_iff.mp hzero, List.nil_append] at hstream
      rw [hstream] at hwhole
      exact ⟨h.of_nothing hstream, hwhole⟩
    · exfalso
      rw [Undivided, if_neg (by omega), hawaited] at hwhole
      have hall : bytes.length = t := hwhole.1
      omega

/-- Over a call, and over any number of them. -/
theorem reaches {results : List NativeResult}
    (hsizes : ∀ f ∈ payloads, 1 ≤ f.length ∧ f.length ≤ 65533) (h : Framed payloads coming r)
    (hwhole : Undivided r.awaited r.stream results) (hrun : Reaches Step r results r') :
    Framed payloads coming r' := by
  -- for every split of the results into those of the run so far and those that follow
  suffices hlater : ∀ later, results = results ++ later →
      Framed payloads coming r' ∧ Undivided r'.awaited r'.stream later from
    (hlater [] (List.append_nil _).symm).1
  refine hrun.trace (P := fun labels s => ∀ later, results = labels ++ later →
    Framed payloads coming s ∧ Undivided s.awaited s.stream later) ?_ ?_
  · rintro later rfl
    exact ⟨h, hwhole⟩
  · intro labels s res s' ih hstep later hlater
    rw [List.append_assoc, List.singleton_append] at hlater
    obtain ⟨hframed, hnext⟩ := ih _ hlater
    exact hframed.step hsizes hnext hstep

end Framed

end Receiver

/-! ## The events of a direction -/

structure Flow where
  receiver : Receiver
  /-- The bytes that are on their way. -/
  transit : List UInt8 := []
  /-- All bytes that were accepted. -/
  stream : List UInt8 := []
  /-- The payloads whose frames were accepted whole. -/
  sent : List (List UInt8) := []
  /-- A frame was accepted in part. -/
  torn : Bool := false
  deriving DecidableEq, Repr

namespace Flow

inductive Event
  /-- Some of the bytes of a frame are accepted. -/
  | accept (payload bytes : List UInt8)
  | receive (results : List NativeResult)
  /-- The payload that was awaited is not any more. -/
  | abandon
  | arrive (n : ℕ)
  | nothing
  deriving DecidableEq, Repr

inductive Step : Flow → Event → Flow → Prop
  | accept {f : Flow} {payload bytes : List UInt8}
      (hsize : bytes ≠ [] → 1 ≤ payload.length ∧ payload.length ≤ 65533)
      (hbytes : bytes <+: frame payload) :
      Step f (.accept payload bytes) { f with
        transit := f.transit ++ bytes
        stream := f.stream ++ bytes
        sent := f.sent ++ if bytes = frame payload then [payload] else []
        torn := f.torn || decide (bytes ≠ [] ∧ bytes ≠ frame payload) }
  | receive {f : Flow} {results : List NativeResult} {r : Receiver}
      (hrun : Reaches Receiver.Step f.receiver results r) :
      Step f (.receive results) { f with receiver := r }
  | abandon {f : Flow} : Step f .abandon { f with receiver := { f.receiver with awaited := none } }
  | arrive {f : Flow} (n : ℕ) :
      Step f (.arrive n) { f with
        transit := f.transit.drop n
        receiver := { f.receiver with stream := f.receiver.stream ++ f.transit.take n } }
  | nothing {f : Flow} : Step f .nothing f

/-- Nothing is sent behind a frame that was torn, receives are not divided, and a payload that is
awaited is not given up. -/
def Orderly (f : Flow) : Event → Prop
  | .accept _ _ => f.torn = false
  | .receive results => Undivided f.receiver.awaited f.receiver.stream results
  | .abandon => f.receiver.awaited = none
  | .arrive _ | .nothing => True

/-- The start of a direction. -/
def start : Flow := { receiver := .start [] }

/-! ## Order -/

/-- What was sent can have been sent. -/
def Sized (f : Flow) : Prop := ∀ payload ∈ f.sent, 1 ≤ payload.length ∧ payload.length ≤ 65533

/-- The bytes of the frames sent are taken, in the stream of the receiver or on their way; but
for the end of the last one, if that was torn. -/
inductive Ordered (f : Flow) : Prop
  | whole (htorn : f.torn = false) (hframed : Receiver.Framed f.sent f.transit f.receiver)
  | torn {last missing : List UInt8} (htorn : f.torn = true)
      (hsize : 1 ≤ last.length ∧ last.length ≤ 65533)
      (hmissing : missing ≠ []) (hlen : missing.length < (frame last).length)
      (hframed : Receiver.Framed (f.sent ++ [last]) (f.transit ++ missing) f.receiver)

section Ordered

variable {f f' : Flow} {e : Event}

theorem Sized.step (hf : f.Sized) (hstep : Step f e f') : f'.Sized := by
  cases hstep with
  | accept hsize hbytes =>
    intro payload hpayload
    rcases List.mem_append.mp hpayload with hold | hnew
    · exact hf payload hold
    · split_ifs at hnew with hwhole
      · rw [List.mem_singleton.mp hnew]
        apply hsize
        rw [hwhole]
        simp [frame, toBytes]
      · cases hnew
  | receive hrun | abandon | arrive n | nothing => exact hf

/-- Sending in an orderly run. -/
theorem Ordered.accept {payload bytes : List UInt8} (hf : f.Ordered) (htorn : f.torn = false)
    (hsize : bytes ≠ [] → 1 ≤ payload.length ∧ payload.length ≤ 65533)
    (hbytes : bytes <+: frame payload) :
    Ordered { f with
      transit := f.transit ++ bytes
      stream := f.stream ++ bytes
      sent := f.sent ++ if bytes = frame payload then [payload] else []
      torn := f.torn || decide (bytes ≠ [] ∧ bytes ≠ frame payload) } := by
  rcases hf with ⟨-, hframed⟩ | ⟨htorn', -⟩
  · rcases Classical.em (bytes = frame payload) with hall | hpart
    · -- the whole frame is on its way
      refine .whole (by simp [htorn, hall]) ?_
      simp only [if_pos hall]
      rw [hall]
      exact hframed.concat payload
    rcases Classical.em (bytes = []) with hnone | hsome
    · refine .whole (by simp [htorn, hnone]) ?_
      simp only [if_neg hpart, List.append_nil]
      rw [hnone, List.append_nil]
      exact hframed
    · -- the end of the frame is missing
      obtain ⟨missing, hsplit⟩ := hbytes
      have hlen := congrArg List.length hsplit
      rw [List.length_append] at hlen
      have hpos := List.length_pos_iff.mpr hsome
      refine .torn (by simp [hsome, hpart]) (hsize hsome) (?_ : missing ≠ []) (by omega) ?_
      · rintro rfl
        exact hpart (by rw [← hsplit, List.append_nil])
      · simp only [if_neg hpart, List.append_nil, List.append_assoc, hsplit]
        exact hframed.concat payload
  · rw [htorn] at htorn'
    cases htorn'

/-- The receiver's part of the order. -/
theorem Ordered.receiver {r : Receiver} {transit : List UInt8} (hf : f.Ordered)
    (hr : ∀ payloads missing, (∀ g ∈ payloads, 1 ≤ g.length ∧ g.length ≤ 65533) →
      Receiver.Framed payloads (f.transit ++ missing) f.receiver →
      Receiver.Framed payloads (transit ++ missing) r) (hsized : f.Sized) :
    Ordered { f with receiver := r, transit } := by
  rcases hf with ⟨htorn, hframed⟩ | ⟨htorn, hsize, hmissing, hlen, hframed⟩
  · refine .whole htorn ?_
    have hframed' := hr f.sent [] hsized
    rw [List.append_nil, List.append_nil] at hframed'
    exact hframed' hframed
  · refine .torn htorn hsize hmissing hlen (hr _ _ ?_ hframed)
    intro g hg
    rcases List.mem_append.mp hg with hold | hlast
    · exact hsized g hold
    · rw [List.mem_singleton.mp hlast]
      exact hsize

/-- **One event.** An orderly run keeps the order. -/
theorem Ordered.step (hf : f.Ordered) (hsized : f.Sized) (hstep : Step f e f')
    (horderly : f.Orderly e) : f'.Ordered := by
  cases hstep with
  | accept hsize hbytes => exact hf.accept horderly hsize hbytes
  | receive hrun =>
    exact hf.receiver (fun _ _ hsizes hframed => hframed.reaches hsizes horderly hrun) hsized
  | abandon =>
    -- nothing was awaited
    refine hf.receiver (fun _ _ _ hframed => ?_) hsized
    have hidle : f.receiver.awaited = none := horderly
    rw [← hidle]
    exact hframed
  | arrive n =>
    refine hf.receiver (fun _ _ _ hframed => hframed.arrive ?_) hsized
    rw [← List.append_assoc, List.append_assoc _ (f.transit.take n), List.take_append_drop,
      List.append_assoc]
  | nothing => exact hf

/-- What was taken was sent, in the same order. -/
theorem Ordered.taken_prefix (hf : f.Ordered) : f.receiver.taken <+: f.sent := by
  rcases hf with ⟨-, hframed⟩ | ⟨-, -, hmissing, -, hframed⟩
  · exact hframed.taken_prefix
  · -- the frame that was torn cannot have been taken
    have hcoming : f.transit ++ _ ≠ [] := List.append_ne_nil_of_right_ne_nil f.transit hmissing
    rcases List.prefix_concat_iff.mp hframed.taken_prefix with hall | hprefix
    · exact absurd hall (hframed.taken_ne hcoming)
    · exact hprefix

/-- With nothing on its way, and none awaited, all that was sent was taken. -/
theorem Ordered.taken_eq (hf : f.Ordered) (hidle : f.receiver.awaited = none)
    (hstream : f.receiver.stream = []) (htransit : f.transit = []) :
    f.receiver.taken = f.sent := by
  rcases hf with ⟨-, hframed⟩ | ⟨-, -, hmissing, hlen, hframed⟩
  · exact hframed.taken_eq hidle (by rw [hstream, htransit]; rfl)
  · -- a frame of which a part was accepted cannot be missing as a whole
    exfalso
    rename_i last missing
    rcases hframed with ⟨hpayloads, -, hframes⟩ | ⟨-, hawaited, -⟩
    · rename_i todo
      rw [hstream, htransit, List.nil_append, List.nil_append] at hframes
      rcases List.eq_nil_or_concat todo with rfl | ⟨todo, g, rfl⟩
      · exact hmissing hframes
      · rw [List.concat_eq_append, ← List.append_assoc] at hpayloads
        obtain ⟨-, hlast⟩ := List.append_inj' hpayloads rfl
        rw [List.cons_eq_cons.mp hlast |>.1, hframes, List.concat_eq_append, List.flatMap_append,
          List.flatMap_singleton, List.length_append] at hlen
        omega
    · rw [hidle] at hawaited
      cases hawaited

end Ordered

/-! ## Segments of the stream -/

/-- What was taken are segments of what has been received. -/
inductive Excerpted (f : Flow) : Prop
  | mk {consumed : List UInt8} (htaken : Excerpt f.receiver.taken consumed)
      (hstream : f.stream = consumed ++ (f.receiver.stream ++ f.transit))

section Excerpted

variable {f f' : Flow} {e : Event}

/-- A receiver takes a piece of its stream, or drops it. -/
theorem excerpt_step {r r' : Receiver} {res : NativeResult} {consumed : List UInt8}
    (htaken : Excerpt r.taken consumed) (hstep : Receiver.Step r res r') :
    ∃ bytes, r.stream = bytes ++ r'.stream ∧ Excerpt r'.taken (consumed ++ bytes) := by
  cases hstep with
  | failure hroom he => exact ⟨[], rfl, htaken.skip []⟩
  | header hidle hstream hlen hsize => exact ⟨_, hstream, htaken.skip _⟩
  | noHeader hidle hstream hlen hbad => exact ⟨_, hstream, htaken.skip _⟩
  | payload hawaited hroom hstream => exact ⟨_, hstream, htaken.take _⟩
  | partialPayload hawaited hroom hstream hlen => exact ⟨_, hstream, htaken.skip _⟩

theorem excerpt_reaches {r r' : Receiver} {results : List NativeResult} {total : List UInt8}
    (htaken : ∃ consumed, Excerpt r.taken consumed ∧ total = consumed ++ r.stream)
    (hrun : Reaches Receiver.Step r results r') :
    ∃ consumed, Excerpt r'.taken consumed ∧ total = consumed ++ r'.stream := by
  refine hrun.invariant (P := fun r => ∃ consumed, Excerpt r.taken consumed ∧
    total = consumed ++ r.stream) ?_ htaken
  rintro s res s' ⟨consumed, hs, htotal⟩ hstep
  obtain ⟨bytes, hstream, hs'⟩ := excerpt_step hs hstep
  exact ⟨_, hs', by rw [htotal, hstream, List.append_assoc]⟩

/-- **One event.** Whatever happens, what is taken is taken from the stream. -/
theorem Excerpted.step (hf : f.Excerpted) (hstep : Step f e f') : f'.Excerpted := by
  obtain ⟨htaken, hstream⟩ := hf
  rename_i consumed
  cases hstep with
  | accept hsize hbytes => exact ⟨htaken, by rw [hstream]; simp only [List.append_assoc]⟩
  | receive hrun =>
    rw [← List.append_assoc] at hstream
    obtain ⟨consumed', htaken', hconsumed⟩ := excerpt_reaches ⟨consumed, htaken, rfl⟩ hrun
    refine ⟨htaken', ?_⟩
    rw [hstream, hconsumed, List.append_assoc]
  | abandon | nothing => exact ⟨htaken, hstream⟩
  | arrive n =>
    refine ⟨htaken, ?_⟩
    rw [hstream, List.append_assoc f.receiver.stream, List.take_append_drop]

end Excerpted

/-! ## Runs -/

theorem ordered_of_reaches {events : List Event} {f : Flow}
    (h : Reaches (fun f e f' => Step f e f' ∧ f.Orderly e) start events f) :
    f.Sized ∧ f.Ordered := by
  refine h.invariant (P := fun f => f.Sized ∧ f.Ordered) ?_ ⟨?_, .whole rfl .start⟩
  · rintro g e g' ⟨hsized, hordered⟩ ⟨hstep, horderly⟩
    exact ⟨hsized.step hstep, hordered.step hsized hstep horderly⟩
  · intro payload hpayload
    cases hpayload

theorem excerpted_of_reaches {events : List Event} {f : Flow} (h : Reaches Step start events f) :
    f.Excerpted :=
  h.invariant (fun _ _ _ hf hstep => hf.step hstep) ⟨.nil, rfl⟩

end Flow

end Sws.Socket
