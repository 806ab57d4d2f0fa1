import Sws.Foundation.Rounds
import Sws.Model.Transfer
import Sws.Socket.SendOrder

/-!
# Whole Buffers Are Transferred Exactly

`send_all` and `receive_all` transfer a buffer in rounds, one for each native result.  What the
two loops have in common is a transfer in rounds; what they do not is what a native call does
with the buffer.

## Key Results

- `Transfers`: what is asked of the native call of a loop.
- `Transfers.loop`: the loop ends as the transfer in rounds does, with so much transferred.
- `transfers_exactly`: what both calls have transferred, at every moment and when they return.
-/

namespace Sws.TcpSocket

open Sws.Foundation
open Socket

/-- What a native result is to a transfer. -/
def round : NativeResult → Round
  | .count 0 => .stop
  | .count n => .moved n
  | .failure .none => .pending
  | .failure .wouldBlock => .again
  | .failure _ => .stop

theorem round_count {n : ℕ} (hn : 0 < n) : round (.count n) = .moved n := by
  cases n with
  | zero => omega
  | succ n => rfl

theorem round_failure {e : SocketError} (he : e ≠ .none) (hblock : e ≠ .wouldBlock) :
    round (.failure e) = .stop := by
  cases e with
  | none => exact absurd rfl he
  | wouldBlock => exact absurd rfl hblock
  | _ => rfl

/-- A result that a native call cannot have is a round that does not come back. -/
theorem stuck_of_not_answers {limit : ℕ} {results : List NativeResult}
    (h : ¬Answers limit results) (r : Round) (rs : List Round)
    (hrounds : results.map round = r :: rs) :
    r = .pending ∨ ∃ n, r = .moved n ∧ limit < n := by
  cases results with
  | nil => simp at hrounds
  | cons result rest =>
    rw [List.map_cons, List.cons.injEq] at hrounds
    cases result with
    | count n =>
      have hn : limit < n := not_le.mp h
      exact .inr ⟨n, hrounds.1.symm.trans (round_count (by omega)), hn⟩
    | failure e =>
      have he : e = .none := not_not.mp h
      rw [he] at hrounds
      exact .inl hrounds.1.symm

/-! ## The loop -/

/-- After `get_error_inst`. -/
def errorStored (x : Exchange) : Exchange :=
  { x with host := { x.host with
      socket := { x.host.socket with nativeError := x.host.net.lastError } } }

/-- `Moved total` is said of what is left behind once `total` bytes have been transferred, of
which there are no more than `stock`; the native call transfers the next ones. -/
structure Transfers (transfer : Int → Int → ExchangeM Int) (Moved : ℕ → Exchange → Prop)
    (length stock : ℕ) : Prop where
  count : ∀ {x total n rest}, Moved total x → total < length →
    x.host.net.results = .count n :: rest → n ≤ min (length - total) (stock - total) →
    ∃ y, (transfer total (length - total)).run x = .ok (n : Int) y ∧
      y.host.net.results = rest ∧ Moved (total + n) y
  failure : ∀ {x total e rest}, Moved total x → total < length →
    x.host.net.results = .failure e :: rest → e ≠ .none →
    ∃ y, (transfer total (length - total)).run x = .ok (-1) y ∧
      y.host.net.results = rest ∧ y.host.net.lastError = e ∧ Moved total y
  pending : ∀ {x total}, Moved total x → total < length →
    ¬Answers (min (length - total) (stock - total)) x.host.net.results →
    ∃ y, (transfer total (length - total)).run x = .error .pending y ∧
      y.host.net.results = x.host.net.results ∧ Moved total y
  stored : ∀ {x total}, Moved total x → Moved total (errorStored x)

/-- After `total` bytes a loop went on as the report says. -/
structure Reports (Moved : ℕ → Exchange → Prop) (total : ℕ) (results : List NativeResult)
    (report : Report) (completed : Option Bool) (y : Exchange) : Prop where
  completed_eq : report.completed = completed
  moved : Moved (total + report.moved) y
  results_eq : y.host.net.results = results.drop report.rounds

/-- Every end of a program that starts in `x` after `total` bytes is one that the report tells
of. -/
def ToldBy (report : Report) (Moved : ℕ → Exchange → Prop) (total : ℕ) (m : ExchangeM Bool)
    (x : Exchange) : Prop :=
  Ensures (· = x) m (fun b => Reports Moved total x.host.net.results report (some b))
    (fun e y => e = .pending ∧ Reports Moved total x.host.net.results report none y)

section Loop

variable {transfer : Int → Int → ExchangeM Int} {Moved : ℕ → Exchange → Prop}
  {length stock total fuel : ℕ} {x y : Exchange}

/-- A round in front. -/
theorem Reports.after {r : NativeResult} {rest : List NativeResult} {report : Report}
    {completed : Option Bool} {n : ℕ}
    (h : Reports Moved (total + n) rest report completed y) :
    Reports Moved total (r :: rest) (report.after n) completed y where
  completed_eq := h.completed_eq
  moved := by
    have hmoved := h.moved
    rw [Nat.add_assoc] at hmoved
    exact hmoved
  results_eq := h.results_eq

/-- A first round in front of what the rest of the run is told by. -/
theorem ToldBy.after {m m' : ExchangeM Bool} {r : NativeResult} {rest : List NativeResult}
    {report : Report} {n : ℕ} (h : ToldBy report Moved (total + n) m' y)
    (hrun : m.run x = m'.run y) (hx : x.host.net.results = r :: rest)
    (hy : y.host.net.results = rest) : ToldBy (report.after n) Moved total m x := by
  unfold ToldBy at h ⊢
  rw [hy] at h
  rw [hx]
  refine Ensures.of_run_eq hrun (h.weaken (fun _ h => h) ?_ ?_) rfl
  · intro b z hz
    exact hz.after
  · intro e z hz
    exact ⟨hz.1, hz.2.after⟩

@[simp] theorem onHost_getErrorInst_run (x : Exchange) :
    (onHost getErrorInst).run x = .ok x.host.net.lastError (errorStored x) := rfl

/-- One round of the loop. -/
theorem transferLoop_run (transfer : Int → Int → ExchangeM Int) (fuel : ℕ) (x : Exchange)
    (htotal : total < length) :
    (transferLoop transfer length (fuel + 1) total).run x =
      match (transfer total (length - total)).run x with
      | .ok count y =>
        if count = 0 then .ok false y
        else if count < 0 then
          if y.host.net.lastError = .wouldBlock then
            (transferLoop transfer length fuel total).run (errorStored y)
          else .ok false (errorStored y)
        else (transferLoop transfer length fuel (total + count)).run y
      | .error e y => .error e y := by
  have hmore : ¬¬(total : Int) < length := by
    rw [not_not]
    exact Int.ofNat_lt.mpr htotal
  simp only [transferLoop, if_neg hmore, EStateM.run_bind]
  cases (transfer total (length - total)).run x with
  | error e y => rfl
  | ok count y =>
    simp only
    split_ifs with hzero hneg hblock
    · rfl
    · simp only [EStateM.run_bind, onHost_getErrorInst_run, if_pos hblock]
    · simp only [EStateM.run_bind, onHost_getErrorInst_run, if_neg hblock]
      rfl
    · rfl

/-- **The loop.** It ends as the transfer in rounds does, of what is left of the buffer. -/
theorem Transfers.loop (ht : Transfers transfer Moved length stock) (hx : Moved total x)
    (htotal : total ≤ length) (hfuel : x.host.net.results.length < fuel) :
    ToldBy (Foundation.transfer (length - total) (stock - total) (x.host.net.results.map round))
      Moved total (transferLoop transfer length fuel total) x := by
  induction fuel generalizing x total with
  | zero => omega
  | succ fuel ih =>
    rcases Nat.eq_or_lt_of_le htotal with rfl | hlt
    · have hrun : (transferLoop transfer total (fuel + 1) total).run x = .ok true x := by
        simp [transferLoop]
      rw [Nat.sub_self, transfer_zero]
      exact Ensures.of_ok hrun ⟨rfl, hx, rfl⟩
    · have hleft : 0 < length - total := by omega
      have hround := transferLoop_run transfer fuel x hlt
      rcases answers_cases (min (length - total) (stock - total)) x.host.net.results with
        ⟨n, rest, hres, hn⟩ | ⟨e, rest, hres, he⟩ | hpending
      · obtain ⟨y, hcall, hrest, hy⟩ := ht.count hx hlt hres hn
        rw [hcall] at hround
        rw [hres] at hfuel ⊢
        rcases Nat.eq_zero_or_pos n with rfl | hpos
        · rw [List.map_cons, show round (.count 0) = .stop from rfl, transfer_stop hleft]
          exact Ensures.of_ok hround ⟨rfl, hy, by rw [hres]; exact hrest⟩
        · have hsome : (n : Int) ≠ 0 ∧ ¬(n : Int) < 0 := by omega
          simp only [if_neg hsome.1, if_neg hsome.2] at hround
          rw [List.map_cons, round_count hpos, transfer_moved hleft ⟨hpos, hn⟩]
          have hnext := ih hy (by omega) (by rw [hrest]; simpa using hfuel)
          rw [hrest, ← Nat.sub_sub, ← Nat.sub_sub] at hnext
          exact hnext.after hround hres hrest
      · obtain ⟨y, hcall, hrest, hlast, hy⟩ := ht.failure hx hlt hres he
        rw [hcall] at hround
        rw [hres] at hfuel ⊢
        have hfailed : (-1 : Int) ≠ 0 ∧ (-1 : Int) < 0 := by omega
        simp only [if_neg hfailed.1, if_pos hfailed.2, hlast] at hround
        by_cases hblock : e = .wouldBlock
        · -- another attempt, at the same bytes
          rw [if_pos hblock] at hround
          rw [List.map_cons, hblock, show round (.failure .wouldBlock) = .again from rfl,
            transfer_again hleft]
          have hnext := ih (ht.stored hy) htotal
            (show y.host.net.results.length < fuel by rw [hrest]; simpa using hfuel)
          rw [show (errorStored y).host.net.results = rest from hrest] at hnext
          exact ToldBy.after (n := 0) hnext hround hres hrest
        · rw [if_neg hblock] at hround
          rw [List.map_cons, round_failure he hblock, transfer_stop hleft]
          exact Ensures.of_ok hround ⟨rfl, ht.stored hy, by rw [hres]; exact hrest⟩
      · obtain ⟨y, hcall, hrest, hy⟩ := ht.pending hx hlt hpending
        rw [hcall] at hround
        rw [transfer_stuck hleft (stuck_of_not_answers hpending)]
        exact Ensures.of_error hround ⟨rfl, rfl, hy, hrest⟩

end Loop

/-! ## The native calls -/

/-- `total` bytes from the start of the buffer have been sent, and what was offered lies in its
first `length` bytes. -/
structure Sent (x : Exchange) (length total : ℕ) (y : Exchange) : Prop where
  fits : total ≤ x.buffer.length
  accepted_eq : y.host.net.accepted = x.host.net.accepted ++ x.buffer.take total
  buffer_eq : y.buffer = x.buffer
  offered_eq : ∃ ranges, y.host.net.offered = x.host.net.offered ++ ranges ∧
    ∀ range ∈ ranges, PartOf length range

/-- `total` bytes have been received at the start of the buffer, and what was asked for lies in
its first `length` bytes. -/
structure Received (x : Exchange) (length total : ℕ) (y : Exchange) : Prop where
  fits : total ≤ x.buffer.length
  enough : total ≤ x.host.net.inbound.length
  inbound_eq : y.host.net.inbound = x.host.net.inbound.drop total
  buffer_eq : y.buffer = splice x.buffer 0 (x.host.net.inbound.take total)
  requested_eq : ∃ ranges, y.host.net.requested = x.host.net.requested ++ ranges ∧
    ∀ range ∈ ranges, PartOf length range

section Calls

variable {x : Exchange} {length : ℕ}

/-- One more range of the buffer. -/
theorem ranges_append {all all' before : List (Int × Int)} {total : ℕ} (htotal : total < length)
    (h : ∃ ranges, all = before ++ ranges ∧ ∀ range ∈ ranges, PartOf length range)
    (hnext : all' = all ++ [((total : Int), (length : Int) - total)]) :
    ∃ ranges, all' = before ++ ranges ∧ ∀ range ∈ ranges, PartOf length range := by
  obtain ⟨ranges, hall, hparts⟩ := h
  refine ⟨ranges ++ [((total : Int), (length : Int) - total)], ?_, ?_⟩
  · rw [hnext, hall, List.append_assoc]
  · intro range hrange
    rw [List.mem_append, List.mem_singleton] at hrange
    rcases hrange with hbefore | rfl
    · exact hparts range hbefore
    · refine ⟨Int.natCast_nonneg total, ?_, ?_⟩
      · show (0 : Int) < (length : Int) - total
        omega
      · show (total : Int) + ((length : Int) - total) ≤ length
        omega

theorem onHost_run {α : Type} (m : HostM α) (x : Exchange) :
    (onHost m).run x =
      match m.run x.host with
      | .ok a h => .ok a { x with host := h }
      | .error e h => .error e { x with host := h } := by
  simp only [onHost, zoom, EStateM.run]
  cases m x.host <;> rfl

/-- The bytes of the buffer that a native send has taken. -/
def taken (x : Exchange) (h : Host) (pos sent : Int) : Exchange :=
  { x with host := { h with net := { h.net with
      accepted := h.net.accepted ++ (x.buffer.drop pos.toNat).take sent.toNat } } }

theorem sendFrom_run (x : Exchange) (pos length : Int) :
    (sendFrom pos length).run x =
      match (nativeCall length.toNat).run (offering x.host pos length) with
      | .ok sent h => .ok sent (taken x h pos sent)
      | .error e h => .error e { x with host := h } := by
  have hoffer : (onHost (modifyNet fun net =>
      { net with offered := net.offered ++ [(pos, length)] })).run x =
        .ok () { x with host := offering x.host pos length } := rfl
  simp only [sendFrom, EStateM.run_bind, hoffer, onHost_run]
  cases (nativeCall length.toNat).run (offering x.host pos length) <;> rfl

/-- When a native receive is called. -/
def requesting (h : Host) (pos length : Int) : Host :=
  { h with net := { h.net with requested := h.net.requested ++ [(pos, length)] } }

theorem receiveTo_run (x : Exchange) (pos length : Int) :
    (receiveTo pos length).run x =
      match (receiveBytes length).run (requesting x.host pos length) with
      | .ok (received, bytes) h =>
        .ok received { host := h, buffer := splice x.buffer pos.toNat bytes }
      | .error e h => .error e { x with host := h } := by
  have hrequest : (onHost (modifyNet fun net =>
      { net with requested := net.requested ++ [(pos, length)] })).run x =
        .ok () { x with host := requesting x.host pos length } := rfl
  simp only [receiveTo, EStateM.run_bind, hrequest, onHost_run]
  cases (receiveBytes length).run (requesting x.host pos length) <;> rfl

theorem sendFrom_transfers (hbuffer : length ≤ x.buffer.length) :
    Transfers sendFrom (Sent x length) length length where
  count {y total n rest} hy htotal hres hn := by
    have hcall := nativeCall_count (h := offering y.host total (length - total))
      ((length : Int) - total).toNat hres (by omega)
    have hrun := sendFrom_run y total (length - total)
    rw [hcall] at hrun
    refine ⟨_, hrun, rfl, by omega, ?_, hy.buffer_eq, ranges_append htotal hy.offered_eq rfl⟩
    show y.host.net.accepted ++ (y.buffer.drop total).take n = _
    rw [hy.accepted_eq, hy.buffer_eq, List.append_assoc, ← List.take_add]
  failure {y total e rest} hy htotal hres he := by
    have hcall := nativeCall_failure (h := offering y.host total (length - total))
      ((length : Int) - total).toNat hres he
    have hrun := sendFrom_run y total (length - total)
    rw [hcall] at hrun
    refine ⟨_, hrun, rfl, rfl, hy.fits, ?_, hy.buffer_eq, ranges_append htotal hy.offered_eq rfl⟩
    show y.host.net.accepted ++ (y.buffer.drop total).take 0 = _
    rw [List.take_zero, List.append_nil]
    exact hy.accepted_eq
  pending {y total} hy htotal hres := by
    have hlimit : ((length : Int) - total).toNat = length - total := by omega
    rw [Nat.min_self, ← hlimit] at hres
    have hcall := nativeCall_pending (h := offering y.host total (length - total)) _ hres
    have hrun := sendFrom_run y total (length - total)
    rw [hcall] at hrun
    exact ⟨_, hrun, rfl, hy.fits, hy.accepted_eq, hy.buffer_eq,
      ranges_append htotal hy.offered_eq rfl⟩
  stored hy := ⟨hy.fits, hy.accepted_eq, hy.buffer_eq, hy.offered_eq⟩

/-- The next bytes are put behind those that have been received. -/
theorem splice_next (xs ys : List UInt8) {total : ℕ} (n : ℕ) (henough : total ≤ ys.length) :
    splice (splice xs 0 (ys.take total)) total ((ys.drop total).take n) =
      splice xs 0 (ys.take (total + n)) := by
  have hlen : 0 + (ys.take total).length = total := by
    rw [Nat.zero_add, List.length_take, Nat.min_eq_left henough]
  have happend := splice_append xs (ys.take total) ((ys.drop total).take n) (Nat.zero_le xs.length)
  rw [hlen] at happend
  rw [happend, ← List.take_add]

theorem receiveTo_transfers (hbuffer : length ≤ x.buffer.length) :
    Transfers receiveTo (Received x length) length x.host.net.inbound.length where
  count {y total n rest} hy htotal hres hn := by
    have hlen : y.host.net.inbound.length = x.host.net.inbound.length - total := by
      rw [hy.inbound_eq, List.length_drop]
    have hcall := receiveBytes_count (h := requesting y.host total (length - total))
      ((length : Int) - total) hres (show n ≤ min _ y.host.net.inbound.length by omega)
    have hrun := receiveTo_run y total (length - total)
    rw [hcall] at hrun
    have henough := hy.enough
    refine ⟨_, hrun, rfl, by omega, by omega, ?_, ?_, ranges_append htotal hy.requested_eq rfl⟩
    · show y.host.net.inbound.drop n = _
      rw [hy.inbound_eq, List.drop_drop]
    -- what arrives is put behind what was received before
    · show splice y.buffer total (y.host.net.inbound.take n) = _
      rw [hy.buffer_eq, hy.inbound_eq, splice_next _ _ n hy.enough]
  failure {y total e rest} hy htotal hres he := by
    have hcall := receiveBytes_failure (h := requesting y.host total (length - total))
      ((length : Int) - total) hres he
    have hrun := receiveTo_run y total (length - total)
    rw [hcall] at hrun
    refine ⟨_, hrun, rfl, rfl, hy.fits, hy.enough, hy.inbound_eq, ?_,
      ranges_append htotal hy.requested_eq rfl⟩
    show splice y.buffer total [] = _
    rw [splice_nil]
    exact hy.buffer_eq
  pending {y total} hy htotal hres := by
    have hlimit : min ((length : Int) - total).toNat y.host.net.inbound.length =
        min (length - total) (x.host.net.inbound.length - total) := by
      rw [hy.inbound_eq, List.length_drop]
      omega
    rw [← hlimit] at hres
    have hcall := receiveBytes_pending (h := requesting y.host total (length - total)) _ hres
    have hrun := receiveTo_run y total (length - total)
    rw [hcall] at hrun
    exact ⟨_, hrun, rfl, hy.fits, hy.enough, hy.inbound_eq, hy.buffer_eq,
      ranges_append htotal hy.requested_eq rfl⟩
  stored hy := ⟨hy.fits, hy.enough, hy.inbound_eq, hy.buffer_eq, hy.requested_eq⟩

end Calls

/-! ## Whole buffers -/

/-- The bytes that native results tell of. -/
def bytesOf (results : List NativeResult) : ℕ := Round.total (results.map round)

/-- The exchange with only the first `k` of its native results. -/
def firstResults (x : Exchange) (k : ℕ) : Exchange := { x with host := cutAfter x.host k }

/-- A call transfers exactly `length` bytes: `Moved total` is said of what is left behind once
the first `total` have been transferred, and there are no more than `stock`. -/
structure Exactly (call : ExchangeM Bool) (Moved : ℕ → Exchange → Prop) (length stock : ℕ)
    (x : Exchange) : Prop where
  /-- At every moment; a call that is given only the first `k` native results stops where it asks
  for the next one. -/
  moments : ∀ k, ∃ total ≤ length, Moved total (finalState (call.run (firstResults x k))) ∧
    ((∃ y, call.run (firstResults x k) = .ok true y) ↔ total = length)
  returns_true : (∃ y, call.run x = .ok true y) ↔
    (∃ k, (∀ r ∈ x.host.net.results.take k, (round r).GoesOn) ∧
      bytesOf (x.host.net.results.take k) = length) ∧ length ≤ stock
  /-- After `k + 1` native results. -/
  returns_false : ∀ k < x.host.net.results.length,
    (∃ y, call.run x = .ok false y ∧ y.host.net.results = x.host.net.results.drop (k + 1)) ↔
      x.host.net.results[k]?.map round = some .stop ∧
        (∀ r ∈ x.host.net.results.take k, (round r).GoesOn) ∧
        bytesOf (x.host.net.results.take k) < length ∧ bytesOf (x.host.net.results.take k) ≤ stock
  /-- There is no other end than that a native call has not returned. -/
  waits : ∀ e y, call.run x = .error e y → e = .pending

section Exactly

variable {call : ExchangeM Bool} {transfer : Int → Int → ExchangeM Int}
  {Moved : ℕ → Exchange → Prop} {length stock total : ℕ} {x y : Exchange} {report : Report}

/-- A run that a report tells of. -/
theorem ToldBy.returns_iff (h : ToldBy report Moved total call x) (b : Bool) :
    (∃ y, call.run x = .ok b y) ↔ report.completed = some b := by
  have hend := h.run x rfl
  have hrun : call.run x = call x := rfl
  cases hcall : call x with
  | ok b' y =>
    rw [hcall] at hend
    have hcompleted := hend.completed_eq
    rw [hrun, hcall, hcompleted]
    simp
  | error e y =>
    rw [hcall] at hend
    have hcompleted := hend.2.completed_eq
    rw [hrun, hcall, hcompleted]
    simp

/-- A run that returns uses up the results of the rounds that the report counts. -/
theorem ToldBy.results_eq (h : ToldBy report Moved total call x) {b : Bool}
    (hrun : call.run x = .ok b y) :
    y.host.net.results = x.host.net.results.drop report.rounds := by
  have hend := h.run x rfl
  rw [show call x = .ok b y from hrun] at hend
  exact hend.results_eq

/-- What has been transferred, however the run ends. -/
theorem ToldBy.moved (h : ToldBy report Moved total call x) :
    Moved (total + report.moved) (finalState (call.run x)) := by
  have hmoved : Ensures (· = x) call (fun _ => Moved (total + report.moved))
      (fun _ => Moved (total + report.moved)) := by
    refine Ensures.weaken h (fun _ hy => hy) ?_ ?_
    · intro b y hy
      exact hy.moved
    · intro e y hy
      exact hy.2.moved
  exact hmoved.finalState

theorem firstResults_all (x : Exchange) : firstResults x x.host.net.results.length = x := by
  simp [firstResults, cutAfter]

/-- The loop from its start. -/
theorem Transfers.start (ht : Transfers transfer Moved length stock) (hx : Moved 0 x)
    (hcall : call.run x =
      (transferLoop transfer length (x.host.net.results.length + 1) 0).run x) :
    ToldBy (Foundation.transfer length stock (x.host.net.results.map round)) Moved 0 call x :=
  .of_run_eq hcall (ht.loop hx (Nat.zero_le length) (Nat.lt_succ_self _)) rfl

/-- A loop whose native call transfers the next bytes transfers the whole buffer exactly. -/
theorem Transfers.exactly (ht : Transfers transfer Moved length stock)
    (hstart : ∀ k, Moved 0 (firstResults x k))
    (hcall : ∀ y, call.run y =
      (transferLoop transfer length (y.host.net.results.length + 1) 0).run y) :
    Exactly call Moved length stock x where
  moments k := by
    have hend := ht.start (hstart k) (hcall _)
    refine ⟨_, ?_, hend.moved, ?_⟩
    · have hle := transfer_moved_le length stock ((firstResults x k).host.net.results.map round)
      omega
    · rw [hend.returns_iff true, Nat.zero_add]
      exact transfer_done_moved ..
  returns_true := by
    have hx := firstResults_all x ▸ hstart x.host.net.results.length
    rw [(ht.start hx (hcall x)).returns_iff true, transfer_done_iff]
    simp [bytesOf, ← List.map_take]
  returns_false k hk := by
    have hx := firstResults_all x ▸ hstart x.host.net.results.length
    have hend := ht.start hx (hcall x)
    have hfailed := transfer_failed_iff length stock k (x.host.net.results.map round)
    simp only [List.getElem?_map, ← List.map_take, List.forall_mem_map] at hfailed
    rw [bytesOf, ← hfailed]
    constructor
    · intro h
      obtain ⟨y, hrun, hdrop⟩ := h
      refine ⟨(hend.returns_iff false).mp ⟨y, hrun⟩, ?_⟩
      -- the rounds are counted by the results that are left
      have hused := congrArg List.length (hdrop.symm.trans (hend.results_eq hrun))
      have hle := transfer_rounds_le length stock (x.host.net.results.map round)
      simp only [List.length_drop, List.length_map] at hused hle
      omega
    · intro h
      obtain ⟨hcompleted, hrounds⟩ := h
      obtain ⟨y, hrun⟩ := (hend.returns_iff false).mpr hcompleted
      refine ⟨y, hrun, ?_⟩
      rw [hend.results_eq hrun, hrounds]
  waits e y hrun := by
    have hx := firstResults_all x ▸ hstart x.host.net.results.length
    have hend := (ht.start hx (hcall x)).run x rfl
    rw [show call x = .error e y from hrun] at hend
    exact hend.1

end Exactly

section WholeBuffers

variable {x : Exchange} {length : ℕ}

theorem Sent.start (x : Exchange) (length k : ℕ) : Sent x length 0 (firstResults x k) where
  fits := Nat.zero_le _
  accepted_eq := (List.append_nil _).symm
  buffer_eq := rfl
  offered_eq := ⟨[], (List.append_nil _).symm, by simp⟩

theorem Received.start (x : Exchange) (length k : ℕ) : Received x length 0 (firstResults x k) where
  fits := Nat.zero_le _
  enough := Nat.zero_le _
  inbound_eq := rfl
  buffer_eq := (splice_nil _ _).symm
  requested_eq := ⟨[], (List.append_nil _).symm, by simp⟩

theorem sendAll_exactly (hbuffer : length ≤ x.buffer.length) :
    Exactly (sendAll length) (Sent x length) length length x :=
  (sendFrom_transfers hbuffer).exactly (Sent.start x length) fun _ => rfl

theorem receiveAll_exactly (hbuffer : length ≤ x.buffer.length) :
    Exactly (receiveAll length) (Received x length) length x.host.net.inbound.length x :=
  (receiveTo_transfers hbuffer).exactly (Received.start x length) fun _ => rfl

/-- **Exact transfers.** Both calls transfer the first `length` bytes of the caller's buffer, or
as many of them as the native results allow. -/
theorem transfers_exactly (hbuffer : length ≤ x.buffer.length) :
    Exactly (sendAll length) (Sent x length) length length x ∧
      Exactly (receiveAll length) (Received x length) length x.host.net.inbound.length x :=
  ⟨sendAll_exactly hbuffer, receiveAll_exactly hbuffer⟩

/-- Three bytes, in two parts with a wait in between. -/
def threeBytes : Exchange where
  host :=
    { socket := { protocol := .tcp }
      packet := Packet.fresh
      net := { results := [.count 1, .failure .wouldBlock, .count 2], inbound := [7, 8, 9, 10] } }
  buffer := [1, 2, 3]

theorem transfers_exactly_threeBytes :
    Exactly (sendAll (3 : ℕ)) (Sent threeBytes 3) 3 3 threeBytes ∧
      Exactly (receiveAll (3 : ℕ)) (Received threeBytes 3) 3 4 threeBytes :=
  transfers_exactly (Nat.le_refl 3)

end WholeBuffers

end Sws.TcpSocket
