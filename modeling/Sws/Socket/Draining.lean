import Sws.Socket.Delivery

/-!
# Draining a Connection

An orderly run never comes to a point where a packet that was sent cannot be obtained any more:
once its bytes have arrived, native receives that give whole pieces hand it over.

## Key Results

- `Receiver.Framed.enough`: a frame that was accepted whole is in the stream as a whole.
- `exists_next`: one packet more.
- `exists_drained`: all packets sent so far, by arrivals and receives alone.
-/

namespace Sws.Socket

open Sws.Foundation
open Packet (frame Used)

namespace Receiver

variable {payloads rest : List (List UInt8)} {coming : List UInt8} {r r' : Receiver}

/-- A native receive that gives all that it is asked for. -/
theorem exists_step (hroom : r.HasRoom) (henough : r.request ≤ r.stream.length) :
    ∃ r', Step r (.count r.request) r' := by
  have hlen : (r.stream.take r.request).length = r.request := by
    rw [List.length_take, Nat.min_eq_left henough]
  have hstream : r.stream = r.stream.take r.request ++ r.stream.drop r.request :=
    (List.take_append_drop ..).symm
  cases hawaited : r.awaited with
  | none =>
    have htwo : r.request = 2 := by rw [request, hawaited]; rfl
    -- a size of 0 announces nothing, and the next call reads a header again
    rcases Classical.em (0 < ofBytes (r.stream.take r.request)) with hsize | hsize
    · have hstep := Step.header hawaited hstream (hlen.trans htwo) hsize
      rw [hlen] at hstep
      exact ⟨_, hstep⟩
    · have hstep := Step.noHeader hawaited hstream (by omega) fun h => hsize h.2
      rw [hlen] at hstep
      exact ⟨_, hstep⟩
  | some t =>
    have hall : r.request = t := by rw [request, hawaited]; rfl
    have hstep := Step.payload (hawaited.trans (congrArg some (hlen.trans hall).symm))
      (by rw [hlen, hall]; exact hroom t hawaited) hstream
    rw [hlen] at hstep
    exact ⟨_, hstep⟩

/-- All of the payload that is awaited. -/
theorem Step.takes {t : ℕ} (hstep : Step r (.count t) r') (hawaited : r.awaited = some t) :
    r'.awaited = none ∧ r'.taken.length = r.taken.length + 1 := by
  cases hstep with
  | header hidle | noHeader hidle =>
    rw [hidle] at hawaited
    cases hawaited
  | payload _ hroom hstream => simp
  | partialPayload hawaited' hroom hstream hlen =>
    rw [hawaited', Option.some.injEq] at hawaited
    omega

namespace Framed

/-- All of a header. -/
theorem announces (h : Framed payloads coming r)
    (hsizes : ∀ f ∈ payloads, 1 ≤ f.length ∧ f.length ≤ 65533) (hidle : r.awaited = none)
    (hstep : Step r (.count 2) r') : (∃ t, r'.awaited = some t) ∧ r'.taken = r.taken := by
  generalize hres : NativeResult.count 2 = res at hstep
  cases hstep with
  | failure hroom he => cases hres
  | header hidle hstream hlen hsize => exact ⟨⟨_, rfl⟩, rfl⟩
  | noHeader hidle hstream hlen hbad =>
    injection hres with htwo
    obtain ⟨f, todo, hpayloads, hbytes, -⟩ := h.header_of_due hidle hstream htwo.symm
    have hf := hsizes f (by rw [hpayloads]; simp)
    exfalso
    apply hbad
    rw [hbytes, Aligned.ofBytes_header hf.2]
    exact ⟨length_toBytes .., hf.1⟩
  | payload hawaited | partialPayload hawaited =>
    rw [hidle] at hawaited
    cases hawaited

theorem hasRoom (h : Framed payloads coming r)
    (hsizes : ∀ f ∈ payloads, 1 ≤ f.length ∧ f.length ≤ 65533) : r.HasRoom := by
  intro t ht
  obtain ⟨f, todo, hpayloads, rfl, -⟩ := h.payload_of_due ht
  have hf := hsizes f (by rw [hpayloads]; simp)
  simp only [datagramSize]
  omega

/-- If no more is coming than the last frames, the one before them is in the stream. -/
theorem enough (h : Framed (payloads ++ rest) coming r)
    (hlt : r.taken.length < payloads.length)
    (hcoming : coming.length ≤ (rest.flatMap frame).length) : r.request ≤ r.stream.length := by
  -- what has not been taken of the payloads, and the rest
  have hdrop : ∀ {todo : List (List UInt8)}, payloads ++ rest = r.taken ++ todo →
      ∃ f before, todo = f :: (before ++ rest) := by
    intro todo hsplit
    have htodo := congrArg (List.drop r.taken.length) hsplit
    rw [List.drop_left, List.drop_append_of_le_length (Nat.le_of_lt hlt)] at htodo
    cases hleft : payloads.drop r.taken.length with
    | nil =>
      have hle := List.drop_eq_nil_iff.mp hleft
      omega
    | cons f before =>
      rw [hleft] at htodo
      exact ⟨f, before, htodo.symm⟩
  rcases h with ⟨hpayloads, hidle, hstream⟩ | ⟨hpayloads, hawaited, hstream⟩
  · obtain ⟨f, before, rfl⟩ := hdrop hpayloads
    have hlen := congrArg List.length hstream
    rw [List.flatMap_cons, List.flatMap_append] at hlen
    simp only [List.length_append, Packet.length_frame] at hlen
    rw [request, hidle]
    show 2 ≤ r.stream.length
    omega
  · obtain ⟨f, before, htodo⟩ := hdrop hpayloads
    obtain ⟨rfl, rfl⟩ := List.cons_eq_cons.mp htodo
    have hlen := congrArg List.length hstream
    rw [List.flatMap_append] at hlen
    simp only [List.length_append] at hlen
    rw [request, hawaited]
    show List.length _ ≤ r.stream.length
    omega

end Framed

end Receiver

namespace Flow

variable {f : Flow}

/-- When all has arrived that was accepted, the next packet is there as a whole. -/
theorem Ordered.enough (hf : f.Ordered) (htransit : f.transit = [])
    (hlt : f.receiver.taken.length < f.sent.length) :
    f.receiver.request ≤ f.receiver.stream.length := by
  rcases hf with ⟨-, hframed⟩ | ⟨-, -, -, hlen, hframed⟩
  · rw [← List.append_nil f.sent, htransit] at hframed
    exact hframed.enough hlt (Nat.le_refl 0)
  · rw [htransit, List.nil_append] at hframed
    apply hframed.enough hlt
    rw [List.flatMap_singleton]
    exact Nat.le_of_lt hlen

/-- The frames of an orderly flow, with what follows those that were accepted whole. -/
theorem Ordered.framed (hf : f.Ordered) (hsized : f.Sized) :
    ∃ payloads coming, Receiver.Framed payloads coming f.receiver ∧
      ∀ g ∈ payloads, 1 ≤ g.length ∧ g.length ≤ 65533 := by
  rcases hf with ⟨-, hframed⟩ | ⟨-, hsize, -, -, hframed⟩
  · exact ⟨_, _, hframed, hsized⟩
  · refine ⟨_, _, hframed, fun g hg => ?_⟩
    rcases List.mem_append.mp hg with hold | hlast
    · exact hsized g hold
    · rw [List.mem_singleton.mp hlast]
      exact hsize

end Flow

/-! ## One receive -/

/-- A call uses the native result that it is given, if there can be one. -/
theorem receive_uses {r r' : Receiver} {h : Host} {res : NativeResult} (hm : Matches r h)
    (hres : h.net.results = [res]) (hstep : Receiver.Step r res r') :
    (finalState (receive.run h)).net.results = [] := by
  rcases serves hm with ⟨hrun, hres', -, -, hm'⟩ | ⟨hrun, hres', -⟩ | ⟨-, -, hstuck, -⟩
  · -- the call goes on, and finds no other result
    obtain ⟨-, hnone⟩ := List.cons_eq_cons.mp (hres.symm.trans hres')
    obtain ⟨used, r'', hsplit, -⟩ := receive_reaches hm'
    rw [← hnone] at hsplit
    rw [hrun]
    exact (List.append_eq_nil_iff.mp hsplit.symm).2
  · obtain ⟨-, hnone⟩ := List.cons_eq_cons.mp (hres.symm.trans hres')
    rw [hrun]
    exact hnone.symm
  · exact absurd hstep (hstuck _ _ _ hres)

section Draining

variable {c : Connection} {s : Side} {f : Flow}

/-- The side calls `receive`. -/
def IsReceive (s : Side) (label : Side × Action) : Prop := ∃ results, label = (s, .receive results)

/-- The side calls `receive`, or bytes of its peer arrive. -/
def Pulls (s : Side) (label : Side × Action) : Prop :=
  IsReceive s label ∨ ∃ n, label = (s.peer, .arrive n)

/-- The state of a connection from which a side drains what its peer has sent. -/
structure Drains (c : Connection) (s : Side) (f : Flow) : Prop where
  kept : Kept c
  views : Views c s f
  sized : f.Sized
  ordered : f.Ordered
  arrived : f.transit = []

/-- A native receive that gives all that it is asked for. -/
theorem Drains.receive (hd : Drains c s f) (hlt : f.receiver.taken.length < f.sent.length) :
    ∃ c' r', OrderlyStep c (s, .receive [.count f.receiver.request]) c' ∧
      Receiver.Step f.receiver (.count f.receiver.request) r' ∧
      Drains c' s { f with receiver := r' } := by
  obtain ⟨payloads, coming, hframed, hsizes⟩ := hd.ordered.framed hd.sized
  obtain ⟨r₀, hstep₀⟩ := Receiver.exists_step (hframed.hasRoom hsizes)
    (hd.ordered.enough hd.arrived hlt)
  have hm := hd.views.tracks.matches (hd.kept.1.endpoint s).protocol [.count f.receiver.request]
  have hall := receive_uses hm rfl hstep₀
  obtain ⟨⟨r', hrun, hviews⟩, horderly⟩ := hd.views.receive hd.kept.1 hall
  have hwhole : f.Orderly (.receive [.count f.receiver.request]) := by
    show Undivided _ _ [_]
    rcases Classical.em (f.receiver.request = 0) with hnone | hsome
    · rw [Undivided, if_pos hnone]
      trivial
    · rw [Undivided, if_neg hsome]
      exact ⟨rfl, trivial⟩
  refine ⟨_, r', ⟨.receive hall, horderly.mpr hwhole⟩, hrun.step_of_singleton,
    kept_step hd.kept (.receive hall), hviews, hd.sized, ?_, hd.arrived⟩
  exact hd.ordered.step hd.sized (.receive hrun) hwhole

/-- **One packet more**, in one native receive or two. -/
theorem exists_next (hd : Drains c s f) (hlt : f.receiver.taken.length < f.sent.length) :
    ∃ labels c' r', Reaches OrderlyStep c labels c' ∧ (∀ label ∈ labels, IsReceive s label) ∧
      Drains c' s { f with receiver := r' } ∧
      r'.taken.length = f.receiver.taken.length + 1 := by
  -- the payload that is awaited
  have hpayload : ∀ {c : Connection} {f : Flow} {t : ℕ}, Drains c s f →
      f.receiver.taken.length < f.sent.length → f.receiver.awaited = some t →
      ∃ labels c' r', Reaches OrderlyStep c labels c' ∧ (∀ label ∈ labels, IsReceive s label) ∧
        Drains c' s { f with receiver := r' } ∧
        r'.taken.length = f.receiver.taken.length + 1 := by
    intro c f t hd hlt hawaited
    obtain ⟨c', r', hstep, hreceive, hd'⟩ := hd.receive hlt
    have hall : f.receiver.request = t := by rw [Receiver.request, hawaited]; rfl
    rw [hall] at hreceive
    exact ⟨_, c', r', .cons hstep (.nil c'), List.forall_mem_singleton.mpr ⟨_, rfl⟩, hd',
      (hreceive.takes hawaited).2⟩
  cases hawaited : f.receiver.awaited with
  | some t => exact hpayload hd hlt hawaited
  | none =>
    -- the header comes first
    obtain ⟨payloads, coming, hframed, hsizes⟩ := hd.ordered.framed hd.sized
    obtain ⟨c', r', hstep, hreceive, hd'⟩ := hd.receive hlt
    have htwo : f.receiver.request = 2 := by rw [Receiver.request, hawaited]; rfl
    rw [htwo] at hreceive
    obtain ⟨⟨t, ht⟩, htaken⟩ := hframed.announces hsizes hawaited hreceive
    obtain ⟨labels, c'', r'', hrun, hcalls, hd'', hlen⟩ := hpayload hd' (by rwa [htaken]) ht
    refine ⟨_, c'', r'', .cons hstep hrun, List.forall_mem_cons.mpr ⟨⟨_, rfl⟩, hcalls⟩, hd'', ?_⟩
    rw [hlen, htaken]

/-- All packets that are there. -/
theorem Drains.drain (hd : Drains c s f) :
    ∃ labels c' r', Reaches OrderlyStep c labels c' ∧ (∀ label ∈ labels, IsReceive s label) ∧
      Drains c' s { f with receiver := r' } ∧ r'.taken.length = f.sent.length := by
  have hle := hd.ordered.taken_prefix.length_le
  induction hn : f.sent.length - f.receiver.taken.length generalizing c f with
  | zero => exact ⟨[], c, f.receiver, .nil c, nofun, hd, by omega⟩
  | succ n ih =>
    obtain ⟨labels, c', r', hrun, hcalls, hd', hlen⟩ := exists_next hd (by omega)
    obtain ⟨more, c'', r'', hmore, hcalls', hd'', hall⟩ := ih hd' hd'.ordered.taken_prefix.length_le
      (by show f.sent.length - r'.taken.length = n; omega)
    exact ⟨labels ++ more, c'', r'', hrun.append hmore,
      List.forall_mem_append.mpr ⟨hcalls, hcalls'⟩, hd'', hall⟩

/-- When everything has arrived that was accepted, draining can begin. -/
theorem drains_of_arrived (hc : Kept c) (hf : Views c s f) (hsized : f.Sized)
    (hordered : f.Ordered) :
    ∃ c' r', OrderlyStep c (s.peer, .arrive f.transit.length) c' ∧
      Drains c' s { f with receiver := r', transit := [] } := by
  have hstep : Connection.Step c (s.peer, .arrive f.transit.length) _ := .arrive _
  have hordered' := hordered.step hsized (.arrive f.transit.length) trivial
  have hviews := hf.arrive f.transit.length
  rw [List.drop_length] at hordered' hviews
  exact ⟨_, _, ⟨hstep, trivial⟩, kept_step hc hstep, hviews, hsized, hordered', rfl⟩

/-- **Draining.** Every orderly run can be continued, by arrivals from the peer and receives alone,
to one in which a side has obtained all the packets that its peer has sent. -/
theorem exists_drained {c' : Connection} {labels : List (Side × Action)} (hc : c.Fresh)
    (h : Reaches OrderlyStep c labels c') (s : Side) :
    ∃ more c'', Reaches OrderlyStep c' more c'' ∧ (∀ label ∈ more, Pulls s label) ∧
      (c''.sent s.peer).map (·.data) = (c'.sent s.peer).map (·.data) ∧
      (c''.obtained s).map (·.data) = (c'.sent s.peer).map (·.data) := by
  obtain ⟨events, f, hrun, -, hf⟩ := flow_of_orderly hc h s
  obtain ⟨hsized, hordered⟩ := Flow.ordered_of_reaches hrun
  have hkept := kept_of_reaches hc (h.mono fun _ _ _ h => h.1)
  obtain ⟨c₁, r₁, harrive, hd⟩ := drains_of_arrived hkept hf hsized hordered
  obtain ⟨more, c₂, r₂, hmore, hcalls, hd', hall⟩ := hd.drain
  refine ⟨_, c₂, .cons harrive hmore, ?_, ?_⟩
  · exact List.forall_mem_cons.mpr ⟨.inr ⟨_, rfl⟩, fun label hlabel => .inl (hcalls label hlabel)⟩
  -- as many as were sent, and the first ones of them, are all of them
  have htaken := hd'.ordered.taken_prefix.eq_of_length hall
  rw [map_data_of_payload (consistent_obtained hd'.kept.1 s),
    map_data_of_payload (consistent_sent hd'.kept.1 s.peer),
    map_data_of_payload (consistent_sent hkept.1 s.peer), ← hd'.views.tracks.taken,
    ← hd'.views.sent, ← hf.sent]
  exact ⟨rfl, congrArg _ htaken⟩

/-- The client's packet is still on its way. -/
theorem exists_drained_single :
    let c := opened.after .client (.send single [.count 3])
    ∃ more c', Reaches OrderlyStep c more c' ∧ (∀ label ∈ more, Pulls .server label) ∧
      (c'.sent .client).map (·.data) = [[1, 0, 7]] ∧
      (c'.obtained .server).map (·.data) = [[1, 0, 7]] :=
  exists_drained fresh_opened (.cons ⟨.send _ used_single, rfl⟩ (.nil _)) .server

end Draining

end Sws.Socket
