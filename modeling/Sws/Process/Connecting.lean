import Sws.Process.Carrying
import Sws.Process.Ending
import Sws.Process.Handles

/-!
# What a Finished Connect Means

A connection is a flag of an object that no operation takes away but those which close the object
or move it; a move takes the flag along.  A `connect` that reports `done` sets the flag and asks
for the addresses, unless it has been told by an error that the socket is connected already, and
the addresses are new unless a call that asks for one fails.

## Key Results

- `connected_step`, `connected_run`: a connection lasts.
- `doneMeansConnected_iff`: the calls for which `done` means connected.
- `connects_tell_iff`: the runs in which it does.
-/

namespace Sws.Process

open Sws.Foundation

/-! ## Connections last -/

/-- The object is alive and connected. -/
def IsConnected (i : SocketId) (w : Process) : Prop :=
  ∃ s, w.sockets i = some s ∧ s.connected = true

section Connections

variable {inet : InetText} {w w' : Process} {i j : SocketId} {op : Operation}

/-- To bind or connect an object takes no connection away from it. -/
theorem attempts_connected (inet : InetText) (i : SocketId) :
    AllowsAttempts inet (Both (IsConnected i)) i :=
  { allowsNew_both fun _ _ hsame ⟨s, hs, hconnected⟩ =>
      ⟨s, (congrFun hsame i).trans hs, hconnected⟩ with
    error := fun _ => allows_has fun _ h => h
    mode := fun _ => allows_has fun _ h => h
    localName := fun _ _ _ => allows_has fun _ h => h
    remoteName := fun _ _ _ => allows_has fun _ h => h
    handle := fun _ => allows_has fun _ h => h
    connected := allows_has fun _ _ => rfl }

/-- **One operation** leaves an object connected, or the object that its connection goes to. -/
theorem connected_step (h : IsConnected i w) (hstep : Step inet w op w')
    (hcarries : op.carries i = some j) : IsConnected j w' :=
  step_has h hstep hcarries fun _ => attempts_connected inet i

/-- **A run** leaves the object connected that its connection goes to, if it is not closed. -/
theorem connected_run {ops : List Operation} (h : IsConnected i w)
    (hrun : Reaches (Step inet) w ops w') (hcarries : carriesAll ops i = some j) :
    IsConnected j w' := by
  have hall : ∀ j, carriesAll ops i = some j → IsConnected j w' := by
    refine hrun.trace (P := fun ops v => ∀ j, carriesAll ops i = some j → IsConnected j v) ?_ ?_
    · intro j hj
      cases hj
      exact h
    · intro before v op v' hv hstep j hj
      rw [carriesAll_snoc] at hj
      obtain ⟨k, hk, hop⟩ := Option.bind_eq_some_iff.mp hj
      exact connected_step (hv k hk) hstep hop
  exact hall j hcarries

/-- `connect` refuses to connect the object again. -/
def Refuses (inet : InetText) (i : SocketId) (w : Process) : Prop :=
  ∀ address, (connect inet i address).run w =
    .error (.thrown (.logicError "Cannot connect on already connected socket.")) w

theorem refuses_of_connected (h : IsConnected i w) : Refuses inet i w := by
  intro address
  obtain ⟨s, hs, hconnected⟩ := h
  have hlinked : ¬s.connected = false := by simp [hconnected]
  simp only [connect, EStateM.run_bind, socketAt_run hs, enforce_of_neg hlinked]
  rfl

end Connections

/-! ## Done means connected -/

/-- The addresses of the object are those that the last two native results of the call give. -/
def Refreshed (inet : InetText) (w w' : Process) (s : Socket) : Prop :=
  ∃ used a b, w.replies = used ++ .address a :: .address b :: w'.replies ∧
    Address.fromNative inet a = .ok s.localAddress ∧
    Address.fromNative inet b = .ok s.remoteAddress

/-- What a `connect` that is done leaves, and for how long. -/
structure Connects (inet : InetText) (i : SocketId) (w w' : Process) : Prop where
  object : ∃ s, w'.sockets i = some s ∧ s.connected = true ∧ s.nativeError = .none ∧
    Refreshed inet w w' s
  /-- Until the object is closed it is not connected again, wherever it is moved. -/
  lasts : ∀ ops w'' j, Reaches (Step inet) w' ops w'' → carriesAll ops i = some j →
    Refuses inet j w''

/-- Whenever the call reports `done`, the object is connected. -/
def DoneMeansConnected (inet : InetText) (self : SocketId) (address : Address) (w : Process) :
    Prop :=
  ∀ w', (connect inet self address).run w = .ok .done w' → Connects inet self w w'

/-- The native `connect` fails because the socket is connected, or it succeeds and one of the calls
that ask for an address fails. -/
def Misleads (inet : InetText) (self : SocketId) (address : Address) (w : Process) : Prop :=
  ∃ s, w.sockets self = some s ∧
    (ending inet w s (!s.connected) address = .failed .isConnected ∨
      ending inet w s (!s.connected) address = .stale)

section Done

variable {inet : InetText} {w w' : Process} {self : SocketId} {s : Socket} {address : Address}
  {replies : List NativeReply}

/-- The native results that are left when the object has its handle. -/
theorem opening_ready (h : opening w s = .ready replies) : ∃ used, w.replies = used ++ replies := by
  unfold opening at h
  split_ifs at h with hopen
  · cases h
    exact ⟨[], rfl⟩
  · split at h
    · rename_i k rest hreplies
      split_ifs at h
      split at h
      · rename_i rest'
        cases h
        exact ⟨[.handle k, .success], hreplies⟩
      · rename_i e rest'
        split_ifs at h
        cases h
        exact ⟨[.handle k, .failure e], hreplies⟩
      · cases h
    · split_ifs at h
    · cases h

theorem naming_failed (h : naming inet replies = .failed) :
    ∃ e rest, replies = .failure e :: rest := by
  rcases naming_cases inet replies with ⟨native, rest, rfl⟩ | ⟨e, rest, hreplies, -⟩ | hpending
  · simp only [naming] at h
    split at h <;> cases h
  · exact ⟨e, rest, hreplies⟩
  · rw [hpending] at h
    cases h

theorem names_refreshed {a b : Address} (h : names inet replies = .refreshed a b) :
    naming inet replies = .given a ∧ naming inet replies.tail = .given b := by
  unfold names at h
  generalize naming inet replies = first at h ⊢
  generalize naming inet replies.tail = second at h ⊢
  cases first <;> cases second <;> simp_all

theorem names_stale (h : names inet replies = .stale) :
    (naming inet replies = .failed ∧ naming inet replies.tail ≠ .pending) ∨
      ((∃ a, naming inet replies = .given a) ∧ naming inet replies.tail = .failed) := by
  unfold names at h
  generalize naming inet replies = first at h ⊢
  generalize naming inet replies.tail = second at h ⊢
  cases first <;> cases second <;> simp_all

/-- Only a native call that has succeeded is followed by those that ask for an address. -/
theorem completing_success {n : Ending} (h : completing inet replies = n)
    (hfailed : ∀ e, n ≠ .failed e) (hpending : n ≠ .pending) :
    ∃ rest, replies = .success :: rest := by
  rcases settles_cases replies with hsuccess | ⟨e, rest, hreplies, he⟩ | hnot
  · exact hsuccess
  · have hfails : completing inet replies = .failed e := by simp [completing, hreplies, he]
    exact absurd (h.symm.trans hfails) (hfailed e)
  · exact absurd (h.symm.trans (completing_pending hnot)) hpending

theorem completing_refreshed {a b : Address} (h : completing inet replies = .refreshed a b) :
    ∃ native native' rest, replies = .success :: .address native :: .address native' :: rest ∧
      Address.fromNative inet native = .ok a ∧ Address.fromNative inet native' = .ok b := by
  obtain ⟨rest, rfl⟩ := completing_success h (by simp) (by simp)
  have hnames : names inet rest = .refreshed a b := by
    cases hnames : names inet rest <;> simp_all [completing]
  obtain ⟨hlocal, hremote⟩ := names_refreshed hnames
  obtain ⟨native, rest', rfl, hnative⟩ := naming_given hlocal
  obtain ⟨native', rest'', hrest, hnative'⟩ := naming_given hremote
  rw [List.tail_cons] at hrest
  exact ⟨native, native', rest'', by rw [hrest], hnative, hnative'⟩

theorem completing_stale (h : completing inet replies = .stale) :
    ∃ r r' rest, replies = .success :: r :: r' :: rest ∧
      ((∃ e, r = .failure e) ∨ ∃ e, r' = .failure e) := by
  obtain ⟨rest, rfl⟩ := completing_success h (by simp) (by simp)
  have hnames : names inet rest = .stale := by
    cases hnames : names inet rest <;> simp_all [completing]
  rcases names_stale hnames with ⟨hlocal, hremote⟩ | ⟨⟨a, hlocal⟩, hremote⟩
  · obtain ⟨e, rest', rfl⟩ := naming_failed hlocal
    cases rest' with
    | nil => exact absurd rfl hremote
    | cons r' rest'' => exact ⟨.failure e, r', rest'', rfl, .inl ⟨e, rfl⟩⟩
  · obtain ⟨native, rest', rfl, -⟩ := naming_given hlocal
    obtain ⟨e, rest'', hrest⟩ := naming_failed hremote
    rw [List.tail_cons] at hrest
    exact ⟨.address native, .failure e, rest'', by rw [hrest], .inr ⟨e, rfl⟩⟩

/-- A call whose addresses are not both new has not refreshed them. -/
theorem not_refreshed_of_stale (hready : opening w s = .ready replies)
    (hstale : completing inet replies = .stale) {t : Socket}
    (hv : w'.replies = replies.tail.tail.tail) : ¬Refreshed inet w w' t := by
  intro hrefreshed
  obtain ⟨used, a, b, hlast, -, -⟩ := hrefreshed
  obtain ⟨used', hused'⟩ := opening_ready hready
  obtain ⟨r, r', rest, rfl, hfailure⟩ := completing_stale hstale
  -- the last two results of the call are the two that it found
  have hsame : (used ++ [.address a, .address b]) ++ rest =
      (used' ++ [.success] ++ [r, r']) ++ rest := by
    simpa [hv] using hlast.symm.trans hused'
  have htwo := List.append_inj_right' (List.append_cancel_right hsame) rfl
  simp only [List.cons.injEq, and_true] at htwo
  rcases hfailure with ⟨e, rfl⟩ | ⟨e, rfl⟩
  · cases htwo.1
  · cases htwo.2

/-- A connected object with new addresses keeps its connection. -/
theorem connects_of_refreshed {t : Socket} (ht : w'.sockets self = some t)
    (hconnected : t.connected = true) (hnone : t.nativeError = .none)
    (hrefreshed : Refreshed inet w w' t) : Connects inet self w w' where
  object := ⟨t, ht, hconnected, hnone, hrefreshed⟩
  lasts _ _ _ hrun hcarries :=
    refuses_of_connected (connected_run ⟨t, ht, hconnected⟩ hrun hcarries)

/-- The errors that stand for success. -/
theorem error_of_done {e : SocketError} (h : toState e = .done) : e = .none ∨ e = .isConnected := by
  cases e with
  | none => exact .inl rfl
  | isConnected => exact .inr rfl
  | wouldBlock | alreadyInProgress | connectionAborted | connectionReset | timedOut
  | networkReset | notConnected | other => cases h

/-- A call that is misled reports `done` of an object that is not connected, or has an old
address. -/
theorem Misleads.not_done (hmisleads : Misleads inet self address w) :
    ¬DoneMeansConnected inet self address w := by
  intro hdone
  obtain ⟨s, hs, hend⟩ := hmisleads
  have hends := connect_ends inet hs address
  generalize hrun : (connect inet self address).run w = r at hends
  rcases hend with hend | hend
  · rw [hend] at hends
    cases hends with
    | @failed k e rest v he hk hv =>
      obtain ⟨t, ht, hconnected, -, -⟩ := (hdone v hrun).object
      -- the flag is as it was, and was not set
      have hfree : s.connected = false := by
        by_contra hlinked
        rw [ending_refused address (by simp [hlinked])] at hend
        cases hend
      rw [hv.object] at ht
      cases ht
      rw [withHandle, hfree] at hconnected
      cases hconnected
  · rw [hend] at hends
    cases hends with
    | stale hk hready hnames hv =>
      obtain ⟨t, -, -, -, hrefreshed⟩ := (hdone _ hrun).object
      exact not_refreshed_of_stale hready hnames hv.replies_eq hrefreshed

/-- Any other call that reports `done` has set the flag, and both addresses. -/
theorem doneMeansConnected_of_not_misleads (hclear : ¬Misleads inet self address w) :
    DoneMeansConnected inet self address w := by
  intro w' hrun
  cases hs : w.sockets self with
  | none =>
    have hfails : (connect inet self address).run w = .error (.undefined .nullPointer) w := by
      simp only [connect, socketAt, EStateM.run_bind, EStateM.run_get, hs]
      rfl
    rw [hfails] at hrun
    cases hrun
  | some s =>
    have hends := connect_ends inet hs address
    have hnot : ¬(ending inet w s (!s.connected) address = .failed .isConnected ∨
        ending inet w s (!s.connected) address = .stale) := fun hend => hclear ⟨s, hs, hend⟩
    generalize hend : ending inet w s (!s.connected) address = n at hends hnot
    generalize (connect inet self address).run w = r at hends hrun
    cases hends with
    | refused => cases hrun
    | unopened hv => cases hrun
    | unprepared hnone hv => cases hrun
    | @failed k e rest v he hk hv =>
      obtain ⟨hstate, -⟩ := EStateM.Result.ok.inj hrun
      rcases error_of_done hstate with rfl | rfl
      · exact absurd rfl he
      · exact absurd (.inl rfl) hnot
    | @refreshed k e a b replies v hk hready hnames hv =>
      cases hrun
      obtain ⟨used, hused⟩ := opening_ready hready
      obtain ⟨native, native', rest, rfl, hnative, hnative'⟩ := completing_refreshed hnames
      refine connects_of_refreshed hv.object rfl rfl ⟨used ++ [.success], native, native', ?_,
        hnative, hnative'⟩
      rw [hused, hv.replies_eq]
      simp
    | stale hk hready hnames hv => exact absurd (.inr rfl) hnot
    | unnamed hk hv => cases hrun
    | pending => cases hrun

/-- **Done and connected.** That a call reports `done` means that the object is connected exactly
if its native results do not mislead it. -/
theorem doneMeansConnected_iff (inet : InetText) (self : SocketId) (address : Address)
    (w : Process) :
    DoneMeansConnected inet self address w ↔ ¬Misleads inet self address w :=
  ⟨fun hdone hmisleads => hmisleads.not_done hdone, doneMeansConnected_of_not_misleads⟩

end Done

/-! ## Runs -/

/-- Something holds of every operation of a run, and of the process when it is made. -/
def Along (inet : InetText) (w₀ : Process) (ops : List Operation)
    (P : Process → Operation → Prop) : Prop :=
  ∀ before op after w, ops = before ++ op :: after → Reaches (Step inet) w₀ before w → P w op

/-- A `connect` that reports `done` means that the object is connected. -/
def Tells (inet : InetText) (w : Process) : Operation → Prop
  | .connect self address => DoneMeansConnected inet self address w
  | _ => True

/-- A `connect` is not misled. -/
def Clear (inet : InetText) (w : Process) : Operation → Prop
  | .connect self address => ¬Misleads inet self address w
  | _ => True

/-- **Runs that tell.** In a run of operations on any objects, every `connect` that reports `done`
means connected exactly if none of them is misled. -/
theorem connects_tell_iff (inet : InetText) (w₀ : Process) (ops : List Operation) :
    Along inet w₀ ops (Tells inet) ↔ Along inet w₀ ops (Clear inet) := by
  have hop : ∀ w op, Tells inet w op ↔ Clear inet w op := by
    intro w op
    cases op with
    | connect self address => exact doneMeansConnected_iff inet self address w
    | _ => exact Iff.rfl
  simp only [Along, hop]

/-- The native results of a non-blocking `connect`, and of another one when it has completed. -/
def completed : Process where
  replies := [.handle 1, .success, .failure .wouldBlock, .failure .isConnected]

/-- The second `connect` reports `done`, and the object is not connected. -/
theorem not_tells_completed :
    ¬Along .loopback completed
      [.construct 0 .tcp false, .connect 0 ⟨"127.0.0.1", 80, .inet⟩,
        .connect 0 ⟨"127.0.0.1", 80, .inet⟩] (Tells .loopback) := by
  intro htells
  have hreaches : Reaches (Step .loopback) completed _ _ :=
    .snoc (.snoc (.nil completed)
      (show Step .loopback _ (.construct 0 .tcp false) _ from ⟨rfl, rfl⟩))
      (show Step .loopback _ (.connect 0 ⟨"127.0.0.1", 80, .inet⟩) _ from ⟨trivial, rfl⟩)
  have hsecond := htells _ (.connect 0 ⟨"127.0.0.1", 80, .inet⟩) [] _ rfl hreaches
  obtain ⟨s, hs, hconnected, -, -⟩ := (hsecond _ rfl).object
  cases hs
  cases hconnected

end Sws.Process
