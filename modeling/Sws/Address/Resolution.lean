import Mathlib.Data.List.ReduceOption
import Sws.Address.RoundTrip
import Sws.Foundation.Transition
import Sws.Model.Resolve

/-!
# Resolved Addresses

A lookup asks `getaddrinfo` for a list, converts its addresses one after the other, and gives the
list back; it can end in an exception before, in between and after.

## Key Results

- `lists_freed`: in every run of lookups each list is given back exactly once.
- `getAddresses_resolves`: when a lookup returns, and what.
- `getName_of_fromNative`: the name of a native address.
-/

namespace Sws.Address

open Sws.Foundation Resolver

/-! ## One lookup -/

/-- What `getaddrinfo` is asked for. -/
def hintsOf : AddressFamily → Hints
  | .inet => ⟨true, .inet⟩
  | .inet6 => ⟨true, .inet6⟩
  | _ => ⟨true, .unspec⟩

/-- The resolver after a lookup that has been answered; `result` is what was given back. -/
def answered (r : Resolver) (query : Query) (rest : List Resolution) (allocated : ℕ)
    (result : Option ℕ) : Resolver :=
  { r with
    answers := rest
    queries := r.queries ++ [query]
    allocated
    freed := r.freed ++ [result] }

section Lookup

variable {inet : InetText} {r r' : Resolver} {host service : Option String}
  {family : AddressFamily} {rest : List Resolution} {addresses : List Address}

/-- The loop ends with all addresses, or at the first one that has no text; the list is then given
back. -/
theorem convertAll_run (result : Option ℕ) (list : List Sockaddr) (addresses : List Address)
    (r : Resolver) :
    (convertAll inet result list addresses).run r =
      match list.mapM (fromNative inet) with
      | .ok as => .ok (addresses ++ as) r
      | .error e => .error (.thrown e) { r with freed := r.freed ++ [result] } := by
  -- the loop carries what it has converted so far
  induction list generalizing addresses with
  | nil =>
    rw [List.mapM_nil]
    show _ = EStateM.Result.ok (addresses ++ []) r
    rw [List.append_nil]
    rfl
  | cons x xs ih =>
    rw [List.mapM_cons, convertAll]
    cases fromNative inet x with
    | error e => rfl
    | ok a =>
      simp only
      rw [ih]
      show _ = match (do let as ← xs.mapM (fromNative inet); pure (a :: as)) with
        | .ok as => _
        | .error e => _
      cases xs.mapM (fromNative inet) with
      | error e => rfl
      | ok as =>
        show EStateM.Result.ok (addresses ++ [a] ++ as) r = .ok (addresses ++ a :: as) r
        rw [List.append_assoc, List.singleton_append]

/-- With a family, `getaddrinfo` is asked. -/
theorem getAddresses_run (hfamily : family ≠ .none) :
    (getAddresses inet host service family).run r =
      (do
        let (error, result, list) ← getaddrinfo ⟨host, service, hintsOf family⟩
        if error ≠ .none then
          freeaddrinfo result
          throw (.thrown (addressResolveException host 0 error))
        let addresses ← convertAll inet result list []
        freeaddrinfo result
        return addresses : ResolverM (List Address)).run r := by
  cases family with
  | none => exact absurd rfl hfamily
  | inet => rfl
  | inet6 => rfl
  | any => rfl

theorem getaddrinfo_found {query : Query} {x : Sockaddr} {xs : List Sockaddr}
    (hanswers : r.answers = .found x xs :: rest) :
    (getaddrinfo query).run r =
      .ok (.none, some r.allocated, x :: xs)
        { r with
          answers := rest
          queries := r.queries ++ [query]
          allocated := r.allocated + 1 } := by
  simp only [getaddrinfo, EStateM.run_bind, EStateM.run_modify, EStateM.run_get, hanswers]
  rfl

theorem getaddrinfo_failed {query : Query} {e : SocketError} (he : e ≠ .none)
    (hanswers : r.answers = .failed e :: rest) :
    (getaddrinfo query).run r =
      .ok (e, none, []) { r with answers := rest, queries := r.queries ++ [query] } := by
  simp only [getaddrinfo, EStateM.run_bind, EStateM.run_modify, EStateM.run_get, hanswers,
    if_neg he]
  rfl

/-- The list is given back, whether the lookup returns or throws. -/
theorem getAddresses_found (hfamily : family ≠ .none) {x : Sockaddr} {xs : List Sockaddr}
    (hanswers : r.answers = .found x xs :: rest) :
    (getAddresses inet host service family).run r =
      match (x :: xs).mapM (fromNative inet) with
      | .ok as => .ok as (answered r ⟨host, service, hintsOf family⟩ rest (r.allocated + 1)
          (some r.allocated))
      | .error e => .error (.thrown e) (answered r ⟨host, service, hintsOf family⟩ rest
          (r.allocated + 1) (some r.allocated)) := by
  rw [getAddresses_run hfamily]
  simp only [EStateM.run_bind, getaddrinfo_found hanswers, ne_eq, not_true_eq_false, if_false,
    convertAll_run]
  cases (x :: xs).mapM (fromNative inet) with
  | ok as => rfl
  | error e => rfl

theorem getAddresses_failed (hfamily : family ≠ .none) {e : SocketError} (he : e ≠ .none)
    (hanswers : r.answers = .failed e :: rest) :
    (getAddresses inet host service family).run r =
      .error (.thrown (addressResolveException host 0 e))
        (answered r ⟨host, service, hintsOf family⟩ rest r.allocated none) := by
  rw [getAddresses_run hfamily]
  simp only [EStateM.run_bind, getaddrinfo_failed he hanswers, if_pos he]
  rfl

/-- Without an answer the lookup does not end. -/
theorem getAddresses_pending (hfamily : family ≠ .none)
    (hanswers : ∀ rest, (∀ x xs, r.answers ≠ .found x xs :: rest) ∧
      ∀ e, e ≠ .none → r.answers ≠ .failed e :: rest) :
    ∃ r', (getAddresses inet host service family).run r = .error .pending r' := by
  rw [getAddresses_run hfamily]
  simp only [getaddrinfo, EStateM.run_bind, EStateM.run_modify, EStateM.run_get]
  match hr : r.answers with
  | [] => exact ⟨_, rfl⟩
  | .found x xs :: rest => exact absurd hr ((hanswers rest).1 x xs)
  | .failed e :: rest =>
    rcases eq_or_ne e .none with rfl | he
    · exact ⟨_, rfl⟩
    · exact absurd hr ((hanswers rest).2 e he)

/-- The ways in which a lookup ends. -/
inductive LookupEnds (inet : InetText) (host service : Option String) (family : AddressFamily)
    (r : Resolver) : EStateM.Result Fault Resolver (List Address) → Prop
  | invalid (hfamily : family = .none) : LookupEnds inet host service family r
      (.error (.thrown (.runtimeError "invalid address family")) r)
  | returns {x : Sockaddr} {xs : List Sockaddr} {rest : List Resolution} {as : List Address}
      (hfamily : family ≠ .none) (hanswers : r.answers = .found x xs :: rest)
      (has : (x :: xs).mapM (fromNative inet) = .ok as) :
      LookupEnds inet host service family r
        (.ok as (answered r ⟨host, service, hintsOf family⟩ rest (r.allocated + 1)
          (some r.allocated)))
  | unconverted {x : Sockaddr} {xs : List Sockaddr} {rest : List Resolution} {e : Exception}
      (hfamily : family ≠ .none) (hanswers : r.answers = .found x xs :: rest)
      (he : (x :: xs).mapM (fromNative inet) = .error e) :
      LookupEnds inet host service family r
        (.error (.thrown e) (answered r ⟨host, service, hintsOf family⟩ rest (r.allocated + 1)
          (some r.allocated)))
  | failed {e : SocketError} {rest : List Resolution} (hfamily : family ≠ .none) (he : e ≠ .none)
      (hanswers : r.answers = .failed e :: rest) :
      LookupEnds inet host service family r
        (.error (.thrown (addressResolveException host 0 e))
          (answered r ⟨host, service, hintsOf family⟩ rest r.allocated none))
  | pending {r' : Resolver}
      (hanswers : ∀ rest, (∀ x xs, r.answers ≠ .found x xs :: rest) ∧
        ∀ e, e ≠ .none → r.answers ≠ .failed e :: rest) :
      LookupEnds inet host service family r (.error .pending r')

/-- Every lookup ends in one of them. -/
theorem getAddresses_ends (inet : InetText) (host service : Option String)
    (family : AddressFamily) (r : Resolver) :
    LookupEnds inet host service family r ((getAddresses inet host service family).run r) := by
  rcases eq_or_ne family .none with rfl | hfamily
  · exact .invalid rfl
  -- first whether there is an answer at all, then which one
  by_cases hanswers : ∀ rest, (∀ x xs, r.answers ≠ .found x xs :: rest) ∧
      ∀ e, e ≠ .none → r.answers ≠ .failed e :: rest
  · obtain ⟨r', hrun⟩ : ∃ r', (getAddresses inet host service family).run r = .error .pending r' :=
      getAddresses_pending hfamily hanswers
    rw [hrun]
    exact .pending hanswers
  · push Not at hanswers
    obtain ⟨rest, hanswers⟩ := hanswers
    by_cases hfound : ∃ x xs, r.answers = .found x xs :: rest
    · obtain ⟨x, xs, hfound⟩ := hfound
      rw [getAddresses_found hfamily hfound]
      cases has : (x :: xs).mapM (fromNative inet) with
      | ok as => exact .returns hfamily hfound has
      | error e => exact .unconverted hfamily hfound has
    · push Not at hfound
      obtain ⟨e, he, hfailed⟩ := hanswers hfound
      rw [getAddresses_failed hfamily he hfailed]
      exact .failed hfamily he hfailed

end Lookup

/-! ## Names -/

section Names

variable {inet : InetText} {r : Resolver} {a : Address} {x : Sockaddr}

/-- The size of a native address is that of its family. -/
theorem nativeSize_of_toNative (h : a.toNative inet = .ok x) :
    a.nativeSize = .ok (nativeSizeOf x.family) := by
  obtain ⟨text, port, family⟩ := a
  cases family with
  | none => cases h
  | any => cases h
  | inet =>
    simp only [toNative] at h
    split at h
    · cases h
    · cases h
    · cases h
      rfl
  | inet6 =>
    simp only [toNative] at h
    split at h
    · cases h
    · cases h
    · cases h
      rfl

/-- What `getnameinfo` is asked is the native address, with its size. -/
theorem getName_run (h : a.toNative inet = .ok x) :
    (a.getName inet).run r =
      match (getnameinfo x (nativeSizeOf x.family)).run r with
      | .ok (.error e) r' => .error (.thrown (.socketException "getnameinfo failed" e)) r'
      | .ok (.ok node) r' =>
        .ok ⟨String.ofList ((node.take maxHost).takeWhile (· ≠ '\x00')), a.port, a.family⟩ r'
      | .error e r' => .error e r' := by
  simp only [getName, h, nativeSize_of_toNative h, liftExcept, pure_bind, EStateM.run_bind]
  generalize (getnameinfo x (nativeSizeOf x.family)).run r = result
  cases result with
  | error e r' => rfl
  | ok reply r' =>
    cases reply with
    | error e => rfl
    | ok node => rfl

/-- Names have nothing to do with lists. -/
theorem getName_frees (P : ℕ → List (Option ℕ) → Prop) :
    Ensures (fun r => P r.allocated r.freed) (a.getName inet) (fun _ r => P r.allocated r.freed)
      (fun _ r => P r.allocated r.freed) := by
  have hlift : ∀ {β : Type} (y : Except Exception β),
      Ensures (fun r : Resolver => P r.allocated r.freed) (liftExcept y)
        (fun _ r => P r.allocated r.freed) (fun _ r => P r.allocated r.freed) := by
    intro β y
    cases y with
    | ok b => exact Ensures.pure fun _ h => h
    | error e => exact Ensures.throw fun _ h => h
  -- an answer is taken, and no list is touched
  have hname : ∀ native size, Ensures (fun r => P r.allocated r.freed) (getnameinfo native size)
      (fun _ r => P r.allocated r.freed) (fun _ r => P r.allocated r.freed) := by
    intro native size
    refine Ensures.bind (Q := fun _ r => P r.allocated r.freed) (Ensures.modify fun _ h => h)
      fun _ => Ensures.get_bind fun r hr => ?_
    match r.names with
    | [] => exact Ensures.throw fun _ h => h ▸ hr
    | .failed e :: _ =>
      exact Ensures.bind (Q := fun _ r => P r.allocated r.freed)
        (Ensures.modify fun _ h => h ▸ hr) fun _ => Ensures.pure fun _ h => h
    | .node text :: _ =>
      exact Ensures.bind (Q := fun _ r => P r.allocated r.freed)
        (Ensures.modify fun _ h => h ▸ hr) fun _ => Ensures.pure fun _ h => h
  refine Ensures.bind (hlift _) fun native => Ensures.bind (hlift _) fun size => ?_
  refine Ensures.bind (hname native size) fun reply => ?_
  cases reply with
  | error e => exact Ensures.throw fun _ h => h
  | ok node => exact Ensures.pure fun _ h => h

end Names

/-! ## Runs -/

/-- The calls that use the resolver. -/
inductive Call
  | getAddresses (host service : Option String) (family : AddressFamily)
  | getAddressesAt (host : Option String) (port : UInt16) (family : AddressFamily)
  | getName (self : Address)

def Call.apply (inet : InetText) : Call → ResolverM Unit
  | .getAddresses host service family => do
    let _ ← Address.getAddresses inet host service family
  | .getAddressesAt host port family => do
    let _ ← Address.getAddressesAt inet host port family
  | .getName self => do let _ ← self.getName inet

/-- One call, whose exceptions are caught. -/
def Step (inet : InetText) (r : Resolver) (call : Call) (r' : Resolver) : Prop :=
  Leaves Caught (call.apply inet) r r'

/-- The lists that were given back are those that were allocated, each of them once. -/
def Returned (r : Resolver) : Prop := r.freed.reduceOption = List.range r.allocated

section Runs

variable {inet : InetText} {r r' : Resolver} {host service : Option String}
  {family : AddressFamily} {calls : List Call}

theorem returned_answered {query : Query} {rest : List Resolution} (h : Returned r) :
    Returned (answered r query rest (r.allocated + 1) (some r.allocated)) := by
  show (r.freed ++ [some r.allocated]).reduceOption = List.range (r.allocated + 1)
  rw [List.reduceOption_append, h, List.range_succ]
  rfl

/-- A null pointer is no list. -/
theorem returned_answered_none {query : Query} {rest : List Resolution} (h : Returned r) :
    Returned (answered r query rest r.allocated none) := by
  show (r.freed ++ [none]).reduceOption = List.range r.allocated
  rw [List.reduceOption_append, h]
  exact List.append_nil _

theorem getAddresses_returned :
    Ensures Returned (getAddresses inet host service family) (fun _ => Returned)
      (fun e r => Caught e → Returned r) := by
  refine Ensures.of_eq fun r hr => ?_
  have hends := getAddresses_ends inet host service family r
  generalize hrun : (getAddresses inet host service family).run r = result at hends
  cases hends with
  | invalid => exact Ensures.of_error hrun fun _ => hr
  | returns => exact Ensures.of_ok hrun (returned_answered hr)
  | unconverted => exact Ensures.of_error hrun fun _ => returned_answered hr
  | failed => exact Ensures.of_error hrun fun _ => returned_answered_none hr
  | pending => exact Ensures.of_error hrun fun hcaught => hcaught.elim

/-- **One call** gives back what it was given. -/
theorem returned_step {call : Call} (h : Returned r) (hstep : Step inet r call r') :
    Returned r' := by
  cases call with
  | getAddresses host service family =>
    exact ensures_iff_leaves.mp getAddresses_returned r r' h (leaves_discard.mp hstep)
  | getAddressesAt host port family =>
    exact ensures_iff_leaves.mp getAddresses_returned r r' h (leaves_discard.mp hstep)
  | getName self =>
    have hname : Ensures Returned (self.getName inet) (fun _ => Returned)
        (fun e r => Caught e → Returned r) :=
      (getName_frees fun allocated freed => freed.reduceOption = List.range allocated).weaken
        (fun _ h => h) (fun _ _ h => h) (fun _ _ h _ => h)
    exact ensures_iff_leaves.mp hname r r' h (leaves_discard.mp hstep)

/-- **Lists.** In every run of lookups, exceptions caught, every list that the resolver has
allocated is given back once, and nothing else is but null pointers. -/
theorem lists_freed (hallocated : r.allocated = 0) (hfreed : r.freed = [])
    (hrun : Reaches (Step inet) r calls r') :
    ∀ list, r'.freed.count (some list) = if list < r'.allocated then 1 else 0 := by
  have hstart : Returned r := by
    rw [Returned, hallocated, hfreed]
    rfl
  have hreturned : Returned r' :=
    hrun.invariant (fun _ _ _ h hstep => returned_step h hstep) hstart
  intro list
  have hcount : r'.freed.count (some list) = r'.freed.reduceOption.count list := by
    rw [List.reduceOption, List.count_filterMap]
    rw [List.count, List.countP_congr]
    simp
  rw [hcount, hreturned, List.count_range]

end Runs

/-! ## What is resolved -/

section Resolved

variable {inet : InetText} {r r' : Resolver} {host service : Option String}
  {family : AddressFamily} {x : Sockaddr} {list : List Sockaddr} {as : List Address}

/-- A conversion that fails has no result. -/
theorem not_exists_ok {α : Type} (e : Exception) :
    ¬∃ a, (.error e : Except Exception α) = .ok a := by
  rintro ⟨a, h⟩
  cases h

/-- The native addresses that can be converted are the IP addresses. -/
theorem fromNative_ok_iff (hinet : inet.PrintsStandard) :
    (∃ a, fromNative inet x = .ok a) ↔ x.IsIp := by
  cases x with
  | inet port addr =>
    rw [Sockaddr.IsIp, fromNative, hinet.ntop_inet]
    split_ifs with hlen
    · exact iff_of_true ⟨_, rfl⟩ hlen
    · exact iff_of_false (by simp) hlen
  | inet6 port flowInfo addr scopeId =>
    rw [Sockaddr.IsIp, fromNative, hinet.ntop_inet6]
    split_ifs with hlen
    · exact iff_of_true ⟨_, rfl⟩ hlen
    · exact iff_of_false (by simp) hlen
  | unsupported family => exact iff_of_false (not_exists_ok _) id

/-- A list is converted as a whole, or not at all. -/
theorem mapM_fromNative_ok_iff (hinet : inet.PrintsStandard) :
    (∃ as, list.mapM (fromNative inet) = .ok as) ↔ ∀ y ∈ list, y.IsIp := by
  induction list with
  | nil => exact iff_of_true ⟨[], rfl⟩ fun y hy => by cases hy
  | cons x xs ih =>
    rw [List.forall_mem_cons, ← ih, ← fromNative_ok_iff hinet, List.mapM_cons]
    cases fromNative inet x with
    | error e => exact iff_of_false (not_exists_ok _) fun h => not_exists_ok _ h.1
    | ok a =>
      cases xs.mapM (fromNative inet) with
      | error e => exact iff_of_false (not_exists_ok _) fun h => not_exists_ok _ h.2
      | ok as => exact iff_of_true ⟨_, rfl⟩ ⟨⟨_, rfl⟩, ⟨_, rfl⟩⟩

/-- Converted back, the addresses are those of the list, without what only IPv6 has. -/
theorem mapM_toNative (hprints : inet.PrintsStandard) (hinet : inet.Inverts)
    (has : list.mapM (fromNative inet) = .ok as) :
    as.mapM (toNative inet) = .ok (list.map Sockaddr.unscoped) := by
  induction list generalizing as with
  | nil =>
    cases has
    rfl
  | cons x xs ih =>
    have hip := (mapM_fromNative_ok_iff hprints).mp ⟨as, has⟩ x List.mem_cons_self
    obtain ⟨a, hfrom, hto⟩ := toNative_fromNative hinet hip
    rw [List.mapM_cons, hfrom] at has
    cases hrest : xs.mapM (fromNative inet) with
    | error e =>
      rw [hrest] at has
      cases has
    | ok bs =>
      rw [hrest] at has
      cases has
      rw [List.mapM_cons, hto, ih hrest]
      rfl

/-- **Resolution.** A lookup returns exactly if it asks for a family, and is answered with IP
addresses only; what it returns are their addresses, in the order of the answer, and each of them is
converted back to the native address it is made of. -/
theorem getAddresses_resolves (hprints : inet.PrintsStandard) (hinet : inet.Inverts)
    (host service : Option String) (family : AddressFamily) (r : Resolver) :
    ((∃ as r', (getAddresses inet host service family).run r = .ok as r') ↔
      family ≠ .none ∧ ∃ x xs rest, r.answers = .found x xs :: rest ∧ ∀ y ∈ x :: xs, y.IsIp) ∧
    ∀ as r', (getAddresses inet host service family).run r = .ok as r' →
      ∃ x xs rest, r.answers = .found x xs :: rest ∧
        as.mapM (toNative inet) = .ok ((x :: xs).map Sockaddr.unscoped) := by
  have hends := getAddresses_ends inet host service family r
  generalize (getAddresses inet host service family).run r = result at hends
  -- all endings but one throw
  have hnever : ∀ {e : Fault} {s : Resolver},
      ¬∃ as r', (.error e s : EStateM.Result Fault Resolver (List Address)) = .ok as r' := by
    rintro e s ⟨as, r', h⟩
    cases h
  cases hends with
  | invalid hfamily =>
    exact ⟨iff_of_false hnever fun h => h.1 hfamily, fun _ _ h => by cases h⟩
  | returns hfamily hanswers has =>
    refine ⟨iff_of_true ⟨_, _, rfl⟩ ⟨hfamily, _, _, _, hanswers, ?_⟩, fun as r' h => ?_⟩
    · exact (mapM_fromNative_ok_iff hprints).mp ⟨_, has⟩
    · cases h
      exact ⟨_, _, _, hanswers, mapM_toNative hprints hinet has⟩
  | unconverted hfamily hanswers he =>
    refine ⟨iff_of_false hnever ?_, fun _ _ h => by cases h⟩
    rintro ⟨-, x, xs, rest, hother, hip⟩
    cases hanswers.symm.trans hother
    obtain ⟨as, has⟩ := (mapM_fromNative_ok_iff hprints).mpr hip
    cases he.symm.trans has
  | failed hfamily he hanswers =>
    refine ⟨iff_of_false hnever ?_, fun _ _ h => by cases h⟩
    rintro ⟨-, x, xs, rest, hother, -⟩
    cases hanswers.symm.trans hother
  | pending hanswers =>
    refine ⟨iff_of_false hnever ?_, fun _ _ h => by cases h⟩
    rintro ⟨-, x, xs, rest, hother, -⟩
    exact (hanswers rest).1 x xs hother

end Resolved

/-! ## What is named -/

section Named

variable {inet : InetText} {r r' : Resolver} {a b : Address}

/-- The texts that are read as addresses of a family. -/
def Reads (family : AddressFamily) (text : List Char) : Prop :=
  match family with
  | .inet => IsIpv4 text
  | .inet6 => IsIpv6 text
  | _ => False

/-- An address without a NUL can be converted if its text is read as an address. -/
theorem toNative_ok_iff (hinet : inet.ReadsStandard) (hnul : '\x00' ∉ a.address.toList) :
    (∃ y, a.toNative inet = .ok y) ↔ Reads a.family a.address.toList := by
  obtain ⟨text, port, family⟩ := a
  cases family with
  | none => exact iff_of_false (not_exists_ok _) id
  | any => exact iff_of_false (not_exists_ok _) id
  | inet =>
    show _ ↔ IsIpv4 text.toList
    rw [← readOctets_isSome_iff, toNative, hinet.pton_inet, cString_eq_toList hnul, readIpv4]
    cases readOctets text.toList with
    | none => exact iff_of_false (not_exists_ok _) Bool.false_ne_true
    | some ns => exact iff_of_true ⟨_, rfl⟩ rfl
  | inet6 =>
    show _ ↔ IsIpv6 text.toList
    rw [← readWords_isSome_iff, toNative, hinet.pton_inet6, cString_eq_toList hnul, readIpv6]
    cases readWords text.toList with
    | none => exact iff_of_false (not_exists_ok _) Bool.false_ne_true
    | some ws => exact iff_of_true ⟨_, rfl⟩ rfl

/-- **Names.** What `get_name` returns has the port and the family of the address it was called on,
and can be bound or connected to only if the name is an address itself; any other name has to be
looked up first. -/
theorem getName_connects_iff (hinet : inet.ReadsStandard)
    (hrun : (a.getName inet).run r = .ok b r') :
    (∃ x, a.toNative inet = .ok x) ∧ b.port = a.port ∧ b.family = a.family ∧
      ((∃ y, b.toNative inet = .ok y) ↔ Reads b.family b.address.toList) := by
  cases hnative : a.toNative inet with
  | error e =>
    have hthrows : (a.getName inet).run r = .error (.thrown e) r := by
      simp only [getName, hnative]
      rfl
    rw [hthrows] at hrun
    cases hrun
  | ok x =>
    rw [getName_run hnative] at hrun
    split at hrun
    · cases hrun
    · rename_i node r''
      cases hrun
      refine ⟨⟨x, rfl⟩, rfl, rfl, toNative_ok_iff hinet ?_⟩
      -- the node is seen up to its first NUL
      rw [String.toList_ofList]
      intro hmem
      exact absurd (List.mem_takeWhile_imp hmem) (by decide)
    · cases hrun

end Named

/-! ## A resolver -/

/-- Three lookups are answered: with two addresses, with one that is no IP address, and not. -/
def resolver : Resolver where
  answers :=
    [.found (.inet 20480 [127, 0, 0, 1]) [.inet 36895 [127, 0, 0, 1]], .found (.unsupported 1) [],
      .failed (.other 11001)]
  names := [.node "localhost".toList]

theorem lists_freed_resolver :
    ∃ r : Resolver, r.allocated = 2 ∧ r.freed = [some 0, some 1, none] ∧
      r.freed.count (some 1) = 1 := by
  have hlookups : Reaches (Step .loopback) resolver _ _ :=
    .snoc (.snoc (.snoc (.nil resolver)
      (show Step .loopback _ (.getAddresses (some "localhost") none .any) _ from rfl))
      (show Step .loopback _ (.getAddressesAt (some "localhost") 80 .inet) _ from ⟨trivial, rfl⟩))
      (show Step .loopback _ (.getAddresses none none .inet6) _ from ⟨trivial, rfl⟩)
  exact ⟨_, rfl, rfl, lists_freed rfl rfl hlookups 1⟩

theorem getAddresses_resolves_resolver :
    ∃ as r', (getAddresses .standard (some "localhost") none .any).run resolver = .ok as r' :=
  (getAddresses_resolves InetText.standard_prints InetText.standard_inverts (some "localhost") none
    .any resolver).1.mpr
    ⟨by decide, _, _, _, rfl, by simp [Sockaddr.IsIp]⟩

/-- The name of the loopback address has to be looked up. -/
theorem getName_connects_iff_localhost :
    ¬∃ y, (⟨"localhost", 80, .inet⟩ : Address).toNative .standard = .ok y := by
  have hrun : (getName .standard ⟨"127.0.0.1", 80, .inet⟩).run resolver =
      .ok ⟨"localhost", 80, .inet⟩ _ := rfl
  have hconnects := (getName_connects_iff InetText.standard_reads hrun).2.2.2
  rw [hconnects]
  show ¬IsIpv4 "localhost".toList
  rw [← readOctets_isSome_iff]
  decide

end Sws.Address
