import Infod.Info.Reads

/-!
# Connecting

How `try_connect` comes to a connection: `sockunix_connect` for the local daemon, `open_tcp` for another host. The loop over the
addresses of the host does not end with the first one that can be reached. So the last address decides, and the
connections to the others stay open, in all attempts of `info_open`.
-/

namespace Infod.Info

/-! ### An attempt -/

/-- An address, with what `socket` and `connect` do for it. -/
structure Candidate where
  socket : Except Errno Nat
  connect : Option Errno

/-- The connection to an address that can be reached. -/
def Candidate.connected (c : Candidate) : Option Nat :=
  match c.socket, c.connect with
  | .ok s, none => some s
  | _, _ => none

/-- What an attempt to connect finds: the addresses of a name, or the reason why there are none, and that of the local daemon. What
`errno` is when no system call has failed is not known. -/
structure Network where
  getaddrinfo : Nat → Option (List UInt8) → List UInt8 → Except (List UInt8) (List Candidate)
  unix : Nat → Candidate
  errno : Nat → Errno
  strerror : Errno → List UInt8

/-- The name before the last colon, with at most 255 bytes, and the port behind it; or the port alone. -/
def splitHostport (hostport : List UInt8) : Option (List UInt8) × List UInt8 :=
  if chr ':' ∈ hostport then
    let port := (hostport.reverse.takeWhile (· ≠ chr ':')).reverse
    (some ((hostport.take (hostport.length - port.length - 1)).take 255), port)
  else (none, hostport)

/-- The variables of `open_tcp`, and the connections that have been opened and not closed. -/
structure Opening where
  s : Option Nat
  reason : List UInt8
  errno : Errno
  left : List Nat

/-- A turn of the loop. -/
def Opening.next (o : Opening) (c : Candidate) : Opening :=
  match c.socket with
  | .error errno => { o with s := none, reason := ascii "socket", errno }
  | .ok s =>
    match c.connect with
    | some errno => { o with s := none, reason := ascii "connect", errno }
    | none => { o with s := some s, left := o.left ++ [s] }

/-- The `n`th attempt: the connection, or `errno` and the text of the error; and the connections that are left open. -/
def openTcp (net : Network) (n : Nat) (hostport : List UInt8) : Except (Errno × List UInt8) Nat × List Nat :=
  match net.getaddrinfo n (splitHostport hostport).1 (splitHostport hostport).2 with
  | .error text => (.error (net.errno n, (hostport ++ ascii ": " ++ text).take 1023), [])
  | .ok ais =>
    let o := ais.foldl Opening.next ⟨none, ascii "?", net.errno n, []⟩
    match o.s with
    | none =>
      (.error (o.errno, (o.reason ++ ascii " " ++ hostport ++ ascii ": " ++ net.strerror o.errno).take 1023), o.left)
    | some s => (.ok s, o.left)

def sockunixConnect (c : Candidate) : Except Errno Nat × List Nat :=
  match c.socket with
  | .error errno => (.error errno, [])
  | .ok s =>
    match c.connect with
    | some errno => (.error errno, [])
    | none => (.ok s, [s])

/-- `try_connect`, for the `n`th time. -/
def connectAttempt (net : Network) (hostport : Option (List UInt8)) (n : Nat) : Except (Errno × List UInt8) Nat × List Nat :=
  match hostport with
  | some hostport => openTcp net n hostport
  | none =>
    match sockunixConnect (net.unix n) with
    | (.error errno, left) => (.error (errno, (ascii "sockunix_connect: " ++ net.strerror errno).take 1023), left)
    | (.ok s, left) => (.ok s, left)

/-- The addresses that an attempt tries. -/
def candidates (net : Network) (hostport : Option (List UInt8)) (n : Nat) : List Candidate :=
  match hostport with
  | some hostport =>
    match net.getaddrinfo n (splitHostport hostport).1 (splitHostport hostport).2 with
    | .error _ => []
    | .ok ais => ais
  | none => [net.unix n]

section Attempt

variable {net : Network} {hostport : Option (List UInt8)} {n : Nat}

theorem opening_next (o : Opening) (c : Candidate) :
    (o.next c).s = c.connected ∧ (o.next c).left = o.left ++ c.connected.toList := by
  obtain ⟨socket, connect⟩ := c
  cases socket with
  | error errno => simp [Opening.next, Candidate.connected]
  | ok s => cases connect <;> simp [Opening.next, Candidate.connected]

/-- The loop leaves every connection open that it makes, and keeps the one to the last address. -/
theorem opening_foldl (ais : List Candidate) (o : Opening) :
    (ais.foldl Opening.next o).left = o.left ++ ais.filterMap Candidate.connected ∧
      (ais.foldl Opening.next o).s = (ais.getLast?.map Candidate.connected).getD o.s := by
  induction ais using List.reverseRecOn with
  | nil => simp
  | append_singleton ais c ih =>
    obtain ⟨last, left⟩ := opening_next (ais.foldl Opening.next o) c
    rw [List.foldl_append, List.foldl_cons, List.foldl_nil, last, left, ih.1, List.getLast?_concat]
    cases connected : c.connected <;> simp [connected]

/-- An attempt is for the last address, and leaves a connection to each that can be reached. -/
theorem connectAttempt_spec (net : Network) (hostport : Option (List UInt8)) (n : Nat) :
    (connectAttempt net hostport n).2 = (candidates net hostport n).filterMap Candidate.connected ∧
      (connectAttempt net hostport n).1.toOption = (candidates net hostport n).getLast?.bind Candidate.connected := by
  cases hostport with
  | none =>
    simp only [connectAttempt, candidates]
    generalize net.unix n = c
    obtain ⟨socket, connect⟩ := c
    cases socket with
    | error errno => simp [sockunixConnect, Candidate.connected, Except.toOption]
    | ok s => cases connect <;> simp [sockunixConnect, Candidate.connected, Except.toOption]
  | some hostport =>
    simp only [connectAttempt, openTcp, candidates]
    split
    · simp [Except.toOption]
    next ais found =>
      obtain ⟨left, last⟩ := opening_foldl ais ⟨none, ascii "?", net.errno n, []⟩
      have result : (ais.foldl Opening.next ⟨none, ascii "?", net.errno n, []⟩).s = ais.getLast?.bind Candidate.connected := by
        rw [last]
        cases ais.getLast? <;> rfl
      split
      next none_ => simp [← result, none_, left, Except.toOption]
      next s some_ => simp [← result, some_, left, Except.toOption]

/-- The connections that nobody closes: to all addresses that can be reached but the last. -/
def leaked (net : Network) (hostport : Option (List UInt8)) (n : Nat) : List Nat :=
  (candidates net hostport n).dropLast.filterMap Candidate.connected

theorem connectAttempt_leaks (net : Network) (hostport : Option (List UInt8)) (n : Nat) :
    (connectAttempt net hostport n).2 = leaked net hostport n ++ (connectAttempt net hostport n).1.toOption.toList := by
  obtain ⟨left, result⟩ := connectAttempt_spec net hostport n
  rw [left, result, leaked]
  cases candidates net hostport n using List.reverseRecOn with
  | nil => simp
  | append_singleton ais c =>
    rw [List.filterMap_append, List.getLast?_concat, List.dropLast_concat, Option.bind_some]
    cases connected : c.connected <;> simp [connected]

end Attempt

/-! ### The call -/

/-- What is opened in the attempts from one number to another, and not closed. -/
def leftOpen (net : Network) (hostport : Option (List UInt8)) (first last : Nat) : List Nat :=
  (List.range' first (last - first)).flatMap fun n => (connectAttempt net hostport n).2

section Open

variable {sys : InfoSys} {net : Network} {hostport : Option (List UInt8)}

/-- The attempts of `info_open`: all but the last of them fail. -/
theorem connectLoop_leaves (refines : ∀ n, sys.connect n = (connectAttempt net hostport n).1) (retries : Nat) (st : State) :
    ∃ k, (connectLoop sys retries st).connects = st.connects + k ∧
      (List.range' st.connects k).flatMap (fun n => (connectAttempt net hostport n).2) =
        (List.range' st.connects k).flatMap (leaked net hostport) ++
          if (connectLoop sys retries st).link.fd = -1 then [] else [(connectLoop sys retries st).link.fd.toNat] := by
  induction retries generalizing st with
  | zero =>
    refine ⟨1, ?_⟩
    have leaks := connectAttempt_leaks net hostport st.connects
    rw [← refines] at leaks
    rw [connectLoop, tryConnect]
    cases connected : sys.connect st.connects with
    | error failure => simp [connected, leaks, Except.toOption]
    | ok s => simp [connected, leaks, Except.toOption]
  | succ retries ih =>
    have leaks := connectAttempt_leaks net hostport st.connects
    rw [← refines] at leaks
    rw [connectLoop, tryConnect]
    cases connected : sys.connect st.connects with
    | ok s =>
      refine ⟨1, ?_⟩
      simp [connected, leaks, Except.toOption]
    | error failure =>
      -- the connections of a failed attempt are not closed by the next
      obtain ⟨k, count, later⟩ := ih { st with
        link := { st.link with fd := -1 }, connects := st.connects + 1, errno := failure.1, lastError := failure.2 }
      refine ⟨k + 1, ?_, ?_⟩
      · simp [count, Nat.add_comm, Nat.add_left_comm]
      · simp [List.range'_succ, connected, leaks, Except.toOption, later]

/-- After `info_open` no connection is open but the one that is used exactly if in every attempt that was made only the last
address of the host could be reached, or none. The local daemon has one address. -/
theorem open_leaks_iff (refines : ∀ n, sys.connect n = (connectAttempt net hostport n).1) {st st' : State}
    (outside : st.waitret.inCb = false) (closed : st.link.fd = -1 ∨ st.link.proto = none)
    (memory : ∀ n, sys.malloc n = true) {ret : Int} (ran : infoOpen sys hostport.isSome st = (ret, st')) :
    leftOpen net hostport st.connects st'.connects = (if ret = 0 then [st'.link.fd.toNat] else []) ↔
      ∀ n, st.connects ≤ n → n < st'.connects → ∀ c ∈ (candidates net hostport n).dropLast, c.connected = none := by
  have shut : ¬ (st.link.fd ≠ -1 ∧ st.link.proto.isSome) := by
    rcases closed with closed | closed <;> simp [closed]
  obtain ⟨k, count, leaves⟩ := @connectLoop_leaves sys net hostport refines sys.retries
    (infoClose { st with waitret := .zero, lastError := [] }).2
  simp only [infoOpen, waitretInit, if_neg shut, outside, Bool.false_eq_true, if_false, Int.reduceNeg, Int.reduceEq, memory, Bool.not_true]
    at ran
  generalize connectLoop sys sys.retries (infoClose { st with waitret := .zero, lastError := [] }).2 = connected
    at count leaves ran
  have start : (infoClose { st with waitret := .zero, lastError := [] }).2.connects = st.connects := rfl
  rw [start] at count leaves
  have result : st'.connects = connected.connects ∧
      (if ret = 0 then [st'.link.fd.toNat] else []) = if connected.link.fd = -1 then [] else [connected.link.fd.toNat] := by
    split at ran
    next failed =>
      cases ran
      simp [failed]
    next succeeds =>
      cases ran
      simp [succeeds]
  rw [leftOpen, result.1, result.2, count, Nat.add_sub_cancel_left, leaves, List.append_left_eq_self, List.flatMap_eq_nil_iff]
  simp only [leaked, List.filterMap_eq_nil_iff, List.mem_range'_1, and_imp]

end Open

/-- A host with two addresses, both of which can be reached. -/
def twoAddresses : Network where
  getaddrinfo _ _ _ := .ok [⟨.ok 3, none⟩, ⟨.ok 4, none⟩]
  unix _ := ⟨.ok 3, none⟩
  errno _ := .other 0
  strerror _ := []

/-- The library on that network. -/
def servingTwo : InfoSys := { serving with connect := fun n => (connectAttempt twoAddresses (some [58, 49]) n).1 }

theorem open_leaks_two :
    leftOpen twoAddresses (some [58, 49]) 0 1 = [3, 4] ∧ (infoOpen servingTwo true .start).1 = 0 ∧
      (infoOpen servingTwo true .start).2.link.fd = 4 ∧
      ¬ ∀ n, 0 ≤ n → n < 1 → ∀ c ∈ (candidates twoAddresses (some [58, 49]) n).dropLast, c.connected = none := by
  have leaks : leftOpen twoAddresses (some [58, 49]) 0 1 ≠ [4] := by decide
  refine ⟨by decide, rfl, rfl, ?_⟩
  exact (@open_leaks_iff servingTwo twoAddresses (some [58, 49]) (fun _ => rfl) .start _ rfl (.inl rfl) (fun _ => rfl) 0
    rfl).not.mp leaks

end Infod.Info
