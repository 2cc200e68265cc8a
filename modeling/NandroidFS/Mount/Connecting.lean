import Mathlib.Data.List.Basic
import Mathlib.Tactic.Common
import NandroidFS.Mount.AgentOutput

/-!
# How the two ends come to their sockets

The constructor of `Connection` asks for the addresses of the host and tries one after the other
until it can connect to one.  `start_server` makes a socket, binds it, listens on it, and prints the
line that says ready.  Both check what the calls return, and each lets something pass:

* The constructor gives up only if its socket is `INVALID_SOCKET`.  It is that only before the first
  address: a socket that could not connect is closed, and the variable keeps it.
* `start_server` compares what `bind` and `listen` return with `-1` before it hands it to
  `throw_unless`, which then sees `0` or `1`.

The list that `getaddrinfo` gives is a parameter, with what `socket` and `connect` return for each
of its addresses.

* `Connection.tryAddresses_cases`: where the loop stops, and what it has closed by then.
* `Connection.construct_spec`: what is freed and closed, and which socket the handshake is on.
* `Daemon.announces_iff`: when the client is told that the daemon is ready, however the output of
  the daemon is cut.
-/

namespace NandroidFS

/-! ## The client -/

/-- A `SOCKET` other than `INVALID_SOCKET`. -/
abbrev SocketId := ℕ

/-- The calls of the constructor, with what they are about. -/
inductive NetCall where
  | startup
  | getaddrinfo
  /-- `socket`, with what it has returned. -/
  | socket (made : Option SocketId)
  | connect (s : SocketId)
  | closesocket (s : SocketId)
  | freeaddrinfo
  | handshake (s : SocketId)
  | cleanup
  deriving DecidableEq

/-- What the calls for one address return: `socket` a socket or the code of `WSAGetLastError`, and
`connect` whether it could. -/
structure Candidate where
  socket : Except Int32 SocketId
  connects : Bool

/-- What the calls of the constructor return. -/
structure Network (ε : Type) where
  startup : Int32
  getaddrinfo : Except Int32 (List Candidate)
  handshake : SocketId → Except ε Unit

/-- What the constructor throws. -/
inductive ConnectError (ε : Type) where
  | winSock (code : Int32)
  /-- `Unable to connect to daemon; none of the supplied addresses led to a successful
  connection`. -/
  | unableToConnect
  | handshake (e : ε)
  deriving DecidableEq

namespace Connection

variable {ε : Type}

/-- The loop over the addresses, from the `connect_socket` that it has so far: the calls, and the
`connect_socket` after it or the code that is thrown. -/
def tryAddresses : (connectSocket : Option SocketId) → List Candidate →
    List NetCall × Except Int32 (Option SocketId)
  | connectSocket, [] => ([], .ok connectSocket)
  | _, a :: rest =>
      match a.socket with
      | .error code => ([.socket none, .freeaddrinfo], .error code)
      | .ok s =>
          if a.connects then ([.socket (some s), .connect s], .ok (some s))
          else
            let r := tryAddresses (some s) rest
            (.socket (some s) :: .connect s :: .closesocket s :: r.1, r.2)

/-- The body of the `try`. -/
def constructBody (net : Network ε) : List NetCall × Except (ConnectError ε) SocketId :=
  match net.getaddrinfo with
  | .error code => ([.getaddrinfo], .error (.winSock code))
  | .ok addresses =>
      let r := tryAddresses none addresses
      match r.2 with
      | .error code => (.getaddrinfo :: r.1, .error (.winSock code))
      | .ok none => (.getaddrinfo :: r.1 ++ [.freeaddrinfo], .error .unableToConnect)
      | .ok (some s) =>
          (.getaddrinfo :: r.1 ++ [.freeaddrinfo, .handshake s],
            match net.handshake s with
            | .error e => .error (.handshake e)
            | .ok () => .ok s)

/-- The constructor, up to its threads. -/
def construct (net : Network ε) : List NetCall × Except (ConnectError ε) SocketId :=
  if net.startup ≠ 0 then ([.startup], .error (.winSock net.startup))
  else
    let r := constructBody net
    match r.2 with
    | .error e => (.startup :: r.1 ++ [.cleanup], .error e)
    | .ok s => (.startup :: r.1, .ok s)

/-! ### Where the loop stops -/

/-- The address gets a socket and cannot be connected to. -/
def Refuses (a : Candidate) : Prop :=
  (∃ s, a.socket = .ok s) ∧ a.connects = false

/-- The first address at which the loop does not go on to the next. -/
structure StopsAt (addresses : List Candidate) (a : Candidate) : Prop where
  first : ∃ before after, addresses = before ++ a :: after ∧ ∀ b ∈ before, Refuses b
  stops : ¬Refuses a

theorem StopsAt.head {a : Candidate} (ha : ¬Refuses a) (rest : List Candidate) :
    StopsAt (a :: rest) a :=
  ⟨⟨[], rest, rfl, fun _ hb => (List.not_mem_nil hb).elim⟩, ha⟩

theorem StopsAt.cons {a b : Candidate} {rest : List Candidate} (hb : Refuses b)
    (h : StopsAt rest a) : StopsAt (b :: rest) a := by
  obtain ⟨⟨before, after, rfl, hbefore⟩, ha⟩ := h
  exact ⟨⟨b :: before, after, rfl, List.forall_mem_cons.mpr ⟨hb, hbefore⟩⟩, ha⟩

/-- The sockets of a sequence of calls that are made and the sockets that are closed. -/
def made (calls : List NetCall) : List SocketId :=
  calls.filterMap fun
    | .socket s => s
    | _ => none

def closed (calls : List NetCall) : List SocketId :=
  calls.filterMap fun
    | .closesocket s => some s
    | _ => none

/-- **The loop**: it stops at an address that it cannot get a socket for, at one that it connects
to, or after the last.  All sockets before are closed, in order. -/
theorem tryAddresses_cases (connectSocket : Option SocketId) (addresses : List Candidate) :
    (∃ a code, StopsAt addresses a ∧ a.socket = .error code ∧
      (tryAddresses connectSocket addresses).2 = .error code ∧
      made (tryAddresses connectSocket addresses).1 =
        closed (tryAddresses connectSocket addresses).1 ∧
      (tryAddresses connectSocket addresses).1.count .freeaddrinfo = 1) ∨
    (∃ a s, StopsAt addresses a ∧ a.socket = .ok s ∧ a.connects = true ∧
      (tryAddresses connectSocket addresses).2 = .ok (some s) ∧
      made (tryAddresses connectSocket addresses).1 =
        closed (tryAddresses connectSocket addresses).1 ++ [s] ∧
      (tryAddresses connectSocket addresses).1.count .freeaddrinfo = 0) ∨
    (∀ a ∈ addresses, Refuses a) ∧
      made (tryAddresses connectSocket addresses).1 =
        closed (tryAddresses connectSocket addresses).1 ∧
      (tryAddresses connectSocket addresses).2 =
        .ok ((closed (tryAddresses connectSocket addresses).1).getLast?.or connectSocket) ∧
      (closed (tryAddresses connectSocket addresses).1).length = addresses.length ∧
      (tryAddresses connectSocket addresses).1.count .freeaddrinfo = 0 := by
  induction addresses generalizing connectSocket with
  | nil => exact .inr (.inr ⟨fun a ha => (List.not_mem_nil ha).elim, rfl, rfl, rfl, rfl⟩)
  | cons a rest ih =>
    rw [tryAddresses]
    rcases hsocket : a.socket with code | s
    · -- no socket for this address
      refine .inl ⟨a, code, StopsAt.head (fun h => ?_) rest, hsocket, rfl, rfl, rfl⟩
      obtain ⟨⟨s, hs⟩, -⟩ := h
      cases hsocket.symm.trans hs
    · simp only
      by_cases hconnects : a.connects = true
      · rw [if_pos hconnects]
        refine .inr (.inl ⟨a, s, StopsAt.head (fun h => ?_) rest, hsocket, hconnects, rfl, rfl,
          rfl⟩)
        cases hconnects.symm.trans h.2
      · rw [if_neg hconnects]
        have hrefuses : Refuses a := ⟨⟨s, hsocket⟩, Bool.eq_false_iff.mpr hconnects⟩
        rcases ih (some s) with ⟨b, code, hb, hcode, hresult, hmade, hcount⟩ |
          ⟨b, s', hb, hs', hconn, hresult, hmade, hcount⟩ | ⟨hall, hmade, hresult, hlen, hcount⟩
        · refine .inl ⟨b, code, hb.cons hrefuses, hcode, hresult, ?_, ?_⟩
          · exact congrArg (s :: ·) hmade
          · simpa using hcount
        · refine .inr (.inl ⟨b, s', hb.cons hrefuses, hs', hconn, hresult, ?_, ?_⟩)
          · exact congrArg (s :: ·) hmade
          · simpa using hcount
        · refine .inr (.inr ⟨List.forall_mem_cons.mpr ⟨hrefuses, hall⟩, ?_, ?_, ?_, ?_⟩)
          · exact congrArg (s :: ·) hmade
          · -- the `connect_socket` that goes on is the last that has been closed
            have hlast : closed (.socket (some s) :: .connect s :: .closesocket s ::
                (tryAddresses (some s) rest).1) = s :: closed (tryAddresses (some s) rest).1 := rfl
            rw [hresult, hlast, List.getLast?_cons, Option.or_some]
            rfl
          · exact congrArg (· + 1) hlen
          · simpa using hcount

/-- The calls of the loop. -/
theorem mem_tryAddresses {connectSocket : Option SocketId} {addresses : List Candidate}
    {c : NetCall} (hc : c ∈ (tryAddresses connectSocket addresses).1) :
    c ≠ .cleanup ∧ ∀ s, c ≠ .handshake s := by
  induction addresses generalizing connectSocket with
  | nil => cases hc
  | cons a rest ih =>
    rw [tryAddresses] at hc
    rcases hsocket : a.socket with code | s
    · simp only [hsocket, List.mem_cons, List.not_mem_nil, or_false] at hc
      rcases hc with rfl | rfl <;> simp
    · simp only [hsocket] at hc
      split at hc
      · simp only [List.mem_cons, List.not_mem_nil, or_false] at hc
        rcases hc with rfl | rfl <;> simp
      · simp only [List.mem_cons] at hc
        rcases hc with rfl | rfl | rfl | hc
        · simp
        · simp
        · simp
        · exact ih hc

theorem count_cleanup_tryAddresses (connectSocket : Option SocketId) (addresses : List Candidate) :
    (tryAddresses connectSocket addresses).1.count .cleanup = 0 :=
  List.count_eq_zero.mpr fun h => (mem_tryAddresses h).1 rfl

theorem handshake_notMem_tryAddresses (connectSocket : Option SocketId)
    (addresses : List Candidate) (s : SocketId) :
    .handshake s ∉ (tryAddresses connectSocket addresses).1 :=
  fun h => (mem_tryAddresses h).2 s rfl

/-! ### The constructor -/

/-- The loop has come to an address that it can connect to: the handshake is on that socket, which
is the only one that is left open. -/
def ConnectsTo (calls : List NetCall) (addresses : List Candidate) : Prop :=
  ∃ a s, StopsAt addresses a ∧ a.socket = .ok s ∧ a.connects = true ∧
    (∀ s', .handshake s' ∈ calls ↔ s' = s) ∧ made calls = closed calls ++ [s]

/-- There is no such address: the sockets are closed, and the handshake is on the last of them. -/
def ConnectsToNone (calls : List NetCall) (addresses : List Candidate) : Prop :=
  (∀ a ∈ addresses, Refuses a) ∧ made calls = closed calls ∧
    (closed calls).length = addresses.length ∧
    ∀ s, .handshake s ∈ calls ↔ (closed calls).getLast? = some s

/-- The loop has come to an address that it gets no socket for. -/
def StopsWith (calls : List NetCall) (addresses : List Candidate) (code : Int32) : Prop :=
  ∃ a, StopsAt addresses a ∧ a.socket = .error code ∧ (∀ s, .handshake s ∉ calls) ∧
    made calls = closed calls

section

variable {net : Network ε} {addresses : List Candidate} {code : Int32} {s : SocketId}

theorem construct_of_error (hstartup : net.startup = 0)
    (haddresses : net.getaddrinfo = .ok addresses)
    (hresult : (tryAddresses none addresses).2 = .error code) :
    construct net = (.startup :: .getaddrinfo :: (tryAddresses none addresses).1 ++ [.cleanup],
      .error (.winSock code)) := by
  simp [construct, constructBody, hstartup, haddresses, hresult]

theorem construct_of_none (hstartup : net.startup = 0)
    (haddresses : net.getaddrinfo = .ok addresses)
    (hresult : (tryAddresses none addresses).2 = .ok none) :
    construct net = (.startup :: .getaddrinfo :: (tryAddresses none addresses).1 ++
      [.freeaddrinfo, .cleanup], .error .unableToConnect) := by
  simp [construct, constructBody, hstartup, haddresses, hresult]

/-- With a socket the constructor goes on to the handshake, whether or not the socket is open. -/
theorem construct_of_some (hstartup : net.startup = 0)
    (haddresses : net.getaddrinfo = .ok addresses)
    (hresult : (tryAddresses none addresses).2 = .ok (some s)) :
    (∃ e, net.handshake s = .error e ∧
      construct net = (.startup :: .getaddrinfo :: (tryAddresses none addresses).1 ++
        [.freeaddrinfo, .handshake s, .cleanup], .error (.handshake e))) ∨
    net.handshake s = .ok () ∧
      construct net = (.startup :: .getaddrinfo :: (tryAddresses none addresses).1 ++
        [.freeaddrinfo, .handshake s], .ok s) := by
  rcases hshake : net.handshake s with e | u
  · refine .inl ⟨e, rfl, ?_⟩
    simp [construct, constructBody, hstartup, haddresses, hresult, hshake]
  · refine .inr ⟨rfl, ?_⟩
    simp [construct, constructBody, hstartup, haddresses, hresult, hshake]

/-- Whatever the addresses do, the constructor frees their list once, and it undoes the startup
once if it raises and never if it does not. -/
theorem count_construct (hstartup : net.startup = 0)
    (haddresses : net.getaddrinfo = .ok addresses) :
    (construct net).1.count .freeaddrinfo = 1 ∧
      ((∃ s, (construct net).2 = .ok s ∧ (construct net).1.count .cleanup = 0) ∨
        ∃ e, (construct net).2 = .error e ∧ (construct net).1.count .cleanup = 1) := by
  have hcleanup := count_cleanup_tryAddresses none addresses
  have hsome : ∀ s, (tryAddresses none addresses).2 = .ok (some s) →
      (tryAddresses none addresses).1.count .freeaddrinfo = 0 →
      (construct net).1.count .freeaddrinfo = 1 ∧
        ((∃ s, (construct net).2 = .ok s ∧ (construct net).1.count .cleanup = 0) ∨
          ∃ e, (construct net).2 = .error e ∧ (construct net).1.count .cleanup = 1) := by
    intro s hresult hfree
    rcases construct_of_some hstartup haddresses hresult with ⟨e, -, h⟩ | ⟨-, h⟩
    · simp [h, hfree, hcleanup]
    · simp [h, hfree, hcleanup]
  rcases tryAddresses_cases none addresses with ⟨a, code, -, -, hresult, -, hfree⟩ |
    ⟨a, s, -, -, -, hresult, -, hfree⟩ | ⟨-, -, hresult, -, hfree⟩
  · simp [construct_of_error hstartup haddresses hresult, hfree, hcleanup]
  · exact hsome s hresult hfree
  · rcases hlast : (closed (tryAddresses none addresses).1).getLast? with - | s
    · rw [hlast] at hresult
      simp [construct_of_none hstartup haddresses hresult, hfree, hcleanup]
    · rw [hlast] at hresult
      exact hsome s hresult hfree

/-- Where the constructor has got a socket to, the handshake is on it and on no other. -/
theorem handshake_mem_of_some (hstartup : net.startup = 0)
    (haddresses : net.getaddrinfo = .ok addresses)
    (hresult : (tryAddresses none addresses).2 = .ok (some s)) :
    (∀ s', .handshake s' ∈ (construct net).1 ↔ s' = s) ∧
      made (construct net).1 = made (tryAddresses none addresses).1 ∧
      closed (construct net).1 = closed (tryAddresses none addresses).1 ∧
      (construct net).2 ≠ .error .unableToConnect := by
  have hloop := handshake_notMem_tryAddresses none addresses
  rcases construct_of_some hstartup haddresses hresult with ⟨e, -, h⟩ | ⟨-, h⟩
  · rw [h]
    refine ⟨fun s' => ?_, ?_, ?_, by simp⟩
    · simp [hloop]
    · simp [made]
    · simp [closed]
  · rw [h]
    refine ⟨fun s' => ?_, ?_, ?_, by simp⟩
    · simp [hloop]
    · simp [made]
    · simp [closed]

/-- **The constructor**, for every list of addresses.  The handshake is on the first socket that
could connect.  If none could it is on one that has been closed: that none of the addresses led to a
connection is only found if there is no address. -/
theorem construct_spec (hstartup : net.startup = 0)
    (haddresses : net.getaddrinfo = .ok addresses) :
    (construct net).1.count .freeaddrinfo = 1 ∧
      ((∃ s, (construct net).2 = .ok s ∧ (construct net).1.count .cleanup = 0) ∨
        ∃ e, (construct net).2 = .error e ∧ (construct net).1.count .cleanup = 1) ∧
      ((construct net).2 = .error .unableToConnect ↔ addresses = []) ∧
      ((∃ code, (construct net).2 = .error (.winSock code) ∧
          StopsWith (construct net).1 addresses code) ∨
        ConnectsTo (construct net).1 addresses ∨ ConnectsToNone (construct net).1 addresses) := by
  obtain ⟨hfree, hcleanup⟩ := count_construct hstartup haddresses
  refine ⟨hfree, hcleanup, ?_⟩
  rcases tryAddresses_cases none addresses with ⟨a, code, ha, hcode, hresult, hmade, -⟩ |
    ⟨a, s, ha, hs, hconnects, hresult, hmade, -⟩ | ⟨hall, hmade, hresult, hlen, -⟩
  · -- no socket for an address
    have hne : addresses ≠ [] := by
      obtain ⟨⟨before, after, rfl, -⟩, -⟩ := ha
      simp
    rw [construct_of_error hstartup haddresses hresult]
    refine ⟨by simpa using hne, .inl ⟨code, rfl, a, ha, hcode, fun s => ?_, ?_⟩⟩
    · simp [handshake_notMem_tryAddresses]
    · simpa [made, closed] using hmade
  · -- a socket that has connected
    have hne : addresses ≠ [] := by
      obtain ⟨⟨before, after, rfl, -⟩, -⟩ := ha
      simp
    obtain ⟨hshake, hmade', hclosed', hunable⟩ :=
      handshake_mem_of_some hstartup haddresses hresult
    refine ⟨iff_of_false hunable hne, .inr (.inl ⟨a, s, ha, hs, hconnects, hshake, ?_⟩)⟩
    rw [hmade', hclosed', hmade]
  · -- all have refused
    rcases hlast : (closed (tryAddresses none addresses).1).getLast? with - | s
    · have hnil : addresses = [] := by
        rw [List.getLast?_eq_none_iff] at hlast
        rw [hlast] at hlen
        exact List.length_eq_zero_iff.mp hlen.symm
      subst hnil
      rw [construct_of_none hstartup haddresses rfl]
      refine ⟨by simp, .inr (.inr ⟨hall, rfl, rfl, fun s => ?_⟩)⟩
      simp [tryAddresses, closed]
    · rw [hlast] at hresult
      have hne : addresses ≠ [] := by
        rintro rfl
        cases hlast
      obtain ⟨hshake, hmade', hclosed', hunable⟩ :=
        handshake_mem_of_some hstartup haddresses hresult
      refine ⟨iff_of_false hunable hne, .inr (.inr ⟨hall, ?_, ?_, fun s' => ?_⟩)⟩
      · rw [hmade', hclosed', hmade]
      · rw [hclosed', hlen]
      · rw [hshake, hclosed', hlast, Option.some.injEq, eq_comm]

end

/-- Two addresses that refuse; the handshake is on a socket that has been closed. -/
def refusing : Network Int32 where
  startup := 0
  getaddrinfo := .ok [⟨.ok 3, false⟩, ⟨.ok 4, false⟩]
  handshake := fun _ => .error 10038

theorem construct_spec_refusing :
    (construct refusing).1.count .freeaddrinfo = 1 ∧
      (construct refusing).2 ≠ .error .unableToConnect := by
  have h := @construct_spec Int32 refusing _ rfl rfl
  exact ⟨h.1, mt h.2.2.1.mp (List.cons_ne_nil _ _)⟩

end Connection

/-! ## The daemon -/

/-- What the calls of `start_server` return, and what `handle_client` prints. -/
structure ServerCalls where
  socket : Int32
  bind : Int32
  listen : Int32
  accept : Int32
  handleClient : ByteString

/-- The calls of `start_server`. -/
inductive ServerCall where
  | socket
  | bind
  | listen
  | accept
  | handleClient
  | close
  deriving DecidableEq

/-- What has been called and printed, and whether an exception has been thrown. -/
structure Served where
  calls : List ServerCall
  output : ByteString
  threw : Bool
  deriving DecidableEq

namespace Daemon

/-- `throw_unless`; `none` is the exception. -/
def throwUnless (returnVal : Int32) : Option Int32 :=
  if returnVal = -1 then none else some returnVal

/-- A comparison as the `int` that it is passed as. -/
def ofBool (b : Bool) : Int32 :=
  if b then 1 else 0

/-- `Binded successfully to port, awaiting connection`. -/
def BINDED_MSG : ByteString :=
  [66, 105, 110, 100, 101, 100, 32, 115, 117, 99, 99, 101, 115, 115, 102, 117, 108, 108, 121, 32,
    116, 111, 32, 112, 111, 114, 116, 44, 32, 97, 119, 97, 105, 116, 105, 110, 103, 32, 99, 111,
    110, 110, 101, 99, 116, 105, 111, 110]

/-- `Failed to execute daemon: std::exception`: the `what` of `UnixException` is not `const`, and
so it is not the one that is called. -/
def FAILED_MSG : ByteString :=
  [70, 97, 105, 108, 101, 100, 32, 116, 111, 32, 101, 120, 101, 99, 117, 116, 101, 32, 100, 97,
    101, 109, 111, 110, 58, 32, 115, 116, 100, 58, 58, 101, 120, 99, 101, 112, 116, 105, 111, 110]

/-- What is printed before `accept`. -/
def announcement : ByteString :=
  BINDED_MSG ++ newline :: (AGENT_READY_MSG ++ [newline])

/-- The `try` of `start_server`. -/
def serverBody (sys : ServerCalls) : Served :=
  match throwUnless (ofBool (sys.bind == -1)) with
  | none => ⟨[.bind], [], true⟩
  | some _ =>
    match throwUnless (ofBool (sys.listen == -1)) with
    | none => ⟨[.bind, .listen], [], true⟩
    | some _ =>
      match throwUnless sys.accept with
      | none => ⟨[.bind, .listen, .accept], announcement, true⟩
      | some _ =>
          ⟨[.bind, .listen, .accept, .handleClient], announcement ++ sys.handleClient, false⟩

def startServer (sys : ServerCalls) : Served :=
  match throwUnless sys.socket with
  | none => ⟨[.socket], [], true⟩
  | some _ =>
      let r := serverBody sys
      { r with calls := .socket :: r.calls ++ if r.threw then [.close] else [] }

/-- `main`, which catches what `start_server` throws. -/
def main (sys : ServerCalls) : Served :=
  let r := startServer sys
  { r with output := r.output ++ if r.threw then FAILED_MSG ++ [newline] else [], threw := false }

variable {sys : ServerCalls}

/-- What is compared first is never `-1`. -/
theorem throwUnless_ofBool (b : Bool) : throwUnless (ofBool b) = some (ofBool b) := by
  cases b <;> rfl

/-- **The slip**: whatever `bind` and `listen` return, the server goes on to `accept`. -/
theorem serverBody_eq (sys : ServerCalls) :
    serverBody sys =
      if sys.accept = -1 then ⟨[.bind, .listen, .accept], announcement, true⟩
      else ⟨[.bind, .listen, .accept, .handleClient], announcement ++ sys.handleClient, false⟩ := by
  rw [serverBody, throwUnless_ofBool, throwUnless_ofBool]
  by_cases h : sys.accept = -1
  · simp [throwUnless, h]
  · simp [throwUnless, h]

theorem output_main_of_error (h : sys.socket = -1) :
    (main sys).output = FAILED_MSG ++ [newline] := by
  simp [main, startServer, throwUnless, h]

theorem announced (h : sys.socket ≠ -1) : announcement <+: (main sys).output := by
  have hserved : startServer sys = { serverBody sys with
      calls := .socket :: (serverBody sys).calls ++
        if (serverBody sys).threw then [.close] else [] } := by
    simp [startServer, throwUnless, h]
  have hbody : announcement <+: (serverBody sys).output := by
    rw [serverBody_eq]
    split
    · exact List.prefix_rfl
    · exact List.prefix_append _ _
  rw [main, hserved]
  exact hbody.trans (List.prefix_append _ _)

theorem ended_announcement :
    Lines.ended newline announcement = [BINDED_MSG, AGENT_READY_MSG] := by
  rw [announcement, Lines.ended_append_cons (by decide), Lines.ended_append_cons (by decide),
    Lines.ended_of_notMem (by decide)]

/-- Before the newline comes the line that says ready has not been ended. -/
theorem ended_before_newline {text : ByteString}
    (h : text <+: BINDED_MSG ++ newline :: AGENT_READY_MSG) :
    Lines.ended newline text <+: [BINDED_MSG] := by
  have hended : Lines.ended newline (BINDED_MSG ++ newline :: AGENT_READY_MSG) = [BINDED_MSG] := by
    rw [Lines.ended_append_cons (by decide), Lines.ended_of_notMem (by decide)]
  exact hended ▸ Lines.ended_mono h

/-- The lines of what has been read so far say ready exactly if the server has printed its
announcement, and all of it has been read. -/
theorem exists_ready_iff {text : ByteString} (h : text <+: (main sys).output) :
    (∃ line ∈ Lines.ended newline text, AGENT_READY_MSG <+: line) ↔
      sys.socket ≠ -1 ∧ announcement <+: text := by
  by_cases hsocket : sys.socket = -1
  · refine iff_of_false ?_ fun h' => h'.1 hsocket
    rintro ⟨line, hline, hready⟩
    have hlines : Lines.ended newline text <+: Lines.ended newline (main sys).output :=
      Lines.ended_mono h
    have hmem := hlines.subset hline
    rw [output_main_of_error hsocket, Lines.ended_append_cons (by decide),
      Lines.ended_of_notMem (by decide), List.mem_singleton] at hmem
    subst hmem
    exact absurd hready (by decide)
  · refine ⟨fun hexists => ⟨hsocket, ?_⟩, fun h' => ?_⟩
    · obtain ⟨line, hline, hready⟩ := hexists
      rcases List.prefix_or_prefix_of_prefix (announced hsocket) h with hall | hpart
      · exact hall
      rw [announcement, ← List.cons_append, ← List.append_assoc] at hpart ⊢
      rcases List.prefix_concat_iff.mp hpart with rfl | hpart
      · exact List.prefix_rfl
      · -- all but the last newline, or less
        have hmem := (ended_before_newline hpart).subset hline
        rw [List.mem_singleton] at hmem
        subst hmem
        exact absurd hready (by decide)
    · refine ⟨AGENT_READY_MSG, (Lines.ended_mono h'.2).subset ?_, List.prefix_rfl⟩
      rw [ended_announcement]
      simp

/-- **When the client is told that the daemon is ready**: as soon as the pipe has brought the
announcement, in whatever pieces, if there has been a socket.  What `bind` and `listen` have
returned is not in it. -/
theorem announces_iff (sys : ServerCalls) {chunks : List ByteString}
    (h : chunks.flatten <+: (main sys).output) :
    (AgentOutput.outputs chunks).Raised ↔
      sys.socket ≠ -1 ∧ announcement <+: chunks.flatten := by
  rw [AgentOutput.raised_outputs_iff, exists_ready_iff h]

/-- A server that can neither bind its socket nor listen on it. -/
def deaf : ServerCalls where
  socket := 3
  bind := -1
  listen := -1
  accept := -1
  handleClient := []

theorem announces_iff_deaf :
    (AgentOutput.outputs [BINDED_MSG, newline :: AGENT_READY_MSG, [newline]]).Raised := by
  have htext : [BINDED_MSG, newline :: AGENT_READY_MSG, [newline]].flatten = announcement := rfl
  have hprefix : [BINDED_MSG, newline :: AGENT_READY_MSG, [newline]].flatten <+:
      (main deaf).output := htext ▸ announced (by decide)
  exact (announces_iff deaf hprefix).mpr ⟨by decide, htext ▸ List.prefix_rfl⟩

end Daemon

end NandroidFS
