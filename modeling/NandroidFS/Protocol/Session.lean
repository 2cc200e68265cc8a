import Mathlib.Logic.Relation
import NandroidFS.Streams.Duplex
import NandroidFS.Shared.Endpoint
import NandroidFS.Daemon.Serve
import NandroidFS.Protocol.Exchange
import NandroidFS.Streams.Runs

/-!
# A session

One connection, any number of client threads and the daemon, at the level of the two sockets.  A
thread takes the mutex, runs the locked part of its method through the client's buffers, and
releases the mutex; the daemon goes round the loop of `handle_messages` through its own.  Any side
may move at any time, and every receive and send is cut as the sockets like.  The kernel of the
device is arbitrary, and so is what the caches answer.

The invariant has four cases, one for each way the two sides can be out of step with each other:
nobody holds the mutex (`free`); the holder has its answer on the way, or needs none, while the
daemon is done (`alone`); the holder sends while the daemon still finishes the round before
(`early`); and both are at the same request (`exchanging`).

* `Session.Inv.step`, `Session.Inv.of_reachable`: the invariant holds in every reachable state.
* `Session.Stage.acc`: no run of a request is infinite.
* `Session.Stage.progress`: while the mutex is held, something can move.
* `Session.Inv.completes`: every request can be completed.
-/

namespace NandroidFS

/-- The client's end of the connection, in the middle of a method. -/
abbrev ClientProg := SocketM ConnAct ConnAct.Res (Except Exn Reply × Endpoint)

/-- The daemon's end of the connection, in the middle of a round. -/
abbrev DaemonProg :=
  SocketM Syscall Syscall.Res (Except Exn (Option (List UInt8)) × Endpoint)

/-- Everything that is fixed during a session: the two hosts, the kernel of the device with the
state it starts in, and the caches of the client. -/
structure Setup (K W : Type) where
  clientHost : Host
  daemonHost : Host
  call : Kernel K
  kernel₀ : K
  world : (e : ConnAct) → W → e.Res × W

/-- A method that has returned or thrown: who called it, what the caches were when it took the
mutex, and how it ended. -/
structure Completed (W : Type) where
  thread : ℕ
  call : Call
  start : W
  result : Except Exn Reply

/-- The mutex, with the client's buffers that it guards. -/
inductive Holder (W : Type) where
  | free (endpoint : Endpoint)
  | held (thread : ℕ) (call : Call) (start : W) (program : ClientProg)

structure Session (K W : Type) where
  holder : Holder W
  clientWorld : W
  daemon : DaemonProg
  kernel : K
  toDaemon : List UInt8
  toClient : List UInt8
  history : List (Completed W)

namespace Session

variable {K W : Type} (P : Setup K W)

/-- The daemon at the start of a round. -/
def round (rwBuffer : List UInt8) (endpoint : Endpoint) : DaemonProg :=
  StreamM.compile (ClientHandler.handleMessage P.daemonHost rwBuffer) endpoint

/-- A connection right after the handshake. -/
structure Fresh (s : Session K W) : Prop where
  holder : ∃ endpoint, s.holder = .free endpoint ∧ endpoint.Idle
  daemon : ∃ rwBuffer endpoint, s.daemon = round P rwBuffer endpoint ∧ endpoint.Idle
  kernel : s.kernel = P.kernel₀
  toDaemon : s.toDaemon = []
  toClient : s.toClient = []
  history : s.history = []

/-- Two new connections between two new buffers. -/
def start (w : W) : Session K W where
  holder := .free (.new 16 (by decide))
  clientWorld := w
  daemon := round P [] (.new 16 (by decide))
  kernel := P.kernel₀
  toDaemon := []
  toClient := []
  history := []

theorem fresh_start (w : W) : Fresh P (start P w) where
  holder := ⟨_, rfl, Endpoint.idle_new _ _⟩
  daemon := ⟨[], _, rfl, Endpoint.idle_new _ _⟩
  kernel := rfl
  toDaemon := rfl
  toClient := rfl
  history := rfl

/-- A step that belongs to a request in progress. -/
inductive Work : Session K W → Session K W → Prop
  /-- The holder of the mutex moves. -/
  | client {s : Session K W} {t : ℕ} {c : Call} {w : W} {p p' : ClientProg} {v' : W}
      {toClient' toDaemon' : List UInt8} (hs : s.holder = .held t c w p)
      (hp : PartyStep P.world (p, s.clientWorld, s.toClient, s.toDaemon)
        (p', v', toClient', toDaemon')) :
      Work s { s with
        holder := .held t c w p', clientWorld := v', toClient := toClient', toDaemon := toDaemon' }
  /-- The daemon moves. -/
  | daemon {s : Session K W} {d' : DaemonProg} {k' : K} {toDaemon' toClient' : List UInt8}
      (hp : PartyStep P.call (s.daemon, s.kernel, s.toDaemon, s.toClient)
        (d', k', toDaemon', toClient')) :
      Work s { s with
        daemon := d', kernel := k', toDaemon := toDaemon', toClient := toClient' }
  /-- The daemon goes round its loop. -/
  | loop {s : Session K W} {rwBuffer : List UInt8} {endpoint : Endpoint}
      (hd : s.daemon = .ret (.ok (some rwBuffer), endpoint)) :
      Work s { s with daemon := round P rwBuffer endpoint }
  /-- The method ends and releases the mutex. -/
  | release {s : Session K W} {t : ℕ} {c : Call} {w : W} {result : Except Exn Reply}
      {endpoint : Endpoint} (hs : s.holder = .held t c w (.ret (result, endpoint))) :
      Work s { s with
        holder := .free endpoint, history := s.history ++ [⟨t, c, w, result⟩] }

/-- A step of the session: work on the request in progress, or a thread takes the mutex.  `Allowed`
says which calls are made, given what happened before; the caches may be anything by then. -/
inductive Step (Allowed : List (Completed W) → Call → W → ℕ → Prop) :
    Session K W → Session K W → Prop
  | work {s s' : Session K W} (h : Work P s s') : Step Allowed s s'
  | acquire {s : Session K W} {endpoint : Endpoint} (hs : s.holder = .free endpoint) (t : ℕ)
      (c : Call) (w : W) (rounds : ℕ) (hc : Allowed s.history c w rounds) :
      Step Allowed s { s with
        holder := .held t c w (StreamM.compile (c.locked P.clientHost rounds) endpoint)
        clientWorld := w }

variable {P} in
theorem reachable_of_work {Allowed : List (Completed W) → Call → W → ℕ → Prop} {s s' : Session K W}
    (h : Relation.ReflTransGen (Work P) s s') : Relation.ReflTransGen (Step P Allowed) s s' := by
  induction h with
  | refl => exact .refl
  | tail _ hw ih => exact ih.tail (.work hw)

/-! ## What the requests of a session amount to -/

/-- The state of the kernel after one more call. -/
def kernelNext (k : K) (c : Call) (w : W) : K :=
  if c.Quiet P.world w then k else (serve P.call c.request k).2

/-- The state of the kernel after the given calls, each served in turn. -/
def kernelAfter (history : List (Completed W)) : K :=
  history.foldl (fun k e => kernelNext P k e.call e.start) P.kernel₀

theorem kernelAfter_append (history : List (Completed W)) (e : Completed W) :
    kernelAfter P (history ++ [e]) = kernelNext P (kernelAfter P history) e.call e.start := by
  rw [kernelAfter, List.foldl_append]
  rfl

/-- What holds of every element of a list and of what came before it is extended by one. -/
theorem forall_split_append {α : Type} {Q : List α → α → Prop} {l : List α} {a : α}
    (h : ∀ before e after, l = before ++ e :: after → Q before e) (ha : Q l a) :
    ∀ before e after, l ++ [a] = before ++ e :: after → Q before e := by
  intro before e after heq
  rcases List.eq_nil_or_concat after with rfl | ⟨after', last, rfl⟩
  · obtain ⟨rfl, hlast⟩ := List.append_inj' heq rfl
    obtain rfl : a = e := List.head_eq_of_cons_eq hlast
    exact ha
  · have heq' : l ++ [a] = (before ++ e :: after') ++ [last] := by
      rw [heq, List.append_assoc, List.cons_append, List.concat_eq_append]
    exact h before e after' (List.append_inj' heq' rfl).1

/-- Every method that asked the daemon got the answer to its own request. -/
def Faithful (history : List (Completed W)) : Prop :=
  ∀ before e after, history = before ++ e :: after → ¬e.call.Quiet P.world e.start →
    e.result = .ok (serve P.call e.call.request (kernelAfter P before)).1.reply

/-- The call can be served from here: it needs no daemon, or its request fits the wire, leaves
nothing behind on it, and gets an answer that the client can read. -/
def Admissible (history : List (Completed W)) (c : Call) (w : W) (rounds : ℕ) : Prop :=
  c.Quiet P.world w ∨
    c.request.Fits ∧ c.request.Sized ∧ Drains P.call c.request (kernelAfter P history) ∧
      (serve P.call c.request (kernelAfter P history)).1.Legible rounds

/-! ## The daemon between two requests -/

/-- The daemon has answered and goes back to the start of its loop without touching the
connection. -/
def Finishing (d : DaemonProg) (k next : K) : Prop :=
  d.All SocketAct.NotRecv ∧ ∃ sent, SocketM.Safe P.call false
    (fun x k' i o => i = [] ∧ o = sent ∧ (∃ rwBuffer, x.1 = .ok (some rwBuffer)) ∧ x.2.Idle ∧
      k' = next) d k [] sent

/-- The daemon waits at the start of its loop, with nothing in its buffers. -/
def Waiting (d : DaemonProg) (k next : K) : Prop :=
  ∃ rwBuffer endpoint, d = round P rwBuffer endpoint ∧ endpoint.Idle ∧ k = next

/-- **The daemon is ready for the next request**: it has read all that was sent to it, has nothing
more to send, and the kernel will be in the state `next` when the request comes.  It goes round its
loop `loops` times before it waits. -/
def Ready (loops : ℕ) (d : DaemonProg) (k next : K) : Prop :=
  loops = 1 ∧ Finishing P d k next ∨ loops = 0 ∧ Waiting P d k next

variable {P} {d d' : DaemonProg} {k k' next : K} {i i' o o' : List UInt8}

theorem Finishing.step (h : Finishing P d k next)
    (hp : PartyStep P.call (d, k, i, o) (d', k', i', o')) :
    Finishing P d' k' next ∧ i' = i ∧ o' = o := by
  obtain ⟨hall, sent, hsafe⟩ := h
  cases hp with
  | recv hc => exact hall.1.elim
  | @send bs cont w i o m hm hle =>
    -- everything has been sent, so nothing more can be
    obtain ⟨rest, hrest⟩ := (hsafe.2 m hm hle).isPrefix_of_post fun _ _ _ _ hq => hq.2.1
    rw [List.append_assoc] at hrest
    have hnil := List.append_eq_nil_iff.mp (List.append_right_eq_self.mp hrest.symm)
    have hlen := congrArg List.length hnil.1
    rw [List.length_take, List.length_nil] at hlen
    omega
  | call => exact ⟨⟨hall.2 _, sent, hsafe⟩, rfl, rfl⟩

theorem Finishing.ret {x : Except Exn (Option (List UInt8)) × Endpoint}
    (h : Finishing P (.ret x) k next) :
    (∃ rwBuffer, x.1 = .ok (some rwBuffer)) ∧ x.2.Idle ∧ k = next := by
  obtain ⟨-, sent, hsafe⟩ := h
  exact hsafe.2.2

theorem Finishing.progress (h : Finishing P d k next) (i o : List UInt8) :
    (∃ rwBuffer endpoint, d = .ret (.ok (some rwBuffer), endpoint)) ∨
      ∃ y, PartyStep P.call (d, k, i, o) y := by
  obtain ⟨hall, sent, hsafe⟩ := h
  cases d with
  | ret x =>
    obtain ⟨result, endpoint⟩ := x
    obtain ⟨rwBuffer, hx⟩ := hsafe.2.2.1
    exact Or.inl ⟨rwBuffer, endpoint, by rw [← hx]⟩
  | fail e => exact e.elim
  | act e cont => exact Or.inr (Duplex.exists_step_of_notRecv hsafe hall.1)

/-- A waiting daemon moves only when something arrives. -/
theorem Waiting.eq_recv (h : Waiting P d k next) : ∃ n cont, d = .act (.recv n) cont := by
  obtain ⟨rwBuffer, endpoint, rfl, hidle, -⟩ := h
  obtain ⟨n, cont, hrecv⟩ := DataReader.exists_recv_of_pending_nil (E := Syscall)
    (R := Syscall.Res) hidle.reader Nat.one_pos
  rw [round, ClientHandler.handleMessage, StreamM.compile, hrecv]
  exact ⟨n, _, rfl⟩

theorem Waiting.not_step (h : Waiting P d k next) (hi : i = []) :
    ¬PartyStep P.call (d, k, i, o) (d', k', i', o') := by
  intro hp
  obtain ⟨n, cont, rfl⟩ := h.eq_recv
  cases hp with
  | recv hc => exact hc (List.append_eq_nil_iff.mp hi).1

theorem Ready.step {loops : ℕ} (h : Ready P loops d k next) (hi : i = [])
    (hp : PartyStep P.call (d, k, i, o) (d', k', i', o')) :
    Ready P loops d' k' next ∧ i' = [] ∧ o' = o := by
  rcases h with ⟨hn, hf⟩ | ⟨-, hw⟩
  · obtain ⟨hf', rfl, rfl⟩ := hf.step hp
    exact ⟨Or.inl ⟨hn, hf'⟩, hi, rfl⟩
  · exact (hw.not_step hi hp).elim

/-- Once it has gone round, a finishing daemon waits. -/
theorem Finishing.loop {rwBuffer : List UInt8} {endpoint : Endpoint}
    (h : Finishing P (.ret (.ok (some rwBuffer), endpoint)) k next) :
    Waiting P (round P rwBuffer endpoint) k next :=
  ⟨rwBuffer, endpoint, rfl, h.ret.2⟩

theorem Ready.loop {loops : ℕ} {rwBuffer : List UInt8} {endpoint : Endpoint}
    (h : Ready P loops (.ret (.ok (some rwBuffer), endpoint)) k next) :
    loops = 1 ∧ Ready P 0 (round P rwBuffer endpoint) k next := by
  rcases h with ⟨hn, hf⟩ | ⟨-, hw⟩
  · exact ⟨hn, Or.inr ⟨rfl, hf.loop⟩⟩
  · obtain ⟨n, cont, hd⟩ := hw.eq_recv
    cases hd

/-! ## One request from either end -/

theorem ofExcept_eq_done {ε α : Type} {x : Except ε α} {a : α}
    (h : Outcome.done a = Outcome.ofExcept x) : x = .ok a := by
  cases x with
  | ok b => exact congrArg Except.ok (Outcome.done.inj h).symm
  | error e => cases h

/-- How the method that holds the mutex has to end: with empty buffers and, if it asked the daemon,
with the answer to its request. -/
def Owed (P : Setup K W) (history : List (Completed W)) (c : Call) (w : W)
    (x : Except Exn Reply × Endpoint) : Prop :=
  x.2.Idle ∧ (¬c.Quiet P.world w →
    x.1 = .ok (serve P.call c.request (kernelAfter P history)).1.reply)

theorem safe_locked_of_quiet {c : Call} {w : W} (hquiet : c.Quiet P.world w) {endpoint : Endpoint}
    (hidle : endpoint.Idle) (history : List (Completed W)) (rounds : ℕ) :
    SocketM.Safe P.world false (fun x _ i o => i = [] ∧ o = [] ∧ Owed P history c w x)
      (StreamM.compile (c.locked P.clientHost rounds) endpoint) w [] [] := by
  obtain ⟨reply, w', hrecv⟩ := c.receives_of_quiet P.clientHost hquiet rounds
  have hrun := hrecv false (endpoint.view w [] []) []
    (by rw [Endpoint.view, hidle.reader]) rfl
  refine (StreamM.safe_compile _ (endpoint.shows_view w [] []) hrun (by simp)).mono ?_
  rintro x w₁ i o ⟨-, hshows⟩
  obtain ⟨hx, hi, ho⟩ := hshows.idle rfl (by simp [Endpoint.view, hidle.writer])
  refine ⟨hi, ?_, hx, fun hn => absurd hquiet hn⟩
  rw [ho, Endpoint.view, hidle.writer]
  rfl

/-- The client sends its request and takes the response. -/
theorem safe_locked {c : Call} {w : W} (hquiet : ¬c.Quiet P.world w) {endpoint : Endpoint}
    (hidle : endpoint.Idle) {history : List (Completed W)} {rounds : ℕ} (hq : c.request.Fits)
    (hs : c.request.Sized)
    (hleg : (serve P.call c.request (kernelAfter P history)).1.Legible rounds)
    {sent : List UInt8} (hsent : sent = []) :
    SocketM.Safe P.world false
      (fun x _ i o => i = [] ∧ o = c.request.bytes ∧ Owed P history c w x)
      (StreamM.compile (c.locked P.clientHost rounds) endpoint) w
      (serve P.call c.request (kernelAfter P history)).1.bytes sent := by
  subst hsent
  set r := serve P.call c.request (kernelAfter P history) with hr
  obtain ⟨w', hex⟩ := c.exchanges_locked P.clientHost hquiet hq hs
    (serve_answers P.call c.request (kernelAfter P history)) hleg
  have hrun := hex false (endpoint.view w r.1.bytes []) []
    (by rw [Endpoint.view, hidle.reader, List.append_nil]; rfl) rfl
  refine (StreamM.safe_compile _ (endpoint.shows_view w r.1.bytes []) hrun (by simp)).mono ?_
  rintro x w₁ i o ⟨hx, hshows⟩
  obtain ⟨hxi, hi, ho⟩ := hshows.idle rfl rfl
  refine ⟨hi, ?_, hxi, fun _ => ofExcept_eq_done hx⟩
  rw [ho]
  simp [Endpoint.view, hidle.writer]

/-- The daemon takes the request and sends its response. -/
theorem safe_round {q : Request} (hq : q.Fits) (hs : q.Sized) {k : K} (hd : Drains P.call q k)
    {rwBuffer : List UInt8} {endpoint : Endpoint} (hidle : endpoint.Idle) :
    SocketM.Safe P.call false
      (fun x k' i o => i = [] ∧ o = (serve P.call q k).1.bytes ∧
        (∃ rwBuffer', x.1 = .ok (some rwBuffer')) ∧ x.2.Idle ∧ k' = (serve P.call q k).2)
      (round P rwBuffer endpoint) k q.bytes [] := by
  have hin : (endpoint.view k q.bytes []).inflow = q.bytes ++ [] := by
    rw [Endpoint.view, hidle.reader, List.append_nil]
    rfl
  obtain ⟨rwBuffer', hrun⟩ := run_handleMessage P.daemonHost hq hs rwBuffer hd false hin rfl
  refine (StreamM.safe_compile _ (endpoint.shows_view k q.bytes []) hrun (by simp)).mono ?_
  rintro x k₁ i o ⟨hx, hshows⟩
  obtain ⟨hxi, hi, ho⟩ := hshows.idle rfl rfl
  refine ⟨hi, ?_, ⟨rwBuffer', ofExcept_eq_done hx⟩, hxi, hshows.world.symm⟩
  rw [ho]
  simp [Endpoint.view, hidle.writer]

/-! ## The invariant -/

/-- The two sides at the same request. -/
abbrev Talking (P : Setup K W) (history : List (Completed W)) (c : Call) (w : W)
    (x : Duplex ConnAct ConnAct.Res (Except Exn Reply × Endpoint) W Syscall Syscall.Res
      (Except Exn (Option (List UInt8)) × Endpoint) K) (ls lr rs rr : List UInt8) : Prop :=
  Duplex.Exchanging P.world P.call c.request.bytes
    (serve P.call c.request (kernelAfter P history)).1.bytes (fun x _ => Owed P history c w x)
    (fun x k' => (∃ rwBuffer, x.1 = .ok (some rwBuffer)) ∧ x.2.Idle ∧
      k' = kernelNext P (kernelAfter P history) c w) x ls lr rs rr

/-- The state of the connection, one case for each way the two sides can stand to each other.  The
daemon goes round its loop `loops` times before it waits for a request that has not been made. -/
inductive Stage (P : Setup K W) (s : Session K W) : (loops : ℕ) → Prop
  | free {loops : ℕ} {endpoint : Endpoint} (hs : s.holder = .free endpoint) (hidle : endpoint.Idle)
      (htoDaemon : s.toDaemon = []) (htoClient : s.toClient = [])
      (hd : Ready P loops s.daemon s.kernel (kernelAfter P s.history)) : Stage P s loops
  | alone {loops t : ℕ} {c : Call} {w : W} {p : ClientProg} (sent : List UInt8)
      (hs : s.holder = .held t c w p)
      (hsafe : SocketM.Safe P.world false
        (fun x _ i o => i = [] ∧ o = sent ∧ Owed P s.history c w x) p s.clientWorld s.toClient sent)
      (htoDaemon : s.toDaemon = [])
      (hd : Ready P loops s.daemon s.kernel (kernelNext P (kernelAfter P s.history) c w)) :
      Stage P s loops
  | early {t : ℕ} {c : Call} {w : W} {p : ClientProg} (lr : List UInt8)
      (hs : s.holder = .held t c w p) (hquiet : ¬c.Quiet P.world w) (hq : c.request.Fits)
      (hsized : c.request.Sized) (hdrains : Drains P.call c.request (kernelAfter P s.history))
      (hask : c.request.bytes = s.toDaemon ++ lr)
      (hsafe : SocketM.Safe P.world false
        (fun x _ i o => i = [] ∧ o = c.request.bytes ∧ Owed P s.history c w x) p s.clientWorld
        (serve P.call c.request (kernelAfter P s.history)).1.bytes s.toDaemon)
      (hphased : p.Phased SocketAct.NotRecv SocketAct.NotSend) (htoClient : s.toClient = [])
      (hd : Finishing P s.daemon s.kernel (kernelAfter P s.history)) : Stage P s 2
  | exchanging {t : ℕ} {c : Call} {w : W} {p : ClientProg} (ls lr rs rr : List UInt8)
      (hs : s.holder = .held t c w p) (hquiet : ¬c.Quiet P.world w)
      (hx : Talking P s.history c w
        ⟨p, s.clientWorld, s.daemon, s.kernel, s.toDaemon, s.toClient⟩ ls lr rs rr) : Stage P s 1

/-- Between two requests nothing is left of the last one. -/
theorem Stage.free_inv {s : Session K W} {loops : ℕ} (h : Stage P s loops) {endpoint : Endpoint}
    (hs : s.holder = .free endpoint) :
    endpoint.Idle ∧ s.toDaemon = [] ∧ s.toClient = [] ∧
      ∃ loops, Ready P loops s.daemon s.kernel (kernelAfter P s.history) := by
  cases h with
  | free hs' hidle htoDaemon htoClient hd =>
    obtain rfl := Holder.free.inj (hs.symm.trans hs')
    exact ⟨hidle, htoDaemon, htoClient, loops, hd⟩
  | alone _ hs' => rw [hs] at hs'; cases hs'
  | early _ hs' => rw [hs] at hs'; cases hs'
  | exchanging _ _ _ _ hs' => rw [hs] at hs'; cases hs'

/-- **The invariant of a session.** -/
structure Inv (P : Setup K W) (s : Session K W) : Prop where
  stage : ∃ loops, Stage P s loops
  faithful : Faithful P s.history

variable {s s' : Session K W}

theorem Inv.of_fresh (h : Fresh P s) : Inv P s where
  stage := by
    obtain ⟨endpoint, hs, hidle⟩ := h.holder
    obtain ⟨rwBuffer, endpoint', hd, hidle'⟩ := h.daemon
    refine ⟨0, .free hs hidle h.toDaemon h.toClient
      (Or.inr ⟨rfl, rwBuffer, endpoint', hd, hidle', ?_⟩)⟩
    rw [h.kernel, h.history]
    rfl
  faithful := by
    intro before e after heq
    rw [h.history] at heq
    simp at heq

theorem kernelNext_of_not_quiet {c : Call} {w : W} (hquiet : ¬c.Quiet P.world w) (k : K) :
    kernelNext P k c w = (serve P.call c.request k).2 :=
  if_neg hquiet

/-- The daemon takes up a request of which some bytes have been sent already. -/
theorem Talking.start {history : List (Completed W)} {c : Call} {w v : W}
    (hquiet : ¬c.Quiet P.world w) (hq : c.request.Fits) (hsized : c.request.Sized)
    (hdrains : Drains P.call c.request (kernelAfter P history)) {p : ClientProg}
    {ls lr : List UInt8} (hask : c.request.bytes = ls ++ lr)
    (hsafe : SocketM.Safe P.world false
      (fun x _ i o => i = [] ∧ o = c.request.bytes ∧ Owed P history c w x) p v
      (serve P.call c.request (kernelAfter P history)).1.bytes ls)
    (hphased : p.Phased SocketAct.NotRecv SocketAct.NotSend)
    {d : DaemonProg} {k : K} (hd : Waiting P d k (kernelAfter P history)) {toClient : List UInt8}
    (htoClient : toClient = []) :
    Talking P history c w ⟨p, v, d, k, ls, toClient⟩ ls lr []
      (serve P.call c.request (kernelAfter P history)).1.bytes := by
  obtain ⟨rwBuffer, endpoint, rfl, hidle, rfl⟩ := hd
  subst htoClient
  refine ⟨hask, rfl, hsafe, ?_, hphased, ?_, fun h => absurd rfl h⟩
  · rw [kernelNext_of_not_quiet hquiet, ← hask]
    exact safe_round hq hsized hdrains hidle
  · exact StreamM.compile_phased_of_readsThenWrites
      (ClientHandler.handleMessage_readsThenWrites _ _) _

/-! ## Every step keeps the invariant -/

/-- A thread takes the mutex. -/
theorem Stage.acquire {loops : ℕ} (h : Stage P s loops) {endpoint : Endpoint}
    (hs : s.holder = .free endpoint) (t : ℕ) {c : Call} {w : W} {rounds : ℕ}
    (hc : Admissible P s.history c w rounds) :
    ∃ loops', Stage P { s with
      holder := .held t c w (StreamM.compile (c.locked P.clientHost rounds) endpoint)
      clientWorld := w } loops' := by
  cases h with
  | free hs' hidle htoDaemon htoClient hd =>
    obtain rfl := Holder.free.inj (hs.symm.trans hs')
    by_cases hquiet : c.Quiet P.world w
    · refine ⟨loops, .alone [] rfl ?_ htoDaemon ?_⟩
      · rw [htoClient]
        exact safe_locked_of_quiet hquiet hidle s.history rounds
      · rw [kernelNext, if_pos hquiet]
        exact hd
    · obtain ⟨hq, hsized, hdrains, hleg⟩ := hc.resolve_left hquiet
      have hsafe := safe_locked hquiet hidle hq hsized hleg htoDaemon
      have hphased := StreamM.compile_phased_of_writesThenReads
        (c.locked_writesThenReads P.clientHost rounds) endpoint
      have hask : c.request.bytes = s.toDaemon ++ c.request.bytes := by
        rw [htoDaemon, List.nil_append]
      rcases hd with ⟨-, hf⟩ | ⟨-, hw⟩
      · exact ⟨2, .early _ rfl hquiet hq hsized hdrains hask hsafe hphased htoClient hf⟩
      · exact ⟨1, .exchanging _ _ _ _ rfl hquiet
          (Talking.start hquiet hq hsized hdrains hask hsafe hphased hw htoClient)⟩
  | alone _ hs' => rw [hs] at hs'; cases hs'
  | early _ hs' => rw [hs] at hs'; cases hs'
  | exchanging _ _ _ _ hs' => rw [hs] at hs'; cases hs'

/-- The holder of the mutex moves. -/
theorem Stage.client {loops : ℕ} (h : Stage P s loops) {t : ℕ} {c : Call} {w : W}
    {p p' : ClientProg} {v' : W}
    {toClient' toDaemon' : List UInt8} (hs : s.holder = .held t c w p)
    (hp : PartyStep P.world (p, s.clientWorld, s.toClient, s.toDaemon)
      (p', v', toClient', toDaemon')) :
    Stage P { s with
      holder := .held t c w p', clientWorld := v', toClient := toClient', toDaemon := toDaemon' }
      loops := by
  cases h with
  | free hs' => rw [hs] at hs'; cases hs'
  | alone sent hs' hsafe htoDaemon hd =>
    obtain ⟨rfl, rfl, rfl, rfl⟩ := Holder.held.inj (hs.symm.trans hs')
    obtain ⟨bs, ho, hsafe'⟩ := hp.safe [] (by rwa [List.append_nil])
    obtain ⟨rest, hrest⟩ := hsafe'.isPrefix_of_post fun _ _ _ _ hq => hq.2.1
    -- all it had to send has been sent
    obtain rfl : bs = [] := by
      rw [List.append_assoc, List.self_eq_append_right] at hrest
      exact (List.append_eq_nil_iff.mp hrest).1
    rw [List.append_nil, List.append_nil] at hsafe'
    refine .alone sent rfl hsafe' ?_ hd
    rw [ho, htoDaemon]
    rfl
  | early lr hs' hquiet hq hsized hdrains hask hsafe hphased htoClient hd =>
    obtain ⟨rfl, rfl, rfl, rfl⟩ := Holder.held.inj (hs.symm.trans hs')
    obtain ⟨bs, ho, hsafe'⟩ := hp.safe _ (by rw [htoClient]; exact hsafe)
    obtain ⟨lr', hlr'⟩ := hsafe'.isPrefix_of_post fun _ _ _ _ hq => hq.2.1
    have hin : toClient' = [] := hp.input_eq_nil htoClient
    rw [← ho] at hlr' hsafe'
    refine .early lr' rfl hquiet hq hsized hdrains hlr' ?_ (hp.phased hphased) hin hd
    rw [hin] at hsafe'
    exact hsafe'
  | exchanging ls lr rs rr hs' hquiet hx =>
    obtain ⟨rfl, rfl, rfl, rfl⟩ := Holder.held.inj (hs.symm.trans hs')
    obtain ⟨ls', lr', rs', rr', hx'⟩ := hx.step (.left hp)
    exact .exchanging ls' lr' rs' rr' rfl hquiet hx'

/-- The daemon moves. -/
theorem Stage.daemon {loops : ℕ} (h : Stage P s loops) {d' : DaemonProg} {k' : K}
    {toDaemon' toClient' : List UInt8}
    (hp : PartyStep P.call (s.daemon, s.kernel, s.toDaemon, s.toClient)
      (d', k', toDaemon', toClient')) :
    Stage P { s with
      daemon := d', kernel := k', toDaemon := toDaemon', toClient := toClient' } loops := by
  cases h with
  | free hs hidle htoDaemon htoClient hd =>
    obtain ⟨hd', hi, ho⟩ := hd.step htoDaemon hp
    exact .free hs hidle hi (ho.trans htoClient) hd'
  | alone sent hs hsafe htoDaemon hd =>
    obtain ⟨hd', hi, ho⟩ := hd.step htoDaemon hp
    refine .alone sent hs ?_ hi hd'
    rw [ho]
    exact hsafe
  | early lr hs hquiet hq hsized hdrains hask hsafe hphased htoClient hd =>
    obtain ⟨hd', hi, ho⟩ := hd.step hp
    refine .early lr hs hquiet hq hsized hdrains ?_ ?_ hphased (ho.trans htoClient) hd'
    · rw [hi]
      exact hask
    · rw [hi]
      exact hsafe
  | exchanging ls lr rs rr hs hquiet hx =>
    obtain ⟨ls', lr', rs', rr', hx'⟩ := hx.step (.right hp)
    exact .exchanging ls' lr' rs' rr' hs hquiet hx'

/-- The daemon goes round its loop. -/
theorem Stage.loop {loops : ℕ} (h : Stage P s loops) {rwBuffer : List UInt8} {endpoint : Endpoint}
    (hd : s.daemon = .ret (.ok (some rwBuffer), endpoint)) :
    ∃ loops' < loops, Stage P { s with daemon := round P rwBuffer endpoint } loops' := by
  cases h with
  | free hs hidle htoDaemon htoClient hr =>
    rw [hd] at hr
    obtain ⟨rfl, hr'⟩ := hr.loop
    exact ⟨0, Nat.one_pos, .free hs hidle htoDaemon htoClient hr'⟩
  | alone sent hs hsafe htoDaemon hr =>
    rw [hd] at hr
    obtain ⟨rfl, hr'⟩ := hr.loop
    exact ⟨0, Nat.one_pos, .alone sent hs hsafe htoDaemon hr'⟩
  | early lr hs hquiet hq hsized hdrains hask hsafe hphased htoClient hf =>
    rw [hd] at hf
    exact ⟨1, Nat.one_lt_two, .exchanging _ _ _ _ hs hquiet
      (Talking.start hquiet hq hsized hdrains hask hsafe hphased hf.loop htoClient)⟩
  | exchanging ls lr rs rr hs hquiet hx =>
    -- the daemon is done with this request, so all that is left is for the client to read
    obtain ⟨hask, hans, hls, hrs, -, -, -⟩ := hx
    rw [hd] at hrs
    obtain ⟨hin, hout, hbuf, hidle, hk⟩ := hrs
    obtain ⟨htoDaemon, rfl⟩ := List.append_eq_nil_iff.mp hin
    obtain rfl : rr = [] := by rwa [hout, List.self_eq_append_right] at hans
    rw [List.append_nil] at hask hls
    rw [← hask] at hls
    exact ⟨0, Nat.one_pos,
      .alone _ hs hls htoDaemon (Or.inr ⟨rfl, rwBuffer, endpoint, rfl, hidle, hk⟩)⟩

/-- The method ends: what it returns is what it was owed, and nothing is left of the exchange. -/
theorem Stage.release {loops : ℕ} (h : Stage P s loops) {t : ℕ} {c : Call} {w : W}
    {result : Except Exn Reply} {endpoint : Endpoint}
    (hs : s.holder = .held t c w (.ret (result, endpoint))) :
    Owed P s.history c w (result, endpoint) ∧
      Stage P { s with
        holder := .free endpoint, history := s.history ++ [⟨t, c, w, result⟩] } loops := by
  cases h with
  | free hs' => rw [hs] at hs'; cases hs'
  | alone sent hs' hsafe htoDaemon hd =>
    obtain ⟨rfl, rfl, rfl, rfl⟩ := Holder.held.inj (hs.symm.trans hs')
    obtain ⟨htoClient, -, howed⟩ := hsafe
    refine ⟨howed, .free rfl howed.1 htoDaemon htoClient ?_⟩
    rw [kernelAfter_append]
    exact hd
  | early lr hs' hquiet hq hsized hdrains hask hsafe hphased htoClient hd =>
    obtain ⟨rfl, rfl, rfl, rfl⟩ := Holder.held.inj (hs.symm.trans hs')
    exact (Response.bytes_ne_nil _ hsafe.1).elim
  | exchanging ls lr rs rr hs' hquiet hx =>
    obtain ⟨rfl, rfl, rfl, rfl⟩ := Holder.held.inj (hs.symm.trans hs')
    obtain ⟨htoDaemon, htoClient, howed, hall, hsafe⟩ :=
      hx.left_done (Response.bytes_ne_nil _) rfl
    refine ⟨howed, .free rfl howed.1 htoDaemon htoClient (Or.inl ⟨rfl, ?_⟩)⟩
    rw [kernelAfter_append]
    exact ⟨hall, _, hsafe⟩

/-- **Every step keeps the invariant.** -/
theorem Inv.work (h : Inv P s) (hw : Work P s s') : Inv P s' := by
  obtain ⟨⟨loops, hstage⟩, hfaith⟩ := h
  cases hw with
  | client hs hp => exact ⟨⟨loops, hstage.client hs hp⟩, hfaith⟩
  | daemon hp => exact ⟨⟨loops, hstage.daemon hp⟩, hfaith⟩
  | loop hd =>
    obtain ⟨loops', -, hstage'⟩ := hstage.loop hd
    exact ⟨⟨loops', hstage'⟩, hfaith⟩
  | release hs =>
    obtain ⟨howed, hstage'⟩ := hstage.release hs
    exact ⟨⟨loops, hstage'⟩, forall_split_append hfaith howed.2⟩

variable {Allowed : List (Completed W) → Call → W → ℕ → Prop}

theorem Inv.step (hA : ∀ history c w rounds, Allowed history c w rounds →
    Admissible P history c w rounds) (h : Inv P s) (hst : Step P Allowed s s') : Inv P s' := by
  cases hst with
  | work hw => exact h.work hw
  | acquire hs t c w rounds hc =>
    obtain ⟨loops, hstage⟩ := h.stage
    exact ⟨hstage.acquire hs t (hA _ _ _ _ hc), h.faithful⟩

/-- **The invariant holds in every reachable state.** -/
theorem Inv.of_reachable (hA : ∀ history c w rounds, Allowed history c w rounds →
    Admissible P history c w rounds) {s₀ : Session K W} (h₀ : Fresh P s₀)
    (hrun : Relation.ReflTransGen (Step P Allowed) s₀ s) : Inv P s := by
  induction hrun with
  | refl => exact Inv.of_fresh h₀
  | tail _ hst ih => exact ih.step hA hst

/-- Every call that was made was allowed when it was made. -/
structure Made (Allowed : List (Completed W) → Call → W → ℕ → Prop) (s : Session K W) : Prop where
  completed : ∀ before e after, s.history = before ++ e :: after →
    ∃ rounds, Allowed before e.call e.start rounds
  current : ∀ t c w p, s.holder = .held t c w p → ∃ rounds, Allowed s.history c w rounds

theorem Made.of_reachable {s₀ : Session K W} (h₀ : Fresh P s₀)
    (hrun : Relation.ReflTransGen (Step P Allowed) s₀ s) : Made Allowed s := by
  induction hrun with
  | refl =>
    refine ⟨fun before e after heq => ?_, fun t c w p hs => ?_⟩
    · rw [h₀.history] at heq
      simp at heq
    · obtain ⟨endpoint, hs', -⟩ := h₀.holder
      rw [hs] at hs'
      cases hs'
  | tail _ hst ih =>
    cases hst with
    | work hw =>
      cases hw with
      | client hs hp =>
        refine ⟨ih.completed, fun t c w p hs' => ?_⟩
        obtain ⟨rfl, rfl, rfl, rfl⟩ := Holder.held.inj hs'
        exact ih.current _ _ _ _ hs
      | daemon hp => exact ⟨ih.completed, ih.current⟩
      | loop hd => exact ⟨ih.completed, ih.current⟩
      | release hs =>
        refine ⟨forall_split_append ih.completed (ih.current _ _ _ _ hs), fun t c w p hs' => ?_⟩
        cases hs'
    | acquire hs t c w rounds hc =>
      refine ⟨ih.completed, fun t c w p hs' => ?_⟩
      obtain ⟨rfl, rfl, rfl, rfl⟩ := Holder.held.inj hs'
      exact ⟨rounds, hc⟩

/-! ## Every request comes to its end

The steps of the two programs move one of them to a subtree; every other step of a request is a
round of the daemon's loop, of which there are at most two, or the release. -/

/-- The two programs and what is between them.  When nobody holds the mutex the client's program is
one that does nothing. -/
def duplex (s : Session K W) : Duplex ConnAct ConnAct.Res (Except Exn Reply × Endpoint) W
    Syscall Syscall.Res (Except Exn (Option (List UInt8)) × Endpoint) K where
  left := match s.holder with
    | .free endpoint => .ret (.error .eof, endpoint)
    | .held _ _ _ p => p
  leftWorld := s.clientWorld
  right := s.daemon
  rightWorld := s.kernel
  toRight := s.toDaemon
  toLeft := s.toClient

/-- The steps that the mutex has yet to be released by. -/
def holds (s : Session K W) : ℕ :=
  match s.holder with
  | .free _ => 0
  | .held _ _ _ _ => 1

/-- **No run of a request is infinite.** -/
theorem Stage.acc {loops : ℕ} (h : Stage P s loops) : Acc (fun y x => Work P x y) s := by
  induction hn : loops + s.holds using Nat.strong_induction_on generalizing s loops with
  | _ n ih =>
    subst hn
    have hacc := Duplex.acc_step P.world P.call s.duplex
    generalize hx : s.duplex = x at hacc
    induction hacc generalizing s with
    | intro x _ ihx =>
      subst hx
      refine Acc.intro _ fun y hy => ?_
      cases hy with
      | @client t c w p p' v' toClient' toDaemon' hs hp =>
        have hstep : Duplex.Step P.world P.call s.duplex
            ⟨p', v', s.daemon, s.kernel, toDaemon', toClient'⟩ := by
          rw [duplex, hs]
          exact .left hp
        have hholds : s.holds = 1 := by rw [holds, hs]
        rw [hholds] at ih
        exact ihx _ hstep (h.client hs hp) ih rfl
      | daemon hp => exact ihx _ (.right hp) (h.daemon hp) ih rfl
      | loop hd =>
        obtain ⟨loops', hlt, hstage⟩ := h.loop hd
        exact ih _ (Nat.add_lt_add_right hlt _) hstage rfl
      | release hs =>
        obtain ⟨-, hstage⟩ := h.release hs
        refine ih _ ?_ hstage rfl
        rw [holds, holds, hs]
        exact Nat.lt_succ_self _

/-- **No deadlock**: while the mutex is held, something can move. -/
theorem Stage.progress {loops : ℕ} (h : Stage P s loops) {t : ℕ} {c : Call} {w : W}
    {p : ClientProg} (hs : s.holder = .held t c w p) : ∃ s', Work P s s' := by
  -- a method that has ended releases the mutex
  cases p with
  | ret x => exact ⟨_, .release hs⟩
  | fail e => exact e.elim
  | act e cont =>
    cases h with
    | free hs' => rw [hs] at hs'; cases hs'
    | alone sent hs' hsafe htoDaemon hd =>
      obtain ⟨rfl, rfl, rfl, rfl⟩ := Holder.held.inj (hs.symm.trans hs')
      have hmove : ∃ y, PartyStep P.world
          (.act e cont, s.clientWorld, s.toClient, s.toDaemon) y := by
        by_cases he : e.NotRecv
        · exact Duplex.exists_step_of_notRecv hsafe he
        · cases e with
          | send bs => exact (he trivial).elim
          | call e => exact (he trivial).elim
          | recv n =>
            -- it is owed more bytes, and they have all been sent
            have hne : s.toClient ≠ [] := fun h0 => Bool.false_ne_true (hsafe.2.1 h0).1
            exact Duplex.exists_step_of_recv P.world hsafe.1 hne
      obtain ⟨⟨p', v', i', o'⟩, hp⟩ := hmove
      exact ⟨_, .client hs hp⟩
    | early lr hs' hquiet hq hsized hdrains hask hsafe hphased htoClient hd =>
      rcases hd.progress s.toDaemon s.toClient with
        ⟨rwBuffer, endpoint, hret⟩ | ⟨⟨d', k', i', o'⟩, hp⟩
      · exact ⟨_, .loop hret⟩
      · exact ⟨_, .daemon hp⟩
    | exchanging ls lr rs rr hs' hquiet hx =>
      obtain ⟨rfl, rfl, rfl, rfl⟩ := Holder.held.inj (hs.symm.trans hs')
      rcases hx.progress with ⟨a, ha⟩ | ⟨y, hy⟩
      · cases ha
      · cases hy with
        | left hp => exact ⟨_, .client hs hp⟩
        | right hp => exact ⟨_, .daemon hp⟩

/-- Every method comes to its end while it holds the mutex. -/
theorem Inv.exists_ended (h : Inv P s) {t : ℕ} {c : Call} {w : W} {p : ClientProg}
    (hs : s.holder = .held t c w p) :
    ∃ s' result endpoint,
      Relation.ReflTransGen (fun x y => Work P x y ∧ y.history = x.history) s s' ∧
      s'.holder = .held t c w (.ret (result, endpoint)) := by
  obtain ⟨loops, hstage⟩ := h.stage
  induction hstage.acc generalizing p loops with
  | intro s _ ih =>
    obtain ⟨s₁, hw⟩ := hstage.progress hs
    have h₁ := h.work hw
    obtain ⟨loops₁, hstage₁⟩ := h₁.stage
    have next (hs₁ : ∃ p₁, s₁.holder = .held t c w p₁) (hhistory : s₁.history = s.history) :
        ∃ s' result endpoint,
          Relation.ReflTransGen (fun x y => Work P x y ∧ y.history = x.history) s s' ∧
          s'.holder = .held t c w (.ret (result, endpoint)) := by
      obtain ⟨p₁, hs₁⟩ := hs₁
      obtain ⟨s', result, endpoint, hrun, hs'⟩ := ih s₁ hw h₁ hs₁ loops₁ hstage₁
      exact ⟨s', result, endpoint, hrun.head ⟨hw, hhistory⟩, hs'⟩
    cases hw with
    | client hs' hp =>
      obtain ⟨rfl, rfl, rfl, rfl⟩ := Holder.held.inj (hs.symm.trans hs')
      exact next ⟨_, rfl⟩ rfl
    | daemon hp => exact next ⟨p, hs⟩ rfl
    | loop hd => exact next ⟨p, hs⟩ rfl
    | release hs' =>
      obtain ⟨rfl, rfl, rfl, rfl⟩ := Holder.held.inj (hs.symm.trans hs')
      exact ⟨s, _, _, .refl, hs⟩

/-- **Every request can be completed**, whatever has happened to it so far. -/
theorem Inv.completes (h : Inv P s) {t : ℕ} {c : Call} {w : W} {p : ClientProg}
    (hs : s.holder = .held t c w p) :
    ∃ s' result endpoint, Relation.ReflTransGen (Work P) s s' ∧ s'.holder = .free endpoint ∧
      s'.history = s.history ++ [⟨t, c, w, result⟩] := by
  obtain ⟨s', result, endpoint, hrun, hs'⟩ := h.exists_ended hs
  have hhistory : s'.history = s.history :=
    Runs.invariant (P := fun x => x.history = s.history) (fun _ _ hx hst => hst.2.trans hx) rfl hrun
  refine ⟨_, result, endpoint, (hrun.lift id fun _ _ hst => hst.1).tail (.release hs'), rfl, ?_⟩
  exact congrArg (· ++ [_]) hhistory

/-- A thread can make a call that is allowed, and the call is completed. -/
theorem Inv.exists_call (hA : ∀ history c w rounds, Allowed history c w rounds →
    Admissible P history c w rounds) (h : Inv P s) {endpoint : Endpoint}
    (hs : s.holder = .free endpoint) (t : ℕ) {c : Call} {w : W} {rounds : ℕ}
    (hc : Allowed s.history c w rounds) :
    ∃ s' result endpoint', Relation.ReflTransGen (Step P Allowed) s s' ∧
      s'.holder = .free endpoint' ∧ s'.history = s.history ++ [⟨t, c, w, result⟩] := by
  have hacquire : Step P Allowed s _ := .acquire hs t c w rounds hc
  obtain ⟨s', result, endpoint', hwork, hfree, hhistory⟩ := (h.step hA hacquire).completes rfl
  exact ⟨s', result, endpoint', (reachable_of_work hwork).head hacquire, hfree, hhistory⟩

/-! ## Every request but a write -/

/-- A call that the session can always serve, if the device names its files in UTF-8: its request
is not a write, its paths and lengths are within the bounds of the protocol, and the bound on the
loop over a listing is beyond the listing that comes. -/
structure Ordinary (P : Setup K W) (history : List (Completed W)) (c : Call) (w : W)
    (rounds : ℕ) : Prop where
  not_write : ¬c.request.IsWrite
  fits : c.request.Fits
  sized : c.request.Sized
  bound : ∀ items, (serve P.call c.request (kernelAfter P history)).1 = .listing items →
    items.length < rounds

/-- The two ends of a request agree to the byte, whatever follows on the stream: the daemon takes
exactly the request and sends exactly the response, the client sends exactly the request, takes
exactly the response and makes of it what the daemon meant. -/
def Agree (P : Setup K W) (c : Call) (w : W) (rounds : ℕ) (k : K) : Prop :=
  (∀ (rwBuffer : List UInt8) (closed : Bool) (v : View K) (rest : List UInt8),
    v.inflow = c.request.bytes ++ rest → v.world = k → ∃ rwBuffer',
      StreamM.run P.call closed (ClientHandler.handleMessage P.daemonHost rwBuffer) v =
        (.done (some rwBuffer'), ⟨rest, v.outflow ++ (serve P.call c.request k).1.bytes, true,
          (serve P.call c.request k).2⟩)) ∧
    ∃ w', StreamM.Exchanges P.world (c.locked P.clientHost rounds) w c.request.bytes
      (serve P.call c.request k).1.bytes (serve P.call c.request k).1.reply w'

/-- The names that `readdir` gives are UTF-8. -/
def NamesDecode (call : Kernel K) : Prop :=
  ∀ path k names, (call (.opendir path) k).1 = .ok names →
    ∀ name ∈ names, (utf8Decode? name.1).isSome

theorem converts_of_mem_listItems {call : Kernel K} {directoryPath : ByteString}
    {names : List EntryName} (hnames : ∀ name ∈ names, (utf8Decode? name.1).isSome) (k : K) :
    ∀ item ∈ (listItems call directoryPath names k).1, item.Converts := by
  induction names generalizing k with
  | nil =>
    intro item hitem
    cases hitem
  | cons name names ih =>
    intro item hitem
    rcases List.mem_cons.mp hitem with rfl | hrest
    · rcases (call (.stat (cStr (getFullPath directoryPath name.1))) k).1 with e | posixStat
      · trivial
      · exact ListItem.converts_entry.mpr (hnames name List.mem_cons_self)
    · exact ih (fun n hn => hnames n (List.mem_cons_of_mem _ hn)) _ item hrest

theorem legible_serve {call : Kernel K} (hnames : NamesDecode call) {q : Request} {k : K}
    {rounds : ℕ} (hbound : ∀ items, (serve call q k).1 = .listing items → items.length < rounds) :
    (serve call q k).1.Legible rounds := by
  cases q with
  | listDirectory path =>
    rcases hdir : (call (.opendir (cStr path)) k).1 with e | names
    · simp only [serve, hdir]
      trivial
    · simp only [serve, hdir] at hbound ⊢
      exact ⟨hbound _ rfl, converts_of_mem_listItems (hnames _ _ _ hdir) _⟩
  | _ =>
    refine Response.legible_of_answers (fun path heq => ?_) (serve_answers _ _ _) _
    cases heq

theorem drains_of_not_isWrite {call : Kernel K} {q : Request} (hq : ¬q.IsWrite) (k : K) :
    Drains call q k := by
  cases q with
  | writeHandle handle offset data => exact (hq trivial).elim
  | _ => trivial

theorem Ordinary.admissible (hnames : NamesDecode P.call) {history : List (Completed W)} {c : Call}
    {w : W} {rounds : ℕ} (h : Ordinary P history c w rounds) :
    Admissible P history c w rounds :=
  Or.inr ⟨h.fits, h.sized, drains_of_not_isWrite h.not_write _, legible_serve hnames h.bound⟩

theorem Ordinary.agree (hnames : NamesDecode P.call) {history : List (Completed W)} {c : Call}
    {w : W} {rounds : ℕ} (h : Ordinary P history c w rounds) (hquiet : ¬c.Quiet P.world w) :
    Agree P c w rounds (kernelAfter P history) := by
  constructor
  · intro rwBuffer closed v rest hin hw
    exact run_handleMessage P.daemonHost h.fits h.sized rwBuffer
      (drains_of_not_isWrite h.not_write _) closed hin hw
  · exact c.exchanges_locked P.clientHost hquiet h.fits h.sized (serve_answers _ _ _)
      (legible_serve hnames h.bound)

/-- **The two sides stay in step.**  In every session of ordinary calls, by any threads in any
order, with every outcome of the system calls and every way of the sockets to cut the data: the two
ends agree on every request to the byte, whenever the mutex is free nothing unread is left in
either direction, every method that asked the daemon has got the answer to its own request, and
every request comes to its end. -/
theorem ordinary_in_step (hnames : NamesDecode P.call) {s₀ s : Session K W} (h₀ : Fresh P s₀)
    (hrun : Relation.ReflTransGen (Step P (Ordinary P)) s₀ s) :
    (∀ history c w rounds, Ordinary P history c w rounds → ¬c.Quiet P.world w →
      Agree P c w rounds (kernelAfter P history)) ∧
    (∀ endpoint, s.holder = .free endpoint → endpoint.Idle ∧ s.toDaemon = [] ∧ s.toClient = [] ∧
      ∃ loops, Ready P loops s.daemon s.kernel (kernelAfter P s.history)) ∧
    Faithful P s.history ∧
    Acc (fun y x => Work P x y) s ∧
    (∀ t c w p, s.holder = .held t c w p → ∃ s', Work P s s') := by
  have hinv := Inv.of_reachable (fun _ _ _ _ h => h.admissible hnames) h₀ hrun
  obtain ⟨loops, hstage⟩ := hinv.stage
  refine ⟨fun _ _ _ _ h hquiet => h.agree hnames hquiet, ?_, hinv.faithful, hstage.acc,
    fun t c w p hs => hstage.progress hs⟩
  intro endpoint hs
  exact hstage.free_inv hs

/-- A device on which nothing works and a client that has nothing cached. -/
def idleSetup : Setup Unit Unit where
  clientHost := .windows
  daemonHost := .unix .little
  call := Kernel.failing .enoent
  kernel₀ := ()
  world := uncached

theorem namesDecode_failing : NamesDecode (Kernel.failing .enoent) := by
  intro path k names h
  cases h

/-- A client of the device with two files that has nothing cached. -/
def twoFilesSetup : Setup Bool Unit where
  clientHost := .windows
  daemonHost := .unix .little
  call := Kernel.twoFiles
  kernel₀ := false
  world := uncached

theorem namesDecode_twoFiles : NamesDecode Kernel.twoFiles := by
  intro path k names h
  obtain rfl := Except.ok.inj h
  decide

/-- Two bytes can be written, whether a file is open or not. -/
theorem admissible_write_twoFiles (history : List (Completed Unit)) :
    Admissible twoFilesSetup history (.writeToFile 3 1 ⟨[8, 9], by decide⟩) () 0 :=
  .inr ⟨by decide, (by decide : ([8, 9] : List UInt8).length < 2 ^ 31), .inl rfl, trivial⟩

/-- Two bytes can be read. -/
theorem admissible_read_twoFiles (history : List (Completed Unit)) :
    Admissible twoFilesSetup history (.readFromFile 3 0 2) () 0 :=
  .inr ⟨by decide, (by decide : (2 : UInt32).toNat < 2 ^ 31), trivial, trivial⟩

/-- One thread lists the root, and another looks at the file that the listing has left out. -/
theorem ordinary_in_step_twoThreads : ∃ s : Session Bool Unit,
    Relation.ReflTransGen (Step twoFilesSetup (Ordinary twoFilesSetup)) (start twoFilesSetup ()) s ∧
      s.history = [⟨0, .listFileStats [92], (), .ok (.listing [([97], ⟨0x81A4, 5, 0, 7⟩)])⟩,
        ⟨1, .statFile [92, 98], (), .ok (.status .accessDenied)⟩] ∧
      s.toDaemon = [] ∧ s.toClient = [] := by
  have hA := fun history c w rounds (h : Ordinary twoFilesSetup history c w rounds) =>
    h.admissible namesDecode_twoFiles
  have hlist : Ordinary twoFilesSetup [] (.listFileStats [92]) () 3 := by
    refine ⟨id, by decide, trivial, ?_⟩
    intro items hitems
    obtain rfl := Response.listing.inj hitems
    decide
  have hstat (history : List (Completed Unit)) :
      Ordinary twoFilesSetup history (.statFile [92, 98]) () 0 := by
    refine ⟨id, by decide, trivial, ?_⟩
    intro items hitems
    cases hitems
  have hfresh := fresh_start twoFilesSetup ()
  obtain ⟨s₁, result₁, endpoint₁, hrun₁, hfree₁, hhistory₁⟩ :=
    (Inv.of_fresh hfresh).exists_call hA rfl 0 hlist
  obtain ⟨s, result, endpoint, hrun₂, hfree, hhistory⟩ :=
    (Inv.of_reachable hA hfresh hrun₁).exists_call hA hfree₁ 1 (hstat _)
  have hrun := hrun₁.trans hrun₂
  obtain ⟨-, hempty, hfaith, -, -⟩ := ordinary_in_step namesDecode_twoFiles hfresh hrun
  rw [hhistory₁] at hhistory
  obtain ⟨-, htoDaemon, htoClient, -⟩ := hempty endpoint hfree
  have hlisted : result₁ = .ok (.listing [([97], ⟨0x81A4, 5, 0, 7⟩)]) :=
    hfaith [] _ _ hhistory id
  have hasked : ¬(Call.statFile [92, 98]).Quiet twoFilesSetup.world () := by decide
  have hseen : result = .ok (.status .accessDenied) := hfaith [_] _ [] hhistory hasked
  refine ⟨s, hrun, ?_, htoDaemon, htoClient⟩
  rw [hhistory, hlisted, hseen]
  rfl

end Session

end NandroidFS
