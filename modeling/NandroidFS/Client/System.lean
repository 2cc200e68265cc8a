import NandroidFS.Daemon.Serve
import NandroidFS.Client.TimedCache

/-!
# Many threads, two caches and a daemon

The client as the file system drives it: any number of threads are inside methods of one
`Connection`, each somewhere in its program.  A step of the system is one action of one thread, so
look-ups happen between any two actions of a thread that holds `request_mutex`, and between the two
halves of an `invalidate`.

A flush sends what has been written, whatever that is, and the daemon goes on with it as far as it
can (`DaemonEnd.receive`).  Until the answer arrives the thread only waits, so executing a request
later is the same as flushing later.  Nothing makes sure that the connection is in step: the mutex
can be taken while an answer nobody has read is on its way, or part of a request nobody has sent is
in the buffer, and then a thread reads what was meant for another.  `System.InStep` says of a step
that it is not so.  An exchange is a flush of the request of the thread, and nothing else, to a
daemon that waits for a request; the daemon then does what `serve` says (`receive_of_inStep`), and
the exchange is appended to the log.  What a daemon does that is out of step is not in the log.
A send to a daemon that is gone loses the bytes; that it may raise as well is left out.

The history of a thread is its trace: the calls it made, with their answers, and the response to its
request.  Apart from it a thread carries the time at which it started and, as `executed`, the place
of its exchange in the log.  No program looks at these.

* `System.next`: one step, as a function.
* `System.Step`, `System.step_of_next`: everything one step can do.
* `System.Reachable`: the states of all runs whose steps satisfy a condition.
-/

namespace NandroidFS

/-- What a thread has done or learnt. -/
inductive Event where
  | call (e : ConnAct) (answer : e.Res)
  | exchange (response : Response)

namespace Event

/-- A look-up that found a value. -/
def Finds : Event → (key : Key) → key.Value → Prop
  | .call (.getStat path) answer, .stat path', stat => path = path' ∧ answer = some stat
  | .call (.getList path) answer, .list path', names => path = path' ∧ answer = some names
  | _, _, _ => False

/-- A call after which nothing is stored under the key. -/
def Clears : Event → Key → Prop
  | .call e answer, key => e.Clears answer key
  | .exchange _, _ => False

/-- The file name that was handed to `consume_stat`. -/
def handed? : Event → Option WString
  | .call (.consumeStat _ fileName) _ => some fileName
  | _ => none

end Event

/-- A request that the daemon has executed, with its response. -/
structure Exchange where
  request : Request
  response : Response
  deriving DecidableEq

/-- The names in a listing, as they are cached. -/
def Response.names : Response → List ByteString
  | .listing items => (items.filterMap ListItem.entry?).map Prod.fst
  | _ => []

/-- **The daemon produced this value for this key.**  A stat is produced by a request for it or as
part of a listing. -/
def Exchange.Gives : Exchange → (key : Key) → key.Value → Prop
  | ⟨.statFile path, .stat stat⟩, .stat path', stat' => path = path' ∧ stat = stat'
  | ⟨.listDirectory dir, .listing items⟩, .stat path, stat =>
      ∃ entry ∈ items.filterMap ListItem.entry?, getFullPath dir entry.1 = path ∧ entry.2 = stat
  | ⟨.listDirectory dir, .listing items⟩, .list dir', names =>
      dir = dir' ∧ (Response.listing items).names = names
  | _, _, _ => False

/-- A call of a method, as far as it has got. -/
structure Visit where
  call : Call
  started : ℕ
  executed : Option ℕ
  trace : List Event

/-- A thread inside a method. -/
structure Thread extends Visit where
  program : ConnM Reply

/-- A method that has returned or thrown. -/
structure Finished extends Visit where
  returned : ℕ
  result : Except Exn Reply

/-- Where `handle_messages` stands. -/
inductive DaemonEnd where
  /-- At the beginning of a round, of which nothing has arrived. -/
  | waiting (rwBuffer : List UInt8)
  /-- In a round that needs more than these bytes. -/
  | within (round : DaemonM (Option (List UInt8))) (unread : List UInt8)
  /-- Outside the loop; the socket is closed. -/
  | ended

/-- A connection, everyone who uses it, and the device behind it.  `clock` is `steady_clock`, and
`time` counts the calls and returns. -/
structure System (K : Type) where
  threads : ℕ → Option Thread
  holder : Option ℕ
  outgoing : List UInt8
  incoming : List UInt8
  daemon : DaemonEnd
  caches : Caches
  clock : ℕ
  kernel : K
  log : List Exchange
  finished : List Finished
  time : ℕ

/-- What can happen next. -/
inductive Action (K : Type) where
  /-- A thread calls a method. -/
  | start (t : ℕ) (c : Call) (rounds : ℕ)
  /-- A thread moves, which takes some time. -/
  | step (t : ℕ) (duration : ℕ)
  | wait (duration : ℕ)
  /-- Something else happens on the device. -/
  | device (kernel : K)

instance (q : Request) : Decidable q.Sized := by
  cases q <;> unfold Request.Sized <;> infer_instance

section Exchanging

variable {K : Type} (call : Kernel K)

instance (q : Request) (k : K) : Decidable (Drains call q k) := by
  cases q <;> unfold Drains <;> infer_instance

/-- The request fits the wire and leaves nothing behind on it. -/
def Request.InStep (q : Request) (k : K) : Prop :=
  q.Fits ∧ q.Sized ∧ Drains call q k

instance (q : Request) (k : K) : Decidable (q.InStep call k) :=
  inferInstanceAs (Decidable (_ ∧ _))

namespace DaemonEnd

def isWaiting : DaemonEnd → Bool
  | .waiting _ => true
  | _ => false

def isEnded : DaemonEnd → Bool
  | .ended => true
  | _ => false

variable (h' : Host)

/-- The loop goes on with this round until it needs bytes that have not arrived.  A round takes a
byte at least, so as many rounds as there are bytes, and one, are enough. -/
def goOn : (rounds : ℕ) → DaemonM (Option (List UInt8)) → View K → DaemonEnd × View K
  | 0, round, v => (.within round v.inflow, v)
  | rounds + 1, round, v =>
      match StreamM.advance call round v with
      | (.ret (some rwBuffer), v') =>
          if v'.inflow = [] then (.waiting rwBuffer, v')
          else goOn rounds (ClientHandler.handleMessage h' rwBuffer) v'
      | (.ret none, v') => (.ended, v')
      | (.fail _, v') => (.ended, v')
      | (.act e k, v') => (.within (.act e k) v'.inflow, v')

/-- These bytes arrive. -/
def receive (bs : List UInt8) (kernel : K) : DaemonEnd → DaemonEnd × View K
  | .waiting rwBuffer =>
      goOn call h' (bs.length + 1) (ClientHandler.handleMessage h' rwBuffer)
        ⟨bs, [], true, kernel⟩
  | .within round unread =>
      goOn call h' ((unread ++ bs).length + 1) round ⟨unread ++ bs, [], true, kernel⟩
  | .ended => (.ended, ⟨[], [], true, kernel⟩)

/-- **A request that is in step is one round of `handle_messages`**, after which the daemon waits
for the next. -/
theorem receive_of_inStep {q : Request} {kernel : K} (hq : q.InStep call kernel) {d : DaemonEnd}
    (hd : d.isWaiting = true) :
    ∃ rwBuffer, d.receive call h' q.bytes kernel =
      (.waiting rwBuffer,
        ⟨[], (serve call q kernel).1.bytes, true, (serve call q kernel).2⟩) := by
  obtain ⟨hfits, hsized, hdrains⟩ := hq
  cases d with
  | waiting rwBuffer =>
    have hin : q.bytes = q.bytes ++ [] := (List.append_nil _).symm
    obtain ⟨rwBuffer', hrun⟩ := run_handleMessage h' hfits hsized rwBuffer hdrains
      false (v := ⟨q.bytes, [], true, kernel⟩) hin rfl
    refine ⟨rwBuffer', ?_⟩
    rw [receive, goOn, StreamM.advance_of_run hrun]
    rfl
  | within round unread => cases hd
  | ended => cases hd

end DaemonEnd

end Exchanging

namespace System

variable {K : Type}

/-- A new connection. -/
def new (kernel : K) (clock : ℕ) : System K where
  threads := fun _ => none
  holder := none
  outgoing := []
  incoming := []
  daemon := .waiting []
  caches := .new clock
  clock := clock
  kernel := kernel
  log := []
  finished := []
  time := 0

/-- Replace a thread. -/
def setThread (s : System K) (t : ℕ) (th : Option Thread) : System K :=
  { s with threads := Function.update s.threads t th }

theorem setThread_self (s : System K) (t : ℕ) (th : Option Thread) :
    (s.setThread t th).threads t = th := by
  show Function.update s.threads t th t = th
  rw [Function.update_self]

theorem setThread_of_ne (s : System K) {t t' : ℕ} (hne : t' ≠ t) (th : Option Thread) :
    (s.setThread t th).threads t' = s.threads t' := by
  show Function.update s.threads t th t' = s.threads t'
  rw [Function.update_of_ne hne]

/-- The call can be made: the mutex can be taken when it is free. -/
def Permits (s : System K) : ConnAct → Prop
  | .lock => s.holder = none
  | _ => True

instance (s : System K) (e : ConnAct) : Decidable (s.Permits e) := by
  cases e <;> unfold Permits <;> infer_instance

/-- Who holds the mutex after a call of a thread. -/
def holderAfter (s : System K) (t : ℕ) : ConnAct → Option ℕ
  | .lock => some t
  | _ => s.holder

/-- The thread makes a call. -/
def performs (s : System K) (t : ℕ) (th : Thread) (e : ConnAct) (k : e.Res → ConnM Reply)
    (duration : ℕ) : System K :=
  let answer := Caches.perform s.clock (s.clock + duration) e s.caches
  { s.setThread t (some { th with
      trace := th.trace ++ [.call e answer.1], program := k answer.1 }) with
    caches := answer.2, clock := s.clock + duration, holder := s.holderAfter t e }

/-- What the thread is about to flush is its request and nothing else, and the daemon waits for
one. -/
def Asks (call : Kernel K) (s : System K) (th : Thread) : Prop :=
  s.daemon.isWaiting = true ∧ s.outgoing = th.call.request.bytes ∧
    th.call.request.InStep call s.kernel

instance (call : Kernel K) (s : System K) (th : Thread) : Decidable (s.Asks call th) :=
  inferInstanceAs (Decidable (_ ∧ _))

/-- What has been written reaches the daemon, which goes on. -/
def sends (h' : Host) (call : Kernel K) (s : System K) : System K :=
  let answer := s.daemon.receive call h' s.outgoing s.kernel
  { s with
    outgoing := [], incoming := s.incoming ++ answer.2.outflow, daemon := answer.1,
    kernel := answer.2.world }

/-- The thread, when the daemon has executed its request. -/
def hears (s : System K) (th : Thread) (response : Response) (k : Unit → ConnM Reply) : Thread :=
  { th with
    executed := some s.log.length, trace := th.trace ++ [.exchange response], program := k () }

/-- The thread flushes. -/
def flushes (h' : Host) (call : Kernel K) (s : System K) (t : ℕ) (th : Thread)
    (k : Unit → ConnM Reply) : System K :=
  if s.Asks call th then
    let response := (serve call th.call.request s.kernel).1
    { (s.sends h' call).setThread t (some (s.hears th response k)) with
      log := s.log ++ [⟨th.call.request, response⟩] }
  else (s.sends h' call).setThread t (some { th with program := k () })

/-- The thread flushes and the daemon executes its request. -/
def exchanges (call : Kernel K) (s : System K) (t : ℕ) (th : Thread) (k : Unit → ConnM Reply)
    (rwBuffer : List UInt8) : System K :=
  let answer := serve call th.call.request s.kernel
  { s.setThread t (some (s.hears th answer.1 k)) with
    outgoing := [], incoming := s.incoming ++ answer.1.bytes, daemon := .waiting rwBuffer,
    kernel := answer.2, log := s.log ++ [⟨th.call.request, answer.1⟩] }

theorem flushes_of_asks (h' : Host) {call : Kernel K} {s : System K} {t : ℕ} {th : Thread}
    (k : Unit → ConnM Reply) (hasks : s.Asks call th) :
    ∃ rwBuffer, s.flushes h' call t th k = s.exchanges call t th k rwBuffer := by
  obtain ⟨hwaits, hout, hstep⟩ := hasks
  obtain ⟨rwBuffer, hreceive⟩ := DaemonEnd.receive_of_inStep call h' hstep hwaits
  refine ⟨rwBuffer, ?_⟩
  rw [flushes, if_pos ⟨hwaits, hout, hstep⟩, sends, hout, hreceive]
  rfl

/-- The method ends; if it holds the mutex it releases it. -/
def finish (s : System K) (t : ℕ) (th : Thread) (result : Except Exn Reply) : System K :=
  { s.setThread t none with
    holder := if s.holder = some t then none else s.holder
    finished := s.finished ++ [⟨th.toVisit, s.time, result⟩]
    time := s.time + 1 }

variable (h h' : Host) (call : Kernel K)

/-- A move of a thread. -/
def move (s : System K) (t : ℕ) (th : Thread) (duration : ℕ) : Option (System K) :=
  match th.program with
  | .ret reply => some (s.finish t th (.ok reply))
  | .fail e => some (s.finish t th (.error e))
  | .act (.call e) k => if s.Permits e then some (s.performs t th e k duration) else none
  | .act (.writeExact bs) k =>
      some { s.setThread t (some { th with program := k () }) with outgoing := s.outgoing ++ bs }
  | .act (.readExact n) k =>
      if n ≤ s.incoming.length then
        some { s.setThread t (some { th with program := k (some (s.incoming.take n)) }) with
          incoming := s.incoming.drop n }
      else if s.daemon.isEnded then
        some { s.setThread t (some { th with program := k none }) with incoming := [] }
      else none
  | .act .flush k => some (s.flushes h' call t th k)

/-- **One step of the system**; `none` when the action is not possible. -/
def next : Action K → System K → Option (System K)
  | .start t c rounds, s =>
      match s.threads t with
      | some _ => none
      | none =>
          some { s.setThread t (some ⟨⟨c, s.time, none, []⟩, c.program h rounds⟩) with
            time := s.time + 1 }
  | .step t duration, s =>
      match s.threads t with
      | none => none
      | some th => s.move h' call t th duration
  | .wait duration, s => some { s with clock := s.clock + duration }
  | .device kernel, s => some { s with kernel := kernel }

/-- The exchange that a step is, if it is a flush that is in step. -/
def exchange? (a : Action K) (s : System K) : Option Exchange :=
  match a with
  | .step t _ =>
      match s.threads t with
      | some ⟨⟨c, _, _, _⟩, .act .flush _⟩ => some ⟨c.request, (serve call c.request s.kernel).1⟩
      | _ => none
  | _ => none

/-- What the thread does next is in step.  When it takes the mutex, nothing of an earlier exchange
is left, neither unsent nor unread; what it flushes is its own request, which leaves nothing
either. -/
def KeepsStep (s : System K) (th : Thread) : Prop :=
  match th.program with
  | .act (.call .lock) _ => s.outgoing = [] ∧ s.incoming = []
  | .act .flush _ =>
      s.outgoing = th.call.request.bytes ∧ th.call.request.InStep call s.kernel
  | _ => True

instance (s : System K) (th : Thread) : Decidable (s.KeepsStep call th) := by
  unfold KeepsStep
  split <;> infer_instance

/-- **The step is in step.** -/
def InStep : Action K → System K → Prop
  | .step t _, s => ∀ th ∈ s.threads t, s.KeepsStep call th
  | _, _ => True

instance (a : Action K) (s : System K) : Decidable (InStep call a s) := by
  cases a <;> unfold InStep <;> infer_instance

/-- The states of all runs whose steps satisfy the condition. -/
inductive Reachable (Ok : Action K → System K → Prop) : System K → Prop
  | new (kernel : K) (clock : ℕ) : Reachable Ok (.new kernel clock)
  | next {a : Action K} {s s' : System K} (hs : Reachable Ok s) (hok : Ok a s)
      (hnext : next h h' call a s = some s') : Reachable Ok s'

/-! ## Everything a step can do -/

/-- The steps of the system, one constructor for each kind. -/
inductive Step : Action K → System K → System K → Prop
  | start {s : System K} {t : ℕ} {c : Call} {rounds : ℕ} (ht : s.threads t = none) :
      Step (.start t c rounds) s
        { s.setThread t (some ⟨⟨c, s.time, none, []⟩, c.program h rounds⟩) with time := s.time + 1 }
  | wait {s : System K} {duration : ℕ} :
      Step (.wait duration) s { s with clock := s.clock + duration }
  | device {s : System K} {kernel : K} : Step (.device kernel) s { s with kernel := kernel }
  | returns {s : System K} {t duration : ℕ} {th : Thread} {reply : Reply}
      (ht : s.threads t = some th) (hp : th.program = .ret reply) :
      Step (.step t duration) s (s.finish t th (.ok reply))
  | throws {s : System K} {t duration : ℕ} {th : Thread} {e : Exn}
      (ht : s.threads t = some th) (hp : th.program = .fail e) :
      Step (.step t duration) s (s.finish t th (.error e))
  | performs {s : System K} {t duration : ℕ} {th : Thread} {e : ConnAct} {k : e.Res → ConnM Reply}
      (ht : s.threads t = some th) (hp : th.program = .act (.call e) k) (hpermits : s.Permits e) :
      Step (.step t duration) s (s.performs t th e k duration)
  | writes {s : System K} {t duration : ℕ} {th : Thread} {bs : List UInt8}
      {k : Unit → ConnM Reply} (ht : s.threads t = some th)
      (hp : th.program = .act (.writeExact bs) k) :
      Step (.step t duration) s { s.setThread t (some { th with program := k () }) with
        outgoing := s.outgoing ++ bs }
  | reads {s : System K} {t duration n : ℕ} {th : Thread}
      {k : Option (List UInt8) → ConnM Reply} (ht : s.threads t = some th)
      (hp : th.program = .act (.readExact n) k) (hn : n ≤ s.incoming.length) :
      Step (.step t duration) s
        { s.setThread t (some { th with program := k (some (s.incoming.take n)) }) with
          incoming := s.incoming.drop n }
  | ends {s : System K} {t duration n : ℕ} {th : Thread}
      {k : Option (List UInt8) → ConnM Reply} (ht : s.threads t = some th)
      (hp : th.program = .act (.readExact n) k) (hended : s.daemon.isEnded = true) :
      Step (.step t duration) s
        { s.setThread t (some { th with program := k none }) with incoming := [] }
  | exchanges {s : System K} {t duration : ℕ} {th : Thread} {k : Unit → ConnM Reply}
      {rwBuffer : List UInt8} (ht : s.threads t = some th) (hp : th.program = .act .flush k)
      (hasks : s.Asks call th) :
      Step (.step t duration) s (s.exchanges call t th k rwBuffer)
  | strays {s : System K} {t duration : ℕ} {th : Thread} {k : Unit → ConnM Reply}
      (ht : s.threads t = some th) (hp : th.program = .act .flush k)
      (hstray : ¬s.Asks call th) :
      Step (.step t duration) s
        ((s.sends h' call).setThread t (some { th with program := k () }))

variable {h h' call} {s s' : System K} {a : Action K}

theorem step_of_move {t duration : ℕ} {th : Thread} (ht : s.threads t = some th)
    (hmove : s.move h' call t th duration = some s') : Step h h' call (.step t duration) s s' := by
  unfold move at hmove
  split at hmove
  next reply hp =>
    obtain rfl := Option.some.inj hmove
    exact .returns ht hp
  next e hp =>
    obtain rfl := Option.some.inj hmove
    exact .throws ht hp
  next e k hp =>
    split at hmove
    next hpermits =>
      obtain rfl := Option.some.inj hmove
      exact .performs ht hp hpermits
    next => cases hmove
  next bs k hp =>
    obtain rfl := Option.some.inj hmove
    exact .writes ht hp
  next n k hp =>
    split at hmove
    next hn =>
      obtain rfl := Option.some.inj hmove
      exact .reads ht hp hn
    next =>
      split at hmove
      next hended =>
        obtain rfl := Option.some.inj hmove
        exact .ends ht hp hended
      next => cases hmove
  next k hp =>
    obtain rfl := Option.some.inj hmove
    by_cases hasks : s.Asks call th
    · obtain ⟨rwBuffer, hflushes⟩ := flushes_of_asks h' (t := t) k hasks
      rw [hflushes]
      exact .exchanges ht hp hasks
    · rw [flushes, if_neg hasks]
      exact .strays ht hp hasks

/-- **A step is one of these.** -/
theorem step_of_next (hnext : next h h' call a s = some s') : Step h h' call a s s' := by
  cases a with
  | start t c rounds =>
    unfold next at hnext
    rcases ht : s.threads t with _ | th
    · simp only [ht] at hnext
      obtain rfl := Option.some.inj hnext
      exact .start ht
    · simp only [ht] at hnext
      cases hnext
  | step t duration =>
    unfold next at hnext
    rcases ht : s.threads t with _ | th
    · simp only [ht] at hnext
      cases hnext
    · simp only [ht] at hnext
      exact step_of_move ht hnext
  | wait duration =>
    obtain rfl := Option.some.inj hnext
    exact .wait
  | device kernel =>
    obtain rfl := Option.some.inj hnext
    exact .device

theorem exchange?_of_flush {t duration : ℕ} {th : Thread} {k : Unit → ConnM Reply}
    (ht : s.threads t = some th) (hp : th.program = .act .flush k) :
    exchange? call (.step t duration) s =
      some ⟨th.call.request, (serve call th.call.request s.kernel).1⟩ := by
  obtain ⟨⟨c, started, executed, trace⟩, program⟩ := th
  obtain rfl : program = .act .flush k := hp
  simp only [exchange?, ht]

/-- The mutex is taken on a connection on which nothing is left. -/
theorem quiet_of_inStep {t duration : ℕ} {th : Thread} {k : Unit → ConnM Reply}
    (hin : InStep call (.step t duration) s) (ht : s.threads t = some th)
    (hp : th.program = .act (.call .lock) k) : s.outgoing = [] ∧ s.incoming = [] := by
  have hkeeps := hin th ht
  rw [KeepsStep, hp] at hkeeps
  exact hkeeps

/-- A flush that is in step is an exchange. -/
theorem asks_of_inStep {t duration : ℕ} {th : Thread} {k : Unit → ConnM Reply}
    (hin : InStep call (.step t duration) s) (ht : s.threads t = some th)
    (hp : th.program = .act .flush k) (hwaits : s.daemon.isWaiting = true) : s.Asks call th := by
  have hkeeps := hin th ht
  rw [KeepsStep, hp] at hkeeps
  exact ⟨hwaits, hkeeps⟩

/-! ## Runs -/

/-- Several steps, each of which is checked before it is taken. -/
def replay (check : Action K → System K → Bool) (h h' : Host) (call : Kernel K) :
    List (Action K) → System K → Option (System K)
  | [], s => some s
  | a :: as, s => if check a s then (next h h' call a s).bind (replay check h h' call as) else none

theorem Reachable.mono {Ok Ok' : Action K → System K → Prop} (hs : Reachable h h' call Ok s)
    (hmono : ∀ a s, Ok a s → Ok' a s) : Reachable h h' call Ok' s := by
  induction hs with
  | new kernel clock => exact .new kernel clock
  | next _ hok hnext ih => exact ih.next (hmono _ _ hok) hnext

/-- A run that has been checked is a run, and a test at its end is passed by a state. -/
theorem Reachable.exists_of_replay {Ok : Action K → System K → Prop}
    (hs : Reachable h h' call Ok s) (check : Action K → System K → Bool)
    (hcheck : ∀ a s, Reachable h h' call Ok s → check a s = true → Ok a s)
    (as : List (Action K)) (p : System K → Bool)
    (hrun : (replay check h h' call as s).any p = true) :
    ∃ s', Reachable h h' call Ok s' ∧ p s' = true := by
  induction as generalizing s with
  | nil => exact ⟨s, hs, hrun⟩
  | cons a as ih =>
    unfold replay at hrun
    split at hrun
    next ha =>
      rcases hnext : System.next h h' call a s with _ | s₁
      · rw [hnext] at hrun
        cases hrun
      · rw [hnext] at hrun
        exact ih (hs.next (hcheck a s hs ha) hnext) hrun
    next => cases hrun

end System

end NandroidFS
