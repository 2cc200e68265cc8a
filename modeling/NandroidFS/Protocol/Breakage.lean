import NandroidFS.Streams.EndOfStream
import NandroidFS.Protocol.Handshake

/-!
# A connection that breaks

The daemon may die at any time, with the cable or with its process.  What it has sent and what has
not been lost on the way still arrives, then the stream ends, or a `recv` or a `send` reports the
loss.  The first method that throws has the drive unmounted, but until that is done other threads
wait for the mutex, or come to call a method, as before.

The client reads every length it needs from the stream itself, so it cannot know from the bytes
alone that some are missing.  It does because `read_exact` raises wherever the stream ends before
its time, and every method then ends.

* `Broken`: the client after the daemon has died.
* `Call.heedsEnd_locked`: no method takes the end of the stream for an answer.
* `Call.failed_locked`: a method that asks the daemon raises when nothing comes.
* `Broken.told_the_truth`: wherever the daemon dies, no method ever returns an answer that the
  daemon did not give to its own request.
-/

namespace NandroidFS

/-! ## The end of the stream under a buffer -/

namespace DataReader

variable {E : Type} {R : E → Type}

/-- `read_exact` raises, and nothing is left in the buffer. -/
def Exhausted (x : Option (List UInt8) × DataReader) : Prop :=
  x.1 = none ∧ x.2.pending = []

theorem heedsEnd_readDirect {bufferSize : ℕ} (hb : 0 < bufferSize) (rounds : ℕ)
    (got : List UInt8) (numBytes : ℕ) :
    (readDirect (E := E) (R := R) bufferSize rounds got numBytes).HeedsEnd fun x => 0 < x.2 := by
  induction rounds generalizing got numBytes with
  | zero => trivial
  | succ rounds ih =>
    rw [readDirect]
    split
    · next hle =>
      refine ⟨hb.trans_le hle, fun c => ?_⟩
      beta_reduce
      split
      · trivial
      · exact ih _ _
    · trivial

theorem heedsEnd_readRounds (rounds : ℕ) (got : List UInt8) (numBytes : ℕ) (r : DataReader) :
    (readRounds (E := E) (R := R) rounds got numBytes r).HeedsEnd Exhausted := by
  induction rounds generalizing got numBytes r with
  | zero => trivial
  | succ rounds ih =>
    rw [readRounds]
    split
    · trivial
    · simp only
      set b := min numBytes (r.readIntoBuffer - r.positionInBuffer) with hb
      have hpl := r.length_pending
      by_cases hleft : numBytes - b = 0
      · -- the buffer has it all
        have hbuf : ¬r.bufferSize ≤ 0 := Nat.not_le.mpr r.bufferSize_pos
        rw [hleft, readDirect, if_neg hbuf]
        trivial
      · have hempty : (r.advance b (Nat.min_le_right _ _)).pending = [] := by
          rw [pending_advance, List.drop_eq_nil_iff]
          omega
        refine (heedsEnd_readDirect r.bufferSize_pos _ _ _).bind (fun x hx => ?_) fun x => ?_
        · rw [if_neg (Nat.ne_of_gt hx)]
          exact ⟨DataReader.bufferSize_pos _, rfl, hempty⟩
        · split
          · trivial
          · refine ⟨⟨rfl, hempty⟩, fun c => ?_⟩
            beta_reduce
            split
            · trivial
            · exact ih _ _ _

end DataReader

namespace StreamM

variable {E : Type} {R : E → Type} {ε α : Type}

/-- The program raises and leaves nothing in the buffer of the reader. -/
def Raised (x : Except ε α × Endpoint) : Prop :=
  (∃ e, x.1 = .error e) ∧ x.2.reader.pending = []

/-- **What heeds the end of a stream heeds it through a buffer.** -/
theorem heedsEnd_compile {p : StreamM E R ε α} (hp : p.HeedsEnd) (s : Endpoint) :
    (compile p s).HeedsEnd Raised := by
  induction p generalizing s with
  | ret a => trivial
  | fail e => trivial
  | act e k ih =>
    cases e with
    | readExact n =>
      obtain ⟨⟨e, he⟩, hk⟩ := hp
      refine (DataReader.heedsEnd_readRounds _ _ _ _).bind (fun x hx => ?_) fun x => ?_
      · obtain ⟨got, r⟩ := x
        obtain ⟨rfl, hr⟩ : got = none ∧ r.pending = [] := hx
        rw [he]
        exact ⟨⟨e, rfl⟩, hr⟩
      · obtain ⟨got, r⟩ := x
        cases got with
        | none =>
          rw [he]
          trivial
        | some bs => exact ih _ (hk bs) _
    | writeExact bs =>
      exact SocketM.heedsEnd_bind_of_all_notRecv (writeRounds_all_notRecv _ _ _) fun d => ih () hp _
    | flush =>
      exact SocketM.heedsEnd_bind_of_all_notRecv (flush_all_notRecv _) fun d => ih () hp _
    | call e => exact fun r => ih r (hp r) s

end StreamM

/-! ## What a method reads -/

section Readers

variable {E : Type} {R : E → Type} (h : Host)

theorem heedsEnd_readByte : (readByte : StreamM E R Exn UInt8).HeedsEnd :=
  (StreamM.heedsEnd_readExact _ _).bind fun _ => trivial

theorem heedsEnd_readU16 : (readU16 h : StreamM E R Exn UInt16).HeedsEnd :=
  (StreamM.heedsEnd_readExact _ _).bind fun _ => trivial

theorem heedsEnd_readU32 : (readU32 h : StreamM E R Exn UInt32).HeedsEnd :=
  (StreamM.heedsEnd_readExact _ _).bind fun _ => trivial

theorem heedsEnd_readU64 : (readU64 h : StreamM E R Exn UInt64).HeedsEnd :=
  (StreamM.heedsEnd_readExact _ _).bind fun _ => trivial

theorem heedsEnd_readUtf8String : (readUtf8String h : StreamM E R Exn ByteString).HeedsEnd :=
  (heedsEnd_readU16 h).bind fun _ => StreamM.heedsEnd_readExact _ _

theorem MessageType.heedsEnd_read (t : MessageType) :
    (t.read h : StreamM E R Exn t.Value).HeedsEnd := by
  have str := heedsEnd_readUtf8String (E := E) (R := R) h
  have u32 := heedsEnd_readU32 (E := E) (R := R) h
  have u64 := heedsEnd_readU64 (E := E) (R := R) h
  cases t with
  | openHandleArgs => exact str.bind fun _ => heedsEnd_readByte.bind fun _ => trivial
  | readHandleArgs => exact u32.bind fun _ => u32.bind fun _ => u64.bind fun _ => trivial
  | writeHandleInitArgs => exact u32.bind fun _ => u64.bind fun _ => u32.bind fun _ => trivial
  | moveEntryArgs =>
    exact str.bind fun _ => str.bind fun _ => heedsEnd_readByte.bind fun _ => trivial
  | truncateHandleArgs => exact u32.bind fun _ => u64.bind fun _ => trivial
  | setFileTimeArgs => exact str.bind fun _ => u64.bind fun _ => u64.bind fun _ => trivial
  | fileStat =>
    exact (heedsEnd_readU16 h).bind fun _ => u64.bind fun _ => u64.bind fun _ =>
      u64.bind fun _ => trivial
  | diskStats => exact u64.bind fun _ => u64.bind fun _ => u64.bind fun _ => trivial

end Readers

section Methods

open Connection

variable (h : Host)

theorem heedsEnd_readStatus : readStatus.HeedsEnd :=
  heedsEnd_readByte.bind fun _ => trivial

/-- The status is a byte that has to come. -/
theorem asks_readStatus : readStatus.Asks :=
  StreamM.Asks.bind_left (StreamM.Asks.bind_left (StreamM.asks_readExact _ Nat.one_pos) _) _

theorem heedsEnd_readEntries (dir : ByteString) (rounds : ℕ) :
    (readEntries h dir rounds).HeedsEnd := by
  induction rounds with
  | zero => trivial
  | succ rounds ih =>
    rw [readEntries]
    refine heedsEnd_readStatus.bind fun entryStatus => ?_
    split
    · trivial
    · split
      · refine (heedsEnd_readUtf8String h).bind fun name => ?_
        refine (MessageType.fileStat.heedsEnd_read h).bind fun stat => ?_
        refine fun _ => ?_
        rcases unixPathToWin32 name with _ | fileName
        · trivial
        · exact fun _ => ih.bind fun _ => trivial
      · exact ih

/-- Something is sent and then read. -/
theorem heedsEnd_send {α : Type} (q : Request) {p : ConnM α} (hp : p.HeedsEnd) :
    (do q.write h; StreamM.flush; p).HeedsEnd :=
  (StreamM.heedsEnd_of_noReads (q.onlyWrites_write h).noReads).bind fun _ => hp

theorem asks_send {α : Type} (q : Request) {p : ConnM α} (hp : p.Asks) :
    (do q.write h; StreamM.flush; p).Asks :=
  StreamM.Asks.bind_right (q.onlyWrites_write h).noReads fun _ => hp

theorem heedsEnd_exchangeStatus (q : Request) : (exchangeStatus h q).HeedsEnd :=
  heedsEnd_send h q (heedsEnd_readStatus.bind fun _ => trivial)

theorem asks_exchangeStatus (q : Request) : (exchangeStatus h q).Asks :=
  asks_send h q (asks_readStatus.bind_left _)

theorem heedsEnd_receiveStat (path : ByteString) : (receiveStat h path).HeedsEnd := by
  refine heedsEnd_readStatus.bind fun status => ?_
  split
  · trivial
  · exact (MessageType.fileStat.heedsEnd_read h).bind fun _ _ => trivial

theorem heedsEnd_receiveListing (rounds : ℕ) (path : ByteString) :
    (receiveListing h rounds path).HeedsEnd := by
  refine heedsEnd_readStatus.bind fun status => ?_
  split
  · trivial
  · exact (heedsEnd_readEntries h path rounds).bind fun _ _ => trivial

theorem heedsEnd_receiveHandle : (receiveHandle h).HeedsEnd := by
  refine heedsEnd_readStatus.bind fun status => ?_
  split
  · exact (heedsEnd_readU32 h).bind fun _ => trivial
  · trivial

theorem heedsEnd_receiveData : (receiveData h).HeedsEnd := by
  refine heedsEnd_readStatus.bind fun status => ?_
  split
  · exact (heedsEnd_readU32 h).bind fun _ =>
      (StreamM.heedsEnd_readExact _ _).bind fun _ => trivial
  · trivial

theorem heedsEnd_receiveDiskStats : (receiveDiskStats h).HeedsEnd := by
  refine heedsEnd_readStatus.bind fun status => ?_
  split
  · exact (MessageType.diskStats.heedsEnd_read h).bind fun _ => trivial
  · trivial

/-- What a method does to the caches before it sends. -/
theorem heedsEnd_invalidate (path : ByteString) {p : ConnM Reply} (hp : p.HeedsEnd) :
    (do invalidateStat path; invalidateParentDir path; p).HeedsEnd :=
  (StreamM.heedsEnd_of_noReads (noReads_invalidateStat path)).bind fun _ =>
    (StreamM.heedsEnd_of_noReads (noReads_invalidateParentDir path)).bind fun _ => hp

theorem asks_invalidate (path : ByteString) {p : ConnM Reply} (hp : p.Asks) :
    (do invalidateStat path; invalidateParentDir path; p).Asks :=
  StreamM.Asks.bind_right (noReads_invalidateStat path) fun _ =>
    StreamM.Asks.bind_right (noReads_invalidateParentDir path) fun _ => hp

/-- **No method takes the end of the stream for an answer.** -/
theorem Call.heedsEnd_locked (rounds : ℕ) (c : Call) : (c.locked h rounds).HeedsEnd := by
  have status (q : Request) := heedsEnd_exchangeStatus h q
  cases c with
  | statFile path =>
    refine fun cached => ?_
    rcases cached with _ | stat
    · simp only
      split
      · trivial
      · exact heedsEnd_send h _ (heedsEnd_receiveStat h _)
    · trivial
  | listFileStats path => exact heedsEnd_send h _ (heedsEnd_receiveListing h rounds _)
  | moveEntry fromPath toPath replaceIfExists =>
    exact heedsEnd_invalidate _ (heedsEnd_invalidate _ (status _))
  | removeFile path => exact heedsEnd_invalidate _ (status _)
  | canRemoveFile path => exact status _
  | removeDirectory path => exact heedsEnd_invalidate _ (status _)
  | canRemoveDirectory path => exact status _
  | createDirectory path => exact heedsEnd_invalidate _ (status _)
  | openFile path mode readAccess writeAccess =>
    simp only [Call.locked, reqOpenFile]
    split
    · trivial
    · refine heedsEnd_send h _ ((heedsEnd_receiveHandle h).bind fun reply => ?_)
      split
      · exact (StreamM.heedsEnd_of_noReads (noReads_invalidateParentDir _)).bind fun _ => trivial
      · trivial
  | closeFile fileHandle => exact status _
  | writeToFile fileHandle fileOffset data => exact status _
  | readFromFile fileHandle fileOffset bufferLen =>
    exact heedsEnd_send h _ (heedsEnd_receiveData h)
  | setFileLen fileHandle fileLen => exact status _
  | setFileTime path accessTime writeTime =>
    exact (StreamM.heedsEnd_of_noReads (noReads_invalidateStat _)).bind fun _ => status _
  | getDiskStats => exact heedsEnd_send h _ (heedsEnd_receiveDiskStats h)

variable {W : Type} {world : (e : ConnAct) → W → e.Res × W}

/-- **A method that asks the daemon raises when nothing comes.** -/
theorem Call.failed_locked {c : Call} {v : View W} (hquiet : ¬c.Quiet world v.world)
    (hv : v.inflow = []) (rounds : ℕ) :
    ∃ e, (StreamM.run world true (c.locked h rounds) v).1 = .failed e := by
  have asks (hc : (c.locked h rounds).Asks) := StreamM.failed_of_asks hc world hv
  have status (q : Request) := asks_exchangeStatus h q
  cases c with
  | statFile path =>
    obtain ⟨hmiss, hini⟩ := not_or.mp hquiet
    rw [Option.not_isSome_iff_eq_none] at hmiss
    show ∃ e, (StreamM.run world true (conn (.getStat (win32PathToUnix path)) >>= _) v).1 = _
    rw [conn, StreamM.run_call_bind, hmiss]
    simp only [if_neg hini]
    exact StreamM.failed_of_asks (asks_send h _ (asks_readStatus.bind_left _)) world hv
  | listFileStats path => exact asks (asks_send h _ (asks_readStatus.bind_left _))
  | moveEntry fromPath toPath replaceIfExists =>
    exact asks (asks_invalidate _ (asks_invalidate _ (status _)))
  | removeFile path => exact asks (asks_invalidate _ (status _))
  | canRemoveFile path => exact asks (status _)
  | removeDirectory path => exact asks (asks_invalidate _ (status _))
  | canRemoveDirectory path => exact asks (status _)
  | createDirectory path => exact asks (asks_invalidate _ (status _))
  | openFile path mode readAccess writeAccess =>
    have hini : ¬endsWithDesktopIni (win32PathToUnix path) = true := hquiet
    refine asks ?_
    rw [Call.locked, reqOpenFile, if_neg hini]
    exact asks_send h _ ((asks_readStatus.bind_left _).bind_left _)
  | closeFile fileHandle => exact asks (status _)
  | writeToFile fileHandle fileOffset data => exact asks (status _)
  | readFromFile fileHandle fileOffset bufferLen =>
    exact asks (asks_send h _ (asks_readStatus.bind_left _))
  | setFileLen fileHandle fileLen => exact asks (status _)
  | setFileTime path accessTime writeTime =>
    exact asks (StreamM.Asks.bind_right (noReads_invalidateStat _) fun _ => status _)
  | getDiskStats => exact asks (asks_send h _ (asks_readStatus.bind_left _))

end Methods

/-! ## The client without its daemon -/

/-- A method that has ended after the daemon died: who called it, what the caches were when it took
the mutex, and what it returned, if it did not throw. -/
structure Ended (W : Type) where
  thread : ℕ
  call : Call
  start : W
  reply : Option Reply

/-- The client after the daemon has died, with the bytes that still arrive and the methods that have
ended since. -/
structure Broken (W : Type) where
  holder : Holder W
  clientWorld : W
  toClient : List UInt8
  ended : List (Ended W)

namespace Broken

variable {K W : Type} (P : Setup K W)

/-- The daemon dies, and of what it has sent `arrives` is not lost. -/
def ofSession (s : Session K W) (arrives : List UInt8) : Broken W where
  holder := s.holder
  clientWorld := s.clientWorld
  toClient := arrives
  ended := []

/-- What a method returned, if it did not throw. -/
def replyOf : Except Exn Reply → Option Reply
  | .ok reply => some reply
  | .error _ => none

/-- A step of the method that holds the mutex. -/
inductive Work : Broken W → Broken W → Prop
  /-- What is sent is taken by the socket and goes nowhere. -/
  | move {x : Broken W} {t : ℕ} {c : Call} {w : W} {p p' : ClientProg} {v' : W}
      {toClient' o o' : List UInt8} (hs : x.holder = .held t c w p)
      (hp : PartyStep P.world (p, x.clientWorld, x.toClient, o) (p', v', toClient', o')) :
      Work x { x with holder := .held t c w p', clientWorld := v', toClient := toClient' }
  /-- The stream has ended. -/
  | eof {x : Broken W} {t : ℕ} {c : Call} {w : W} {n : ℕ} {cont : Chunk n → ClientProg}
      (hs : x.holder = .held t c w (.act (.recv n) cont)) (hin : x.toClient = []) :
      Work x { x with holder := .held t c w (cont (.eof n)) }
  /-- The method ends and releases the mutex. -/
  | release {x : Broken W} {t : ℕ} {c : Call} {w : W} {result : Except Exn Reply}
      {endpoint : Endpoint} (hs : x.holder = .held t c w (.ret (result, endpoint))) :
      Work x { x with
        holder := .free endpoint, ended := x.ended ++ [⟨t, c, w, replyOf result⟩] }

/-- A step after the daemon has died.  Any method may be called, and the caches may be anything by
then. -/
inductive Step : Broken W → Broken W → Prop
  | work {x y : Broken W} (h : Work P x y) : Step x y
  /-- `recv` or `send` reports that the connection is lost and throws, which releases the mutex.
  Nothing arrives after that.  `read_exact` advances its buffer before it receives and `flush`
  clears it after it has sent, so the writer may hold anything and the reader holds nothing. -/
  | throws {x : Broken W} {t : ℕ} {c : Call} {w : W} {e : SocketAct ConnAct}
      {cont : e.Res ConnAct.Res → ClientProg} {endpoint : Endpoint}
      (hs : x.holder = .held t c w (.act e cont)) (he : ¬(e.NotRecv ∧ e.NotSend))
      (hr : endpoint.reader.pending = []) :
      Step x { x with
        holder := .free endpoint, toClient := [], ended := x.ended ++ [⟨t, c, w, none⟩] }
  | acquire {x : Broken W} {endpoint : Endpoint} (hs : x.holder = .free endpoint) (t : ℕ)
      (c : Call) (w : W) (rounds : ℕ) :
      Step x { x with
        holder := .held t c w (StreamM.compile (c.locked P.clientHost rounds) endpoint)
        clientWorld := w }

/-- The method may return this, given the methods that have ended before it: either it does not ask
the daemon, or it is the one that was under way when the daemon died and this is the answer of the
daemon to its request. -/
def Entitled (s : Session K W) (before : List (Ended W)) (t : ℕ) (c : Call) (w : W)
    (reply : Reply) : Prop :=
  c.Quiet P.world w ∨ before = [] ∧ (∃ p, s.holder = .held t c w p) ∧
    reply = (serve P.call c.request (Session.kernelAfter P s.history)).1.reply

/-- How a method ends that holds the mutex. -/
def Honest (s : Session K W) (before : List (Ended W)) (t : ℕ) (c : Call) (w : W)
    (x : Except Exn Reply × Endpoint) : Prop :=
  x.2.reader.pending = [] ∧ ∀ reply, replyOf x.1 = some reply → Entitled P s before t c w reply

/-- **The invariant after the daemon has died** in the state `s`. -/
structure Inv (s : Session K W) (x : Broken W) : Prop where
  free : ∀ endpoint, x.holder = .free endpoint →
    endpoint.reader.pending = [] ∧ x.toClient = []
  held : ∀ t c w p, x.holder = .held t c w p → ∃ sent, SocketM.Safe P.world true
    (fun a _ i _ => i = [] ∧ Honest P s x.ended t c w a) p x.clientWorld x.toClient sent
  ended : ∀ before e after, x.ended = before ++ e :: after → ∀ reply, e.reply = some reply →
    Entitled P s before e.thread e.call e.start reply

variable {P} {s : Session K W} {x y : Broken W}

/-! ### At the moment of the break -/

/-- Every method that holds the mutex heeds the end of the stream. -/
theorem heedsEnd_of_reachable {Allowed : List (Completed W) → Call → W → ℕ → Prop} {w : W}
    (hrun : Relation.ReflTransGen (Link.Step P Allowed) (.shaking (Link.start P w)) (.opened s)) :
    ∀ t c w p, s.holder = .held t c w p → p.HeedsEnd StreamM.Raised := by
  refine Runs.invariant (P := fun l => ∀ s, l = .opened s → ∀ t c w p,
    s.holder = .held t c w p → p.HeedsEnd StreamM.Raised) ?_ ?_ hrun s rfl
  · rintro l l' ih hst s rfl t c w p hs
    cases hst with
    | shake h =>
      cases h with
      | opens hx => cases hs
    | session h =>
      cases h with
      | work h =>
        cases h with
        | client hs' hp =>
          obtain ⟨rfl, rfl, rfl, rfl⟩ := Holder.held.inj hs
          exact hp.heedsEnd (ih _ rfl _ _ _ _ hs')
        | daemon hp => exact ih _ rfl t c w p hs
        | loop hd => exact ih _ rfl t c w p hs
        | release hs' => cases hs
      | acquire hs' t' c' w' rounds hc =>
        obtain ⟨rfl, rfl, rfl, rfl⟩ := Holder.held.inj hs
        exact StreamM.heedsEnd_compile (c'.heedsEnd_locked P.clientHost rounds) _
  · rintro s ⟨⟩

/-- While the daemon lives, the method that holds the mutex has its answer on the way. -/
theorem exists_safe_of_stage {loops : ℕ} (h : Session.Stage P s loops) {t : ℕ} {c : Call} {w : W}
    {p : ClientProg} (hs : s.holder = .held t c w p) :
    ∃ more sent, SocketM.Safe P.world false
      (fun a _ i _ => i = [] ∧ Session.Owed P s.history c w a) p s.clientWorld
      (s.toClient ++ more) sent := by
  cases h with
  | free hs' => rw [hs] at hs'; cases hs'
  | alone sent hs' hsafe =>
    obtain ⟨rfl, rfl, rfl, rfl⟩ := Holder.held.inj (hs.symm.trans hs')
    refine ⟨[], sent, ?_⟩
    rw [List.append_nil]
    exact hsafe.mono fun _ _ _ _ hq => ⟨hq.1, hq.2.2⟩
  | early lr hs' hquiet hq hsized hdrains hask hsafe hphased htoClient hd =>
    obtain ⟨rfl, rfl, rfl, rfl⟩ := Holder.held.inj (hs.symm.trans hs')
    refine ⟨(serve P.call c.request (Session.kernelAfter P s.history)).1.bytes, s.toDaemon, ?_⟩
    rw [htoClient]
    exact hsafe.mono fun _ _ _ _ hq => ⟨hq.1, hq.2.2⟩
  | exchanging ls lr rs rr hs' hquiet hx =>
    obtain ⟨rfl, rfl, rfl, rfl⟩ := Holder.held.inj (hs.symm.trans hs')
    exact ⟨rr, ls, hx.left_safe.mono fun _ _ _ _ hq => ⟨hq.1, hq.2.2⟩⟩

theorem replyOf_eq_some {result : Except Exn Reply} {reply : Reply}
    (h : replyOf result = some reply) : result = .ok reply := by
  cases result with
  | error e => cases h
  | ok r => exact congrArg Except.ok (Option.some.inj h)

/-- **The method under way when the daemon dies** ends with the answer of the daemon or throws. -/
theorem honest_of_owed {t : ℕ} {c : Call} {w : W} {p : ClientProg}
    (hs : s.holder = .held t c w p) {a : Except Exn Reply × Endpoint}
    (ha : Session.Owed P s.history c w a ∨ StreamM.Raised a) : Honest P s [] t c w a := by
  rcases ha with ⟨hidle, howed⟩ | ⟨⟨e, he⟩, hpending⟩
  · refine ⟨hidle.reader, fun reply hreply => ?_⟩
    by_cases hquiet : c.Quiet P.world w
    · exact .inl hquiet
    · refine .inr ⟨rfl, ⟨p, hs⟩, ?_⟩
      exact Except.ok.inj ((replyOf_eq_some hreply).symm.trans (howed hquiet))
  · refine ⟨hpending, fun reply hreply => ?_⟩
    rw [he] at hreply
    cases hreply

/-- The invariant holds when the daemon dies. -/
theorem Inv.ofSession (h : Session.Inv P s)
    (hheeds : ∀ t c w p, s.holder = .held t c w p → p.HeedsEnd StreamM.Raised)
    {arrives : List UInt8} (harrives : arrives <+: s.toClient) :
    Inv P s (ofSession s arrives) where
  free := by
    obtain ⟨loops, hstage⟩ := h.stage
    intro endpoint hs
    obtain ⟨hidle, -, htoClient, -⟩ := hstage.free_inv hs
    rw [htoClient] at harrives
    exact ⟨hidle.reader, List.prefix_nil.mp harrives⟩
  held := by
    obtain ⟨loops, hstage⟩ := h.stage
    intro t c w p hs
    obtain ⟨more, sent, hsafe⟩ := exists_safe_of_stage hstage hs
    obtain ⟨lost, hlost⟩ := harrives
    rw [← hlost, List.append_assoc] at hsafe
    refine ⟨sent, (hsafe.cut (hheeds t c w p hs)).mono fun a _ i _ ha => ?_⟩
    rcases ha with ⟨hi, howed⟩ | ⟨hraised, hi⟩
    · exact ⟨(List.append_eq_nil_iff.mp hi).1, honest_of_owed hs (.inl howed)⟩
    · exact ⟨hi, honest_of_owed hs (.inr hraised)⟩
  ended := by
    intro before e after heq
    simp [Broken.ofSession] at heq

/-! ### After the break -/

/-- **A method that is called after the daemon has died** throws, unless it does not ask the
daemon. -/
theorem safe_locked {endpoint : Endpoint} (hr : endpoint.reader.pending = []) (t : ℕ) (c : Call)
    (w : W) (rounds : ℕ) (before : List (Ended W)) :
    SocketM.Safe P.world true (fun a _ i _ => i = [] ∧ Honest P s before t c w a)
      (StreamM.compile (c.locked P.clientHost rounds) endpoint) w [] [] := by
  have hin : (endpoint.view w [] []).inflow = [] := by
    rw [Endpoint.view, hr]
    rfl
  obtain ⟨out, v', hrun⟩ : ∃ out v', StreamM.run P.world true (c.locked P.clientHost rounds)
      (endpoint.view w [] []) = (out, v') := ⟨_, _, rfl⟩
  have hne := StreamM.run_ne_starved P.world (c.locked P.clientHost rounds) (endpoint.view w [] [])
  have hrest := StreamM.inflow_run_suffix P.world true (c.locked P.clientHost rounds)
    (endpoint.view w [] [])
  rw [hrun] at hne hrest
  rw [hin, List.suffix_nil] at hrest
  refine (StreamM.safe_compile _ (endpoint.shows_view w [] []) hrun hne).mono ?_
  rintro a w' i o ⟨hout, hshows⟩
  obtain ⟨hpending, hi⟩ := List.append_eq_nil_iff.mp (hshows.inflow.symm.trans hrest)
  refine ⟨hi, hpending, fun reply hreply => ?_⟩
  by_cases hquiet : c.Quiet P.world w
  · exact .inl hquiet
  · obtain ⟨e, he⟩ := @Call.failed_locked P.clientHost W P.world c _ hquiet hin rounds
    rw [hrun] at he
    obtain rfl : out = .failed e := he
    rw [replyOf_eq_some hreply] at hout
    cases hout

/-- **Every step of a method keeps the invariant.** -/
theorem Inv.work (h : Inv P s x) (hw : Work P x y) : Inv P s y := by
  cases hw with
  | move hs hp =>
    obtain ⟨sent, hsafe⟩ := h.held _ _ _ _ hs
    refine ⟨fun endpoint hs' => (by cases hs'), fun t c w p hs' => ?_, h.ended⟩
    obtain ⟨rfl, rfl, rfl, rfl⟩ := Holder.held.inj hs'
    exact hp.exists_safe hsafe
  | eof hs hin =>
    obtain ⟨sent, hsafe⟩ := h.held _ _ _ _ hs
    refine ⟨fun endpoint hs' => (by cases hs'), fun t c w p hs' => ⟨sent, ?_⟩, h.ended⟩
    obtain ⟨rfl, rfl, rfl, rfl⟩ := Holder.held.inj hs'
    show SocketM.Safe _ _ _ _ x.clientWorld x.toClient sent
    rw [hin]
    exact (hsafe.2.1 hin).2
  | release hs =>
    obtain ⟨sent, hin, hpending, hreply⟩ := h.held _ _ _ _ hs
    refine ⟨fun endpoint hs' => ?_, fun t c w p hs' => (by cases hs'),
      Session.forall_split_append h.ended hreply⟩
    obtain rfl := Holder.free.inj hs'
    exact ⟨hpending, hin⟩

/-- **Every step keeps the invariant.** -/
theorem Inv.step (h : Inv P s x) (hst : Step P x y) : Inv P s y := by
  cases hst with
  | work hw => exact h.work hw
  | throws hs he hr =>
    refine ⟨fun endpoint hs' => ?_, fun t c w p hs' => (by cases hs'),
      Session.forall_split_append h.ended fun reply hreply => (by cases hreply)⟩
    obtain rfl := Holder.free.inj hs'
    exact ⟨hr, rfl⟩
  | acquire hs t c w rounds =>
    obtain ⟨hr, hin⟩ := h.free _ hs
    refine ⟨fun endpoint hs' => (by cases hs'), fun t' c' w' p hs' => ⟨[], ?_⟩, h.ended⟩
    obtain ⟨rfl, rfl, rfl, rfl⟩ := Holder.held.inj hs'
    show SocketM.Safe _ _ _ _ _ x.toClient _
    rw [hin]
    exact safe_locked hr t c w rounds x.ended

/-- **No method runs for ever**: each step moves its program to a subtree. -/
theorem acc_work (x : Broken W) : Acc (fun y x => Work P x y) x := by
  obtain ⟨holder, clientWorld, toClient, ended⟩ := x
  have hfree (endpoint : Endpoint) (clientWorld : W) (toClient : List UInt8)
      (ended : List (Ended W)) :
      Acc (fun y x => Work P x y) ⟨.free endpoint, clientWorld, toClient, ended⟩ := by
    refine Runs.acc_of_stuck fun y hy => ?_
    cases hy with
    | move hs => cases hs
    | eof hs => cases hs
    | release hs => cases hs
  cases holder with
  | free endpoint => exact hfree _ _ _ _
  | held t c w p =>
    induction p generalizing clientWorld toClient with
    | ret a =>
      refine Acc.intro _ fun y hy => ?_
      cases hy with
      | move hs hp =>
        obtain ⟨rfl, rfl, rfl, rfl⟩ := Holder.held.inj hs
        cases hp
      | eof hs => cases hs
      | release hs => exact hfree _ _ _ _
    | fail e => exact e.elim
    | act e k ih =>
      refine Acc.intro _ fun y hy => ?_
      cases hy with
      | move hs hp =>
        obtain ⟨rfl, rfl, rfl, rfl⟩ := Holder.held.inj hs
        cases hp with
        | recv hc => exact ih _ _ _
        | send hm hle => exact ih _ _ _
        | call => exact ih _ _ _
      | eof hs hin =>
        obtain ⟨rfl, rfl, rfl, hk⟩ := Holder.held.inj hs
        cases hk
        exact ih _ _ _
      | release hs => cases hs

/-- **No method waits for ever**: it goes on without the daemon. -/
theorem Inv.progress (h : Inv P s x) {t : ℕ} {c : Call} {w : W} {p : ClientProg}
    (hs : x.holder = .held t c w p) : ∃ y, Work P x y := by
  obtain ⟨sent, hsafe⟩ := h.held t c w p hs
  cases p with
  | ret a => exact ⟨_, .release hs⟩
  | fail e => exact e.elim
  | act e k =>
    cases e with
    | recv n =>
      by_cases hin : x.toClient = []
      · exact ⟨_, .eof hs hin⟩
      · obtain ⟨⟨p', v', i', o'⟩, hp⟩ :=
          Duplex.exists_step_of_recv P.world (k := k) (u := x.clientWorld) (o := []) hsafe.1 hin
        exact ⟨_, .move hs hp⟩
    | send bs =>
      exact ⟨_, .move (o := []) hs (.send (List.length_pos_iff.mpr hsafe.1) le_rfl)⟩
    | call e => exact ⟨_, .move (o := []) hs .call⟩

/-- A method can be left to itself. -/
theorem Inv.completes (h : Inv P s x) {t : ℕ} {c : Call} {w : W} {p : ClientProg}
    (hs : x.holder = .held t c w p) :
    ∃ y endpoint reply, Relation.ReflTransGen (Work P) x y ∧ y.holder = .free endpoint ∧
      y.ended = x.ended ++ [⟨t, c, w, reply⟩] := by
  induction acc_work (P := P) x generalizing p with
  | intro x _ ih =>
    obtain ⟨x₁, hw⟩ := h.progress hs
    have h₁ := h.work hw
    cases hw with
    | move hs' hp =>
      obtain ⟨rfl, rfl, rfl, rfl⟩ := Holder.held.inj (hs.symm.trans hs')
      obtain ⟨y, endpoint, reply, hrun, hy⟩ := ih _ (.move hs' hp) h₁ rfl
      exact ⟨y, endpoint, reply, hrun.head (.move hs' hp), hy⟩
    | eof hs' hin =>
      obtain ⟨rfl, rfl, rfl, rfl⟩ := Holder.held.inj (hs.symm.trans hs')
      obtain ⟨y, endpoint, reply, hrun, hy⟩ := ih _ (.eof hs' hin) h₁ rfl
      exact ⟨y, endpoint, reply, hrun.head (.eof hs' hin), hy⟩
    | release hs' =>
      obtain ⟨rfl, rfl, rfl, rfl⟩ := Holder.held.inj (hs.symm.trans hs')
      exact ⟨_, _, _, .single (.release hs'), rfl, rfl⟩

/-- **No method is told what the daemon did not say.**  The daemon dies at any point of any session
of any threads, in the middle of a request or of an answer, and any part of what it has sent last is
lost.  Whatever is called from then on and in whatever order, a method that asks the daemon throws,
except that the one under way at that moment may still return the whole answer to its request; and
none of them runs or waits for ever. -/
theorem told_the_truth {Allowed : List (Completed W) → Call → W → ℕ → Prop}
    (hA : ∀ history c w rounds, Allowed history c w rounds →
      Session.Admissible P history c w rounds) {w : W}
    (hrun : Relation.ReflTransGen (Link.Step P Allowed) (.shaking (Link.start P w)) (.opened s))
    {arrives : List UInt8} (harrives : arrives <+: s.toClient)
    (hrest : Relation.ReflTransGen (Step P) (ofSession s arrives) x) :
    (∀ before e after, x.ended = before ++ e :: after → ¬e.call.Quiet P.world e.start →
      e.reply = none ∨ before = [] ∧ (∃ p, s.holder = .held e.thread e.call e.start p) ∧
        e.reply = some (serve P.call e.call.request (Session.kernelAfter P s.history)).1.reply) ∧
    Acc (fun y x => Work P x y) x ∧
    ∀ t c w p, x.holder = .held t c w p → ∃ y, Work P x y := by
  have hinv : Inv P s x := Runs.invariant (fun _ _ hx hst => hx.step hst)
    (Inv.ofSession (Link.Inv.of_reachable hA hrun) (heedsEnd_of_reachable hrun) harrives) hrest
  refine ⟨fun before e after heq hquiet => ?_, acc_work x, fun t c w p hs => hinv.progress hs⟩
  rcases hreply : e.reply with _ | reply
  · exact .inl rfl
  · obtain ⟨hbefore, hheld, hserved⟩ :=
      (hinv.ended before e after heq reply hreply).resolve_left hquiet
    exact .inr ⟨hbefore, hheld, congrArg some hserved⟩

/-- A client asks for the size of the disk, the daemon dies, and the client asks again: the second
time it is told that the connection is lost. -/
theorem told_the_truth_twice : ∃ (s : Session Unit Unit) (x : Broken Unit) (e₁ e₂ : Ended Unit),
    Relation.ReflTransGen (Link.Step Session.idleSetup (Session.Ordinary Session.idleSetup))
      (.shaking (Link.start Session.idleSetup ())) (.opened s) ∧
    Relation.ReflTransGen (Step Session.idleSetup) (ofSession s []) x ∧
    x.ended = [e₁, e₂] ∧ e₂.reply = none := by
  obtain ⟨y, endpoint, hshake⟩ :=
    Link.exists_opened (Link.shaking_start (P := Session.idleSetup) ())
  have hA := fun history c w rounds
      (h : Session.Ordinary Session.idleSetup history c w rounds) =>
    h.admissible Session.namesDecode_failing
  have hc : Session.Ordinary Session.idleSetup (Link.session y endpoint).history .getDiskStats
      () 0 := by
    refine ⟨id, ?_, trivial, ?_⟩
    · intro path hpath
      cases hpath
    · intro items hitems
      cases hitems
  have hopened : Relation.ReflTransGen
      (Link.Step Session.idleSetup (Session.Ordinary Session.idleSetup)) _ _ :=
    hshake.lift id fun _ _ h => Link.Step.shake h
  have hrun := hopened.tail (.session (.acquire rfl 0 .getDiskStats () 0 hc))
  -- the daemon dies before it has answered
  have hinv₀ := Inv.ofSession (Link.Inv.of_reachable hA hrun) (heedsEnd_of_reachable hrun)
    (List.nil_prefix)
  obtain ⟨x₁, endpoint₁, reply₁, hwork₁, hfree₁, hended₁⟩ := hinv₀.completes rfl
  have hinv₁ := Runs.invariant (fun _ _ hx hw => hx.work hw) hinv₀ hwork₁
  have hagain : Step Session.idleSetup x₁ _ := .acquire hfree₁ 1 .getDiskStats () 0
  obtain ⟨x₂, endpoint₂, reply₂, hwork₂, hfree₂, hended₂⟩ := (hinv₁.step hagain).completes rfl
  have hrest := ((hwork₁.lift id fun _ _ h => Step.work h).tail hagain).trans
    (hwork₂.lift id fun _ _ h => Step.work h)
  obtain ⟨htruth, -, -⟩ := told_the_truth hA hrun List.nil_prefix hrest
  have hended : x₂.ended = [⟨0, .getDiskStats, (), reply₁⟩, ⟨1, .getDiskStats, (), reply₂⟩] := by
    rw [hended₂, hended₁]
    rfl
  refine ⟨_, x₂, _, _, hrun, hrest, hended, ?_⟩
  rcases htruth [_] _ [] hended id with hnone | ⟨hnil, -⟩
  · exact hnone
  · cases hnil

end Broken

end NandroidFS
