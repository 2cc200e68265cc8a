import NandroidFS.Protocol.Session
import NandroidFS.Streams.Runs

/-!
# The beginning of a connection

The constructor of `Connection` sends four bytes and waits for them to come back, and the
constructor of `ClientHandler` reads four bytes and sends them back.  Neither looks at anything
else, so this is where a session begins: the client may call its methods as soon as it has read the
echo, while the daemon may still be on its way to `handle_messages`.

A `Link` is a connection from its first byte on.  Until the client's constructor returns, the two
handshakes run side by side; from then on it is a `Session`.

* `Connection.safe_handshake`: the handshake against any peer at all.
* `Shaking`: the invariant of the handshake, with one case before the daemon has answered and one
  after.
* `Link.in_step`: no run of the handshake is refused, is infinite or gets stuck, and the session
  that it opens satisfies the invariant of sessions for good.
-/

namespace NandroidFS

/-- The size of the buffers on both sides. -/
def BUFFER_SIZE : ℕ := 8192

theorem BUFFER_SIZE_pos : 0 < BUFFER_SIZE := by decide

/-- What the constructor of `Connection` raises by itself: the bytes that came back are others. -/
inductive FailedHandshake where
  | differentBytes
  deriving DecidableEq

namespace Connection

def HANDSHAKE_DATA : UInt32 := 0xFAFE5ABE

section Handshake

variable {E : Type} {R : E → Type}

/-- `Connection::handshake`. -/
def handshake (h : Host) : StreamM E R Exn (Except FailedHandshake Unit) := do
  writeU32 h HANDSHAKE_DATA
  StreamM.flush
  let receivedData ← readU32 h
  if receivedData = HANDSHAKE_DATA then return .ok () else return .error .differentBytes

/-- How the handshake ends when `inflow` is all that comes from the peer. -/
def verdict (inflow : List UInt8) : Except Exn (Except FailedHandshake Unit) :=
  if inflow.length < 4 then .error .eof
  else if inflow.take 4 = u32Bytes HANDSHAKE_DATA then .ok (.ok ())
  else .ok (.error .differentBytes)

theorem u32Bytes_injective : Function.Injective u32Bytes := by
  intro v v' h
  refine UInt32.toNat_inj.mp ?_
  rw [← ofBe_beBytes_of_lt (n := 4) v.toNat_lt, ← ofBe_beBytes_of_lt (n := 4) v'.toNat_lt]
  exact congrArg ofBe h

/-- Every four bytes are a number. -/
theorem exists_u32Bytes {bs : List UInt8} (h : bs.length = 4) : ∃ v, bs = u32Bytes v := by
  refine ⟨UInt32.ofNat (ofBe bs), ?_⟩
  have hlt : ofBe bs < 2 ^ 32 := ofBe_lt h
  rw [u32Bytes, UInt32.toNat_ofNat', Nat.mod_eq_of_lt hlt]
  exact (beBytes_ofBe_of_length h).symm

variable {W : Type} (world : (e : E) → W → R e × W) (h : Host)

/-- The handshake on whole streams. -/
theorem run_handshake {closed : Bool} {v : View W} (hin : 4 ≤ v.inflow.length ∨ closed = true) :
    StreamM.run world closed (handshake h) v =
      (Outcome.ofExcept (verdict v.inflow),
        ⟨v.inflow.drop 4, v.outflow ++ u32Bytes HANDSHAKE_DATA, true, v.world⟩) := by
  rw [handshake, StreamM.run_bind_done _ _ (writes_u32 h HANDSHAKE_DATA _ world closed v),
    StreamM.run_flush_bind]
  by_cases hlen : 4 ≤ v.inflow.length
  · obtain ⟨d, hd⟩ := exists_u32Bytes
      (show (v.inflow.take 4).length = 4 by rw [List.length_take]; omega)
    have hinflow : v.inflow = u32Bytes d ++ v.inflow.drop 4 := by
      rw [← hd, List.take_append_drop]
    have hread := reads_u32 h d _ world closed
      ⟨v.inflow, v.outflow ++ u32Bytes HANDSHAKE_DATA, true, v.world⟩ _ hinflow
    rw [StreamM.run_bind_done _ _ hread, verdict, if_neg (Nat.not_lt.mpr hlen), hd]
    by_cases heq : d = HANDSHAKE_DATA
    · rw [if_pos heq, if_pos (congrArg u32Bytes heq)]
      rfl
    · rw [if_neg heq, if_neg fun hbytes => heq (u32Bytes_injective hbytes)]
      rfl
  · obtain rfl := hin.resolve_left hlen
    have hdrop : v.inflow.drop 4 = [] := List.drop_eq_nil_of_le (by omega)
    rw [verdict, if_pos (Nat.lt_of_not_le hlen), hdrop]
    -- the peer is gone before it has sent four bytes
    show StreamM.run world true (.act (.readExact 4) _) _ = _
    rw [StreamM.run_readExact_act, if_neg hlen, if_pos rfl]
    rfl

theorem verdict_eq_ok_iff (inflow : List UInt8) :
    verdict inflow = .ok (.ok ()) ↔ u32Bytes HANDSHAKE_DATA <+: inflow := by
  have hlen : (u32Bytes HANDSHAKE_DATA).length = 4 := length_beBytes 4 _
  unfold verdict
  constructor
  · intro h
    split_ifs at h with h4 heq
    · rw [← heq]
      exact List.take_prefix 4 inflow
    · cases h
  · intro h
    have h4 : ¬inflow.length < 4 := Nat.not_lt.mpr (hlen ▸ h.length_le)
    rw [if_neg h4, if_pos]
    rw [List.prefix_iff_eq_take.mp h, hlen]

theorem verdict_eq_eof_iff (inflow : List UInt8) :
    verdict inflow = .error .eof ↔ inflow.length < 4 := by
  unfold verdict
  constructor
  · intro h
    split_ifs at h with h4
    exact h4
  · intro h
    rw [if_pos h]

/-- **The handshake against any peer.**  Whatever the peer sends before it is gone, in whatever
pieces: the constructor sends its four bytes, takes no more than four, and gets through exactly if
they are the ones that it has sent. -/
theorem safe_handshake {endpoint : Endpoint} (hidle : endpoint.Idle) {closed : Bool} {w : W}
    {i : List UInt8} (hin : 4 ≤ i.length ∨ closed = true) :
    SocketM.Safe world closed
      (fun x w' rest o => (x.1 = .ok (.ok ()) ↔ u32Bytes HANDSHAKE_DATA <+: i) ∧
        (x.1 = .error .eof ↔ i.length < 4) ∧ w' = w ∧ o = u32Bytes HANDSHAKE_DATA ∧
        x.2.writer.pending = [] ∧ x.2.reader.pending ++ rest = i.drop 4)
      (StreamM.compile (handshake h) endpoint) w i [] := by
  have hview : (endpoint.view w i []).inflow = i := by
    rw [Endpoint.view, hidle.reader]
    rfl
  have hrun := run_handshake world h (v := endpoint.view w i []) (by rwa [hview])
  have hout : Outcome.ofExcept (verdict (endpoint.view w i []).inflow) ≠ .starved := by
    cases verdict (endpoint.view w i []).inflow <;> exact fun heq => by cases heq
  refine (StreamM.safe_compile _ (endpoint.shows_view w i []) hrun hout).mono ?_
  rintro x w' rest o ⟨hx, hshows⟩
  obtain ⟨hinflow, houtflow, hsettled, hworld⟩ := hshows
  rw [hview] at hx hinflow
  have hverdict : x.1 = verdict i := (Outcome.ofExcept_injective hx).symm
  have hpending := hsettled rfl
  rw [hverdict]
  refine ⟨verdict_eq_ok_iff i, verdict_eq_eof_iff i, hworld.symm, ?_, hpending, hinflow.symm⟩
  rw [hpending, List.append_nil] at houtflow
  rw [← houtflow, Endpoint.view, hidle.writer]
  rfl

/-- A peer that sends the four bytes, and goes on. -/
theorem safe_handshake_echo :
    SocketM.Safe uncached false
      (fun x _ rest _ => x.1 = .ok (.ok ()) ∧ x.2.reader.pending ++ rest = [7])
      (StreamM.compile (handshake .windows) (.new BUFFER_SIZE BUFFER_SIZE_pos)) ()
      [0xFA, 0xFE, 0x5A, 0xBE, 7] [] := by
  have hidle := Endpoint.idle_new BUFFER_SIZE BUFFER_SIZE_pos
  refine (safe_handshake uncached .windows hidle (.inl (by decide))).mono ?_
  rintro x w rest o ⟨hok, -, -, -, -, hrest⟩
  exact ⟨hok.mpr ⟨[7], by decide⟩, hrest⟩

end Handshake

end Connection

/-- The constructor of `ClientHandler`, after which `handle_messages` is called with an empty
`rw_buffer`. -/
def ClientHandler.handshake (h : Host) : DaemonM (Option (List UInt8)) := do
  let handshakeBytes ← readU32 h
  writeU32 h handshakeBytes
  StreamM.flush
  return some []

namespace ClientHandler

theorem run_handshake {K : Type} (call : Kernel K) (h : Host) (d : UInt32) {closed : Bool}
    {v : View K} {rest : List UInt8} (hin : v.inflow = u32Bytes d ++ rest) :
    StreamM.run call closed (handshake h) v =
      (.done (some []), ⟨rest, v.outflow ++ u32Bytes d, true, v.world⟩) := by
  rw [handshake, StreamM.run_bind_done _ _ (reads_u32 h d _ call closed v rest hin),
    StreamM.run_bind_done _ _ (writes_u32 h d _ call closed _), StreamM.run_flush_bind]
  rfl

theorem handshake_readsThenWrites (h : Host) : (handshake h).ReadsThenWrites := by
  refine Prog.Phased.bind_left ?_ fun d => ?_
  · exact (onlyReads_readU32 h).noWrites
  · refine Prog.All.phased_right ?_
    exact (onlyWrites_writeU32 h d).noReads.bind fun _ =>
      StreamM.noReads_flush.bind fun _ => trivial

end ClientHandler

theorem Connection.handshake_writesThenReads {E : Type} {R : E → Type} (h : Host) :
    (Connection.handshake h : StreamM E R Exn _).WritesThenReads := by
  refine Prog.Phased.bind_left (onlyWrites_writeU32 h _).noReads fun _ => ?_
  refine Prog.Phased.bind_left StreamM.noReads_flush fun _ => Prog.All.phased_right ?_
  refine (onlyReads_readU32 h).noWrites.bind fun d => ?_
  split
  · trivial
  · trivial

/-- The two constructors and the bytes between them. -/
abbrev ShakingPair (K W : Type) :=
  Duplex ConnAct ConnAct.Res (Except Exn (Except FailedHandshake Unit) × Endpoint) W Syscall
    Syscall.Res (Except Exn (Option (List UInt8)) × Endpoint) K

/-- A connection from its first byte on. -/
inductive Link (K W : Type) where
  | shaking (x : ShakingPair K W)
  /-- The constructor of `Connection` raises. -/
  | refused (result : Except Exn (Except FailedHandshake Unit))
  | opened (s : Session K W)

namespace Link

variable {K W : Type} (P : Setup K W)

/-- The socket is connected and both constructors begin. -/
def start (w : W) : ShakingPair K W where
  left := StreamM.compile (Connection.handshake P.clientHost) (.new BUFFER_SIZE BUFFER_SIZE_pos)
  leftWorld := w
  right := StreamM.compile (ClientHandler.handshake P.daemonHost)
    (.new BUFFER_SIZE BUFFER_SIZE_pos)
  rightWorld := P.kernel₀
  toRight := []
  toLeft := []

/-- The session that begins when the client's constructor returns. -/
def session (x : ShakingPair K W) (endpoint : Endpoint) : Session K W where
  holder := .free endpoint
  clientWorld := x.leftWorld
  daemon := x.right
  kernel := x.rightWorld
  toDaemon := x.toRight
  toClient := x.toLeft
  history := []

/-- A step of the handshake. -/
inductive Shake : Link K W → Link K W → Prop
  | move {x y : ShakingPair K W} (h : Duplex.Step P.world P.call x y) :
      Shake (.shaking x) (.shaking y)
  /-- The daemon enters `handle_messages`, or goes round its loop. -/
  | loop {x : ShakingPair K W} {rwBuffer : List UInt8} {endpoint : Endpoint}
      (hd : x.right = .ret (.ok (some rwBuffer), endpoint)) :
      Shake (.shaking x) (.shaking { x with right := Session.round P rwBuffer endpoint })
  | opens {x : ShakingPair K W} {endpoint : Endpoint}
      (hx : x.left = .ret (.ok (.ok ()), endpoint)) :
      Shake (.shaking x) (.opened (session x endpoint))
  | refuses {x : ShakingPair K W} {result : Except Exn (Except FailedHandshake Unit)}
      {endpoint : Endpoint} (hx : x.left = .ret (result, endpoint)) (hr : result ≠ .ok (.ok ())) :
      Shake (.shaking x) (.refused result)

/-- A step of the connection. -/
inductive Step (Allowed : List (Completed W) → Call → W → ℕ → Prop) : Link K W → Link K W → Prop
  | shake {l l' : Link K W} (h : Shake P l l') : Step Allowed l l'
  | session {s s' : Session K W} (h : Session.Step P Allowed s s') :
      Step Allowed (.opened s) (.opened s')

/-- **The invariant of the handshake.**  The daemon reads and answers (`talking`), or it has
answered and waits for the first request (`echoed`). -/
inductive Shaking (x : ShakingPair K W) : (loops : ℕ) → Prop
  | talking (ls lr rs rr : List UInt8)
      (hx : Duplex.Exchanging P.world P.call (u32Bytes Connection.HANDSHAKE_DATA)
        (u32Bytes Connection.HANDSHAKE_DATA) (fun r _ => r.1 = .ok (.ok ()) ∧ r.2.Idle)
        (fun r k => (∃ rwBuffer, r.1 = .ok (some rwBuffer)) ∧ r.2.Idle ∧ k = P.kernel₀)
        x ls lr rs rr) : Shaking x 1
  | echoed (sent : List UInt8)
      (hsafe : SocketM.Safe P.world false
        (fun r _ i o => i = [] ∧ o = sent ∧ r.1 = .ok (.ok ()) ∧ r.2.Idle) x.left x.leftWorld
        x.toLeft sent)
      (htoRight : x.toRight = []) (hd : Session.Waiting P x.right x.rightWorld P.kernel₀) :
      Shaking x 0

/-! ## The handshake goes through -/

variable {P}

/-- The daemon sends the four bytes back that it reads. -/
theorem safe_echo (d : UInt32) {endpoint : Endpoint} (hidle : endpoint.Idle) (k : K) :
    SocketM.Safe P.call false
      (fun r k' i o => i = [] ∧ o = u32Bytes d ∧ (∃ rwBuffer, r.1 = .ok (some rwBuffer)) ∧
        r.2.Idle ∧ k' = k)
      (StreamM.compile (ClientHandler.handshake P.daemonHost) endpoint) k (u32Bytes d) [] := by
  have hin : (endpoint.view k (u32Bytes d) []).inflow = u32Bytes d ++ [] := by
    rw [Endpoint.view, hidle.reader, List.append_nil]
    rfl
  have hrun := @ClientHandler.run_handshake _ P.call P.daemonHost d false _ _ hin
  refine (StreamM.safe_compile _ (endpoint.shows_view k (u32Bytes d) []) hrun (by simp)).mono ?_
  rintro r k' i o ⟨hr, hshows⟩
  obtain ⟨hidle', hi, ho⟩ := hshows.idle rfl rfl
  have hok : Outcome.ofExcept r.1 = Outcome.ofExcept (.ok (some [])) := hr.symm
  refine ⟨hi, ?_, ⟨[], Outcome.ofExcept_injective hok⟩, hidle', hshows.world.symm⟩
  rw [ho]
  simp [Endpoint.view, hidle.writer]

theorem shaking_start (w : W) : Shaking P (start P w) 1 := by
  have hidle := Endpoint.idle_new BUFFER_SIZE BUFFER_SIZE_pos
  have hlen : (u32Bytes Connection.HANDSHAKE_DATA).length = 4 := length_beBytes 4 _
  refine .talking [] _ [] _ ⟨rfl, rfl, ?_, ?_, ?_, ?_, fun h => absurd rfl h⟩
  · refine (Connection.safe_handshake P.world P.clientHost hidle (.inl hlen.ge)).mono ?_
    rintro r w' rest o ⟨hok, -, -, ho, hwriter, hreader⟩
    rw [← hlen, List.drop_length] at hreader
    obtain ⟨hpending, hrest⟩ := List.append_eq_nil_iff.mp hreader
    exact ⟨hrest, ho, hok.mpr List.prefix_rfl, hpending, hwriter⟩
  · exact safe_echo Connection.HANDSHAKE_DATA hidle P.kernel₀
  · exact StreamM.compile_phased_of_writesThenReads
      (Connection.handshake_writesThenReads P.clientHost) _
  · exact StreamM.compile_phased_of_readsThenWrites
      (ClientHandler.handshake_readsThenWrites P.daemonHost) _

variable {x y : ShakingPair K W} {loops : ℕ}

/-- Either constructor moves. -/
theorem Shaking.move (h : Shaking P x loops) (hs : Duplex.Step P.world P.call x y) :
    Shaking P y loops := by
  cases h with
  | talking ls lr rs rr hx =>
    obtain ⟨ls', lr', rs', rr', hx'⟩ := hx.step hs
    exact .talking ls' lr' rs' rr' hx'
  | echoed sent hsafe htoRight hd =>
    cases hs with
    | left hp =>
      obtain ⟨bs, ho, hsafe'⟩ := hp.safe [] (by rwa [List.append_nil])
      obtain ⟨rest, hrest⟩ := hsafe'.isPrefix_of_post fun _ _ _ _ hq => hq.2.1
      -- all it had to send has been sent
      obtain rfl : bs = [] := by
        rw [List.append_assoc, List.self_eq_append_right] at hrest
        exact (List.append_eq_nil_iff.mp hrest).1
      rw [List.append_nil, List.append_nil] at hsafe'
      exact .echoed sent hsafe' (ho.trans (by rw [List.append_nil]; exact htoRight)) hd
    | right hp => exact (hd.not_step htoRight hp).elim

/-- The daemon enters `handle_messages`. -/
theorem Shaking.loop (h : Shaking P x loops) {rwBuffer : List UInt8} {endpoint : Endpoint}
    (hd : x.right = .ret (.ok (some rwBuffer), endpoint)) :
    loops = 1 ∧ Shaking P { x with right := Session.round P rwBuffer endpoint } 0 := by
  cases h with
  | talking ls lr rs rr hx =>
    -- the daemon is done, so all that is left is for the client to read
    obtain ⟨hask, hans, hls, hrs, -, -, -⟩ := hx
    rw [hd] at hrs
    obtain ⟨hin, hout, -, hidle, hk⟩ := hrs
    obtain ⟨htoRight, rfl⟩ := List.append_eq_nil_iff.mp hin
    obtain rfl : rr = [] := by rwa [hout, List.self_eq_append_right] at hans
    rw [List.append_nil] at hask hls
    rw [← hask] at hls
    exact ⟨rfl, .echoed _ hls htoRight ⟨rwBuffer, endpoint, rfl, hidle, hk⟩⟩
  | echoed sent hsafe htoRight hw =>
    obtain ⟨n, cont, hrecv⟩ := hw.eq_recv
    rw [hd] at hrecv
    cases hrecv

/-- **The client's constructor returns, and the session begins in step.** -/
theorem Shaking.left_done (h : Shaking P x loops)
    {result : Except Exn (Except FailedHandshake Unit)} {endpoint : Endpoint}
    (hx : x.left = .ret (result, endpoint)) :
    result = .ok (.ok ()) ∧ Session.Inv P (session x endpoint) := by
  have faithful : Session.Faithful P (session x endpoint).history := by
    intro before e after heq
    simp [session] at heq
  cases h with
  | talking ls lr rs rr hex =>
    have hne : u32Bytes Connection.HANDSHAKE_DATA ≠ [] := by decide
    obtain ⟨htoRight, htoLeft, ⟨hok, hidle⟩, hall, hsafe⟩ := hex.left_done hne hx
    exact ⟨hok, ⟨1, .free rfl hidle htoRight htoLeft (Or.inl ⟨rfl, hall, _, hsafe⟩)⟩, faithful⟩
  | echoed sent hsafe htoRight hd =>
    rw [hx] at hsafe
    obtain ⟨htoLeft, -, hok, hidle⟩ := hsafe
    exact ⟨hok, ⟨0, .free rfl hidle htoRight htoLeft (Or.inr ⟨rfl, hd⟩)⟩, faithful⟩

/-- **No deadlock** before the session begins. -/
theorem Shaking.progress (h : Shaking P x loops) : ∃ l, Shake P (.shaking x) l := by
  rcases hleft : x.left with ⟨result, endpoint⟩ | e | ⟨e, cont⟩
  · obtain ⟨rfl, -⟩ := h.left_done hleft
    exact ⟨_, .opens hleft⟩
  · exact e.elim
  · cases h with
    | talking ls lr rs rr hx =>
      rcases hx.progress with ⟨a, ha⟩ | ⟨y, hy⟩
      · rw [hleft] at ha
        cases ha
      · exact ⟨_, .move hy⟩
    | echoed sent hsafe htoRight hd =>
      obtain ⟨c, v, d, k, toRight, toLeft⟩ := x
      obtain rfl : c = .act e cont := hleft
      have hmove : ∃ y, PartyStep P.world (.act e cont, v, toLeft, toRight) y := by
        by_cases he : e.NotRecv
        · exact Duplex.exists_step_of_notRecv hsafe he
        · cases e with
          | send bs => exact (he trivial).elim
          | call e => exact (he trivial).elim
          | recv n =>
            -- the rest of the echo is on its way
            have hne : toLeft ≠ [] := fun h0 => Bool.false_ne_true (hsafe.2.1 h0).1
            exact Duplex.exists_step_of_recv P.world hsafe.1 hne
      obtain ⟨⟨c', v', i', o'⟩, hp⟩ := hmove
      exact ⟨_, .move (.left hp)⟩

/-- **No run of the handshake is infinite.** -/
theorem Shaking.acc (h : Shaking P x loops) : Acc (fun l' l => Shake P l l') (.shaking x) := by
  induction loops using Nat.strong_induction_on generalizing x with
  | _ loops ih =>
    have hacc := Duplex.acc_step P.world P.call x
    induction hacc with
    | intro x _ ihx =>
      refine Acc.intro _ fun l hl => ?_
      cases hl with
      | move hs => exact ihx _ hs (h.move hs)
      | loop hd =>
        obtain ⟨rfl, h'⟩ := h.loop hd
        exact ih 0 Nat.one_pos h'
      | opens hx => exact Runs.acc_of_stuck fun l' hl' => by cases hl'
      | refuses hx hr => exact Runs.acc_of_stuck fun l' hl' => by cases hl'

/-! ## The whole connection -/

variable (P) in
/-- What holds of a connection at any time. -/
def Inv : Link K W → Prop
  | .shaking x => ∃ loops, Shaking P x loops
  | .refused _ => False
  | .opened s => Session.Inv P s

variable {Allowed : List (Completed W) → Call → W → ℕ → Prop} {l l' : Link K W}

theorem Inv.shake (h : Inv P l) (hs : Shake P l l') : Inv P l' := by
  cases hs with
  | move hs =>
    obtain ⟨loops, hx⟩ := h
    exact ⟨loops, hx.move hs⟩
  | loop hd =>
    obtain ⟨loops, hx⟩ := h
    exact ⟨0, (hx.loop hd).2⟩
  | opens hleft =>
    obtain ⟨loops, hx⟩ := h
    exact (hx.left_done hleft).2
  | refuses hleft hr =>
    obtain ⟨loops, hx⟩ := h
    exact hr (hx.left_done hleft).1

theorem Inv.of_reachable (hA : ∀ history c w rounds, Allowed history c w rounds →
    Session.Admissible P history c w rounds) {w : W}
    (hrun : Relation.ReflTransGen (Step P Allowed) (.shaking (start P w)) l) : Inv P l := by
  induction hrun with
  | refl => exact ⟨1, shaking_start w⟩
  | tail _ hst ih =>
    cases hst with
    | shake hs => exact ih.shake hs
    | session hs => exact Session.Inv.step hA ih hs

/-- **From the first byte on.**  However the steps of the two sides are interleaved and the sockets
cut the data: the client's constructor never raises, until it returns something can move, and it is
never kept for ever; the session that it begins is in step from then on, so that every method that
asks the daemon gets the answer to its own request and comes to its end. -/
theorem in_step (hA : ∀ history c w rounds, Allowed history c w rounds →
    Session.Admissible P history c w rounds) {w : W}
    (hrun : Relation.ReflTransGen (Step P Allowed) (.shaking (start P w)) l) :
    (∀ result, l ≠ .refused result) ∧
    (∀ x, l = .shaking x → (∃ l', Shake P l l') ∧ Acc (fun l' l => Shake P l l') l) ∧
    ∀ s, l = .opened s →
      (∀ endpoint, s.holder = .free endpoint → endpoint.Idle ∧ s.toDaemon = [] ∧
        s.toClient = [] ∧
        ∃ loops, Session.Ready P loops s.daemon s.kernel (Session.kernelAfter P s.history)) ∧
      Session.Faithful P s.history ∧
      Acc (fun y x => Session.Work P x y) s ∧
      (∀ t c w p, s.holder = .held t c w p → ∃ s', Session.Work P s s') := by
  have hinv := Inv.of_reachable hA hrun
  refine ⟨?_, ?_, ?_⟩
  · rintro result rfl
    exact hinv
  · rintro x rfl
    obtain ⟨loops, hx⟩ := hinv
    exact ⟨hx.progress, hx.acc⟩
  · rintro s rfl
    obtain ⟨⟨loops, hstage⟩, hfaith⟩ := hinv
    exact ⟨fun endpoint hs => hstage.free_inv hs, hfaith, hstage.acc,
      fun t c w p hs => hstage.progress hs⟩

/-- The handshake can always be completed. -/
theorem exists_opened {x : ShakingPair K W} {loops : ℕ} (h : Shaking P x loops) :
    ∃ y endpoint, Relation.ReflTransGen (Shake P) (.shaking x) (.opened (session y endpoint)) := by
  obtain ⟨l, hrun, hstuck⟩ := Runs.exists_stuck h.acc
  have hx : Inv P (.shaking x) := ⟨loops, h⟩
  have hinv : Inv P l := Runs.invariant (fun _ _ hl hs => hl.shake hs) hx hrun
  cases l with
  | shaking y =>
    obtain ⟨loops', hy⟩ := hinv
    obtain ⟨l', hs⟩ := hy.progress
    exact (hstuck l' hs).elim
  | refused result => exact hinv.elim
  | opened s =>
    rcases hrun.cases_tail with heq | ⟨l, -, hs⟩
    · cases heq
    · cases hs with
      | opens hx => exact ⟨_, _, hrun⟩

/-- A client of the device with two files shakes hands, one thread writes two bytes and another
reads two. -/
theorem exists_twoThreads : ∃ (s : Session Bool Unit) (endpoint : Endpoint)
    (result₁ result₂ : Except Exn Reply),
    Relation.ReflTransGen (Step Session.twoFilesSetup (Session.Admissible Session.twoFilesSetup))
      (.shaking (start Session.twoFilesSetup ())) (.opened s) ∧
    s.holder = .free endpoint ∧
    s.history = [⟨0, .writeToFile 3 1 ⟨[8, 9], by decide⟩, (), result₁⟩,
      ⟨1, .readFromFile 3 0 2, (), result₂⟩] := by
  obtain ⟨y, endpoint, hshake⟩ := exists_opened (shaking_start (P := Session.twoFilesSetup) ())
  have hA := fun history c w rounds
      (h : Session.Admissible Session.twoFilesSetup history c w rounds) => h
  have hopened : Relation.ReflTransGen
      (Step _ (Session.Admissible Session.twoFilesSetup)) _ _ :=
    hshake.lift id fun _ _ h => Step.shake h
  obtain ⟨s₁, result₁, endpoint₁, hrun₁, hfree₁, hhistory₁⟩ :=
    Session.Inv.exists_call hA (Inv.of_reachable hA hopened) rfl 0
      (Session.admissible_write_twoFiles _)
  have hrun₁ := hopened.trans (hrun₁.lift Link.opened fun _ _ h => .session h)
  obtain ⟨s₂, result₂, endpoint₂, hrun₂, hfree₂, hhistory₂⟩ :=
    Session.Inv.exists_call hA (Inv.of_reachable hA hrun₁) hfree₁ 1
      (Session.admissible_read_twoFiles _)
  have hrun₂ := hrun₁.trans (hrun₂.lift Link.opened fun _ _ h => .session h)
  refine ⟨s₂, endpoint₂, result₁, result₂, hrun₂, hfree₂, ?_⟩
  rw [hhistory₂, hhistory₁]
  rfl

/-- Both get their own answers, and nothing is in flight then. -/
theorem in_step_twoThreads : ∃ s : Session Bool Unit,
    Relation.ReflTransGen (Step Session.twoFilesSetup (Session.Admissible Session.twoFilesSetup))
      (.shaking (start Session.twoFilesSetup ())) (.opened s) ∧
    s.history = [⟨0, .writeToFile 3 1 ⟨[8, 9], by decide⟩, (), .ok (.status .success)⟩,
      ⟨1, .readFromFile 3 0 2, (), .ok (.data [7, 7])⟩] ∧
    s.toDaemon = [] ∧ s.toClient = [] := by
  obtain ⟨s, endpoint, result₁, result₂, hrun, hfree, hhistory⟩ := exists_twoThreads
  obtain ⟨-, -, hopen⟩ := in_step (fun _ _ _ _ h => h) hrun
  obtain ⟨hempty, hfaith, -, -⟩ := hopen s rfl
  obtain ⟨-, htoDaemon, htoClient, -⟩ := hempty endpoint hfree
  have hwritten : result₁ = .ok (.status .success) := hfaith [] _ _ hhistory id
  have hread : result₂ = .ok (.data [7, 7]) := hfaith [_] _ [] hhistory id
  refine ⟨s, hrun, ?_, htoDaemon, htoClient⟩
  rw [hhistory, hwritten, hread]

end Link

end NandroidFS
