import NandroidFS.Daemon.MessageLoop
import NandroidFS.Protocol.Handshake

/-!
# The end of a connection

The destructor of `Nandroid` closes the drive, so that no method of the connection is called any
more, and deletes the connection.  The daemon is told nothing; it meets the end of the stream.  At
the start of a request this is where `handle_messages` returns, and the daemon says goodbye.
Anywhere else it is an `EOFException`, and so is a failure of `send`, now that nobody listens: the
daemon then says that it was disconnected due to an error.

* `Departed`: the daemon after the socket has been closed on the other side.
* `Departed.goodbye_of_free`: between two methods the connection can be closed at any time.  The
  daemon ends by itself and without an error, and what it has done to the device is what the methods
  of the session have asked for.
-/

namespace NandroidFS

/-- The daemon after the client has closed the connection, with what is still queued for it, and how
`handle_client` ends. -/
inductive Departed (K : Type) where
  | serving (daemon : DaemonProg) (kernel : K) (toDaemon : List UInt8)
  /-- `handle_messages` has returned. -/
  | goodbye (kernel : K)
  /-- `handle_messages` has raised. -/
  | disconnected (kernel : K)

namespace Departed

variable {K W : Type} (P : Setup K W)

/-- A step of the daemon on its own. -/
inductive Step : Departed K → Departed K → Prop
  | move {d d' : DaemonProg} {k k' : K} {i i' o o' : List UInt8}
      (hp : PartyStep P.call (d, k, i, o) (d', k', i', o')) :
      Step (.serving d k i) (.serving d' k' i')
  /-- Nothing is queued any more, and nothing will be. -/
  | eof {n : ℕ} {cont : Chunk n → DaemonProg} {k : K} :
      Step (.serving (.act (.recv n) cont) k []) (.serving (cont (.eof n)) k [])
  /-- Nobody takes what is sent. -/
  | broken {bs : List UInt8} {cont : ℕ → DaemonProg} {k : K} {i : List UInt8} :
      Step (.serving (.act (.send bs) cont) k i) (.disconnected k)
  | loop {rwBuffer : List UInt8} {endpoint : Endpoint} {k : K} {i : List UInt8} :
      Step (.serving (.ret (.ok (some rwBuffer), endpoint)) k i)
        (.serving (Session.round P rwBuffer endpoint) k i)
  | returns {endpoint : Endpoint} {k : K} {i : List UInt8} :
      Step (.serving (.ret (.ok none, endpoint)) k i) (.goodbye k)
  | raises {e : Exn} {endpoint : Endpoint} {k : K} {i : List UInt8} :
      Step (.serving (.ret (.error e, endpoint)) k i) (.disconnected k)

/-- The daemon is at the start of a round, or in it, and will find that nothing comes. -/
def Parting (d : DaemonProg) (k next : K) : Prop :=
  SocketM.Safe P.call true (fun x k' _ o => x.1 = .ok none ∧ k' = next ∧ o = []) d k [] []

/-- **The invariant after the end**: everything that was sent has been read, and nothing more is
sent. -/
def Inv (next : K) : Departed K → Prop
  | .serving d k i => i = [] ∧ (Session.Finishing P d k next ∨ Parting P d k next)
  | .goodbye k => k = next
  | .disconnected _ => False

variable {P} {d d' : DaemonProg} {k k' next : K} {i i' o o' : List UInt8} {x y : Departed K}

/-- A daemon that waits for a request parts when none comes. -/
theorem parting_of_waiting (h : Session.Waiting P d k next) : Parting P d k next := by
  obtain ⟨rwBuffer, endpoint, rfl, hidle, rfl⟩ := h
  have hin : (endpoint.view k [] []).inflow = [] := by
    rw [Endpoint.view, hidle.reader]
    rfl
  have hrun := ClientHandler.run_handleMessage_of_inflow_nil P.call P.daemonHost rwBuffer hin
  refine (StreamM.safe_compile _ (endpoint.shows_view k [] []) hrun (by simp)).mono ?_
  rintro x k' i o ⟨hx, hshows⟩
  have hok : Outcome.ofExcept x.1 = Outcome.ofExcept (.ok none) := hx.symm
  refine ⟨Outcome.ofExcept_injective hok, hshows.world.symm, ?_⟩
  have hout := hshows.outflow
  rw [Endpoint.view, hidle.writer] at hout
  exact (List.append_eq_nil_iff.mp hout.symm).1

theorem Parting.not_send {bs : List UInt8} {cont : ℕ → DaemonProg}
    (h : Parting P (.act (.send bs) cont) k next) : False := by
  obtain ⟨hne, hsend⟩ := h
  obtain ⟨rest, hrest⟩ := (hsend bs.length (List.length_pos_iff.mpr hne) le_rfl).isPrefix_of_post
    fun _ _ _ _ hq => hq.2.2
  rw [List.take_length, List.nil_append] at hrest
  exact hne (List.append_eq_nil_iff.mp hrest.symm).1

theorem Parting.step (h : Parting P d k next) (hi : i = [])
    (hp : PartyStep P.call (d, k, i, o) (d', k', i', o')) : Parting P d' k' next ∧ i' = [] := by
  cases hp with
  | recv hc => exact (hc (List.append_eq_nil_iff.mp hi).1).elim
  | send hm hle => exact h.not_send.elim
  | call => exact ⟨h, hi⟩

/-- A daemon that finishes has sent everything. -/
theorem not_finishing_send {bs : List UInt8} {cont : ℕ → DaemonProg}
    (h : Session.Finishing P (.act (.send bs) cont) k next) : False := by
  have hne : bs ≠ [] := by
    obtain ⟨-, sent, hsafe⟩ := h
    exact hsafe.1
  have hp : PartyStep P.call (.act (.send bs) cont, k, [], []) (cont bs.length, k, [],
      [] ++ bs.take bs.length) := .send (List.length_pos_iff.mpr hne) le_rfl
  obtain ⟨-, -, ho⟩ := h.step hp
  rw [List.take_length, List.nil_append] at ho
  exact hne ho

/-- **Every step keeps the invariant.** -/
theorem Inv.step (h : Inv P next x) (hs : Step P x y) : Inv P next y := by
  cases hs with
  | move hp =>
    obtain ⟨hi, hf | hpart⟩ := h
    · obtain ⟨hf', rfl, -⟩ := hf.step hp
      exact ⟨hi, .inl hf'⟩
    · obtain ⟨hpart', hi'⟩ := hpart.step hi hp
      exact ⟨hi', .inr hpart'⟩
  | eof =>
    obtain ⟨hi, hf | hpart⟩ := h
    · exact hf.1.1.elim
    · exact ⟨rfl, .inr (hpart.2.1 rfl).2⟩
  | broken =>
    obtain ⟨hi, hf | hpart⟩ := h
    · exact not_finishing_send hf
    · exact hpart.not_send
  | loop =>
    obtain ⟨hi, hf | hpart⟩ := h
    · exact ⟨hi, .inr (parting_of_waiting hf.loop)⟩
    · cases hpart.1
  | returns =>
    obtain ⟨hi, hf | hpart⟩ := h
    · obtain ⟨⟨rwBuffer, hret⟩, -, -⟩ := hf.ret
      cases hret
    · exact hpart.2.1
  | raises =>
    obtain ⟨hi, hf | hpart⟩ := h
    · obtain ⟨⟨rwBuffer, hret⟩, -, -⟩ := hf.ret
      cases hret
    · cases hpart.1

/-- A daemon that parts does so after finitely many steps: each moves its program to a subtree. -/
theorem Parting.acc (h : Parting P d k next) (hi : i = []) :
    Acc (fun y x => Step P x y) (.serving d k i) := by
  induction d generalizing k i with
  | ret r =>
    refine Acc.intro _ fun y hy => ?_
    cases hy with
    | move hp => cases hp
    | loop => cases h.1
    | returns => exact Runs.acc_of_stuck fun y hy => by cases hy
    | raises => cases h.1
  | fail e => exact e.elim
  | act e cont ih =>
    refine Acc.intro _ fun y hy => ?_
    cases hy with
    | move hp =>
      obtain ⟨h', hi'⟩ := h.step hi hp
      cases hp with
      | recv hc => exact ih _ h' hi'
      | send hm hle => exact ih _ h' hi'
      | call => exact ih _ h' hi'
    | eof => exact ih _ (h.2.1 rfl).2 rfl
    | broken => exact Runs.acc_of_stuck fun y hy => by cases hy

/-- So does one that has still to finish its last request. -/
theorem acc_of_finishing (h : Session.Finishing P d k next) (hi : i = []) :
    Acc (fun y x => Step P x y) (.serving d k i) := by
  induction d generalizing k i with
  | ret r =>
    refine Acc.intro _ fun y hy => ?_
    cases hy with
    | move hp => cases hp
    | loop => exact (parting_of_waiting h.loop).acc hi
    | returns => exact Runs.acc_of_stuck fun y hy => by cases hy
    | raises => exact Runs.acc_of_stuck fun y hy => by cases hy
  | fail e => exact e.elim
  | act e cont ih =>
    refine Acc.intro _ fun y hy => ?_
    cases hy with
    | move hp =>
      obtain ⟨h', hi', -⟩ := h.step hp
      cases hp with
      | recv hc => exact h.1.1.elim
      | send hm hle => exact ih _ h' (hi'.trans hi)
      | call => exact ih _ h' (hi'.trans hi)
    | eof => exact h.1.1.elim
    | broken => exact Runs.acc_of_stuck fun y hy => by cases hy

/-- **No run is infinite.** -/
theorem Inv.acc (h : Inv P next x) : Acc (fun y x => Step P x y) x := by
  cases x with
  | serving d k i =>
    obtain ⟨hi, hf | hpart⟩ := h
    · exact acc_of_finishing hf hi
    · exact hpart.acc hi
  | goodbye k => exact Runs.acc_of_stuck fun y hy => by cases hy
  | disconnected k => exact h.elim

/-- **No run gets stuck** before the daemon has said goodbye. -/
theorem Inv.progress (h : Inv P next x) : x = .goodbye next ∨ ∃ y, Step P x y := by
  cases x with
  | goodbye k => exact .inl (congrArg Departed.goodbye h)
  | disconnected k => exact h.elim
  | serving d k i =>
    right
    obtain ⟨rfl, hf | hpart⟩ := h
    · rcases hf.progress [] [] with ⟨rwBuffer, endpoint, rfl⟩ | ⟨⟨d', k', i', o'⟩, hp⟩
      · exact ⟨_, .loop⟩
      · exact ⟨_, .move hp⟩
    · rcases d with ⟨result, endpoint⟩ | e | ⟨e, cont⟩
      · obtain rfl : result = .ok none := hpart.1
        exact ⟨_, .returns⟩
      · exact e.elim
      · cases e with
        | recv n => exact ⟨_, .eof⟩
        | send bs => exact hpart.not_send.elim
        | call e => exact ⟨_, .move (o := []) .call⟩

/-- The daemon can be left to itself. -/
theorem Inv.exists_goodbye (h : Inv P next x) :
    Relation.ReflTransGen (Step P) x (.goodbye next) := by
  obtain ⟨y, hrun, hstuck⟩ := Runs.exists_stuck h.acc
  have hy : Inv P next y := Runs.invariant (fun _ _ hx hs => hx.step hs) h hrun
  rcases hy.progress with rfl | ⟨z, hz⟩
  · exact hrun
  · exact (hstuck z hz).elim

/-- The daemon between two methods, at the moment at which the client closes the connection. -/
theorem inv_of_free {s : Session K W} (h : Session.Inv P s) {endpoint : Endpoint}
    (hs : s.holder = .free endpoint) :
    Inv P (Session.kernelAfter P s.history) (.serving s.daemon s.kernel s.toDaemon) := by
  obtain ⟨loops, hstage⟩ := h.stage
  obtain ⟨-, htoDaemon, -, loops', hready⟩ := hstage.free_inv hs
  refine ⟨htoDaemon, ?_⟩
  rcases hready with ⟨-, hf⟩ | ⟨-, hw⟩
  · exact .inl hf
  · exact .inr (parting_of_waiting hw)

/-- **A connection that is closed between two methods ends in order**, from the handshake on and
after any methods of any threads: whatever the daemon is still doing at that moment, it says goodbye
after finitely many steps and is never disconnected by an error, and the device is then as the
methods that have returned have left it. -/
theorem goodbye_of_free {Allowed : List (Completed W) → Call → W → ℕ → Prop}
    (hA : ∀ history c w rounds, Allowed history c w rounds →
      Session.Admissible P history c w rounds) {w : W} {s : Session K W}
    (hrun : Relation.ReflTransGen (Link.Step P Allowed) (.shaking (Link.start P w)) (.opened s))
    {endpoint : Endpoint} (hs : s.holder = .free endpoint)
    (hrest : Relation.ReflTransGen (Step P) (.serving s.daemon s.kernel s.toDaemon) x) :
    (∀ k, x ≠ .disconnected k) ∧ (∀ k, x = .goodbye k → k = Session.kernelAfter P s.history) ∧
      Acc (fun y x => Step P x y) x ∧ ((∃ k, x = .goodbye k) ∨ ∃ y, Step P x y) := by
  have hinv : Inv P (Session.kernelAfter P s.history) x :=
    Runs.invariant (fun _ _ hx hst => hx.step hst)
      (inv_of_free (Link.Inv.of_reachable hA hrun) hs) hrest
  refine ⟨?_, ?_, hinv.acc, ?_⟩
  · rintro k rfl
    exact hinv
  · rintro k rfl
    exact hinv
  · rcases hinv.progress with hbye | hstep
    · exact .inl ⟨_, hbye⟩
    · exact .inr hstep

/-- Two threads have written and read when the client leaves, and the daemon leaves too. -/
theorem goodbye_of_free_twoThreads : ∃ (s : Session Bool Unit) (result₁ result₂ : Except Exn Reply),
    Relation.ReflTransGen
      (Link.Step Session.twoFilesSetup (Session.Admissible Session.twoFilesSetup))
      (.shaking (Link.start Session.twoFilesSetup ())) (.opened s) ∧
    s.history = [⟨0, .writeToFile 3 1 ⟨[8, 9], by decide⟩, (), result₁⟩,
      ⟨1, .readFromFile 3 0 2, (), result₂⟩] ∧
    ∃ k, Relation.ReflTransGen (Step Session.twoFilesSetup)
        (.serving s.daemon s.kernel s.toDaemon) (.goodbye k) ∧
      k = Session.kernelAfter Session.twoFilesSetup s.history := by
  obtain ⟨s, endpoint, result₁, result₂, hrun, hfree, hhistory⟩ := Link.exists_twoThreads
  have hA := fun history c w rounds
      (h : Session.Admissible Session.twoFilesSetup history c w rounds) => h
  have hrest := (inv_of_free (Link.Inv.of_reachable hA hrun) hfree).exists_goodbye
  obtain ⟨-, hkernel, -, -⟩ := goodbye_of_free hA hrun hfree hrest
  exact ⟨s, result₁, result₂, hrun, hhistory, _, hrest, hkernel _ rfl⟩

end Departed

end NandroidFS
