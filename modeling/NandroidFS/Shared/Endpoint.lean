import NandroidFS.Streams.ByteStream
import NandroidFS.Shared.Serialization

/-!
# Stream programs on buffers

`compile` runs a stream program through one reader and one writer.  The main result is
`safe_compile`: whatever the buffers hold and however the socket cuts the data, a compiled program
does exactly what `StreamM.run` says of whole streams.  Everything above this file is about `run`.

The last section carries over the order of reads and writes, which is what two compiled programs
need to talk to each other without getting stuck.
-/

namespace NandroidFS

/-- The reader and the writer of one side of a connection. -/
structure Endpoint where
  reader : DataReader
  writer : DataWriter

namespace Endpoint

/-- Both buffers empty, as the constructors leave them. -/
def new (bufferSize : ℕ) (h : 0 < bufferSize) : Endpoint :=
  ⟨DataReader.new bufferSize h, DataWriter.new bufferSize h⟩

/-- What a stream program sees of an endpoint whose socket has `i` to come and `o` sent. -/
structure Shows {W : Type} (s : Endpoint) (w : W) (i o : List UInt8) (v : View W) : Prop where
  inflow : v.inflow = s.reader.pending ++ i
  outflow : v.outflow = o ++ s.writer.pending
  settled : v.settled = true → s.writer.pending = []
  world : v.world = w

/-- Nothing is buffered on either side. -/
structure Idle (s : Endpoint) : Prop where
  reader : s.reader.pending = []
  writer : s.writer.pending = []

theorem idle_new (bufferSize : ℕ) (h : 0 < bufferSize) : (new bufferSize h).Idle where
  reader := by simp [new, DataReader.new, DataReader.pending]
  writer := by simp [new, DataWriter.new, DataWriter.pending]

/-- The whole-stream view of an endpoint. -/
def view {W : Type} (s : Endpoint) (w : W) (i o : List UInt8) : View W where
  inflow := s.reader.pending ++ i
  outflow := o ++ s.writer.pending
  settled := s.writer.pending.isEmpty
  world := w

theorem shows_view {W : Type} (s : Endpoint) (w : W) (i o : List UInt8) :
    s.Shows w i o (s.view w i o) :=
  ⟨rfl, rfl, fun h => List.isEmpty_iff.mp h, rfl⟩

/-- A view with nothing to read and nothing held back is of an idle endpoint with an empty
input. -/
theorem Shows.idle {W : Type} {s : Endpoint} {w : W} {i o : List UInt8} {v : View W}
    (h : s.Shows w i o v) (hin : v.inflow = []) (hset : v.settled = true) :
    s.Idle ∧ i = [] ∧ o = v.outflow := by
  have hpi := List.append_eq_nil_iff.mp (h.inflow.symm.trans hin)
  refine ⟨⟨hpi.1, h.settled hset⟩, hpi.2, ?_⟩
  rw [h.outflow, h.settled hset, List.append_nil]

end Endpoint

/-- What a program raised or returned, as an outcome. -/
def Outcome.ofExcept {ε α : Type} : Except ε α → Outcome ε α
  | .ok a => .done a
  | .error e => .failed e

theorem Outcome.ofExcept_injective {ε α : Type} :
    Function.Injective (Outcome.ofExcept : Except ε α → Outcome ε α) := by
  rintro (e | a) (e' | a') heq <;> cases heq <;> rfl

namespace StreamM

variable {E : Type} {R : E → Type} {ε α W : Type}

/-- A stream program run through the reader and the writer of an endpoint. -/
def compile : StreamM E R ε α → Endpoint → SocketM E R (Except ε α × Endpoint)
  | .ret a, s => .ret (.ok a, s)
  | .fail e, s => .ret (.error e, s)
  | .act (.readExact n) k, s =>
      s.reader.readExact n >>= fun x => compile (k x.1) { s with reader := x.2 }
  | .act (.writeExact bs) k, s =>
      s.writer.writeExact bs >>= fun d => compile (k ()) { s with writer := d }
  | .act .flush k, s => s.writer.flush >>= fun d => compile (k ()) { s with writer := d }
  | .act (.call e) k, s => .act (.call e) fun r => compile (k r) s

variable {world : (e : E) → W → R e × W} {closed : Bool}

/-- **Buffers and packet boundaries cannot be seen.**  However the socket cuts the data and
whatever the buffers hold, a compiled program ends as the run on whole streams does, and leaves an
endpoint that shows the view the run leaves. -/
theorem safe_compile (p : StreamM E R ε α) {s : Endpoint} {w : W} {i o : List UInt8} {v v' : View W}
    {out : Outcome ε α} (hs : s.Shows w i o v) (hrun : run world closed p v = (out, v'))
    (hout : out ≠ .starved) :
    SocketM.Safe world closed
      (fun x w i o => out = Outcome.ofExcept x.1 ∧ x.2.Shows w i o v') (compile p s) w i o := by
  induction p generalizing s w i o v with
  | ret a =>
    obtain ⟨rfl, rfl⟩ := Prod.mk.inj hrun
    exact ⟨rfl, hs⟩
  | fail e =>
    obtain ⟨rfl, rfl⟩ := Prod.mk.inj hrun
    exact ⟨rfl, hs⟩
  | act e k ih =>
    obtain ⟨hin, hof, hset, hw⟩ := hs
    cases e with
    | readExact n =>
      rw [run_readExact_act] at hrun
      rw [compile, SocketM.safe_bind]
      refine DataReader.safe_readExact ?_ (fun r' i' hle hr' => ?_) (fun r' hlt hr' => ?_)
      · rw [← hin]
        by_cases hle : n ≤ v.inflow.length
        · exact Or.inr hle
        · rw [if_neg hle] at hrun
          cases closed with
          | true => exact Or.inl rfl
          | false => exact absurd (Prod.mk.inj hrun).1.symm hout
      · rw [if_pos (by rwa [hin]), hin] at hrun
        refine ih _ ?_ hrun
        exact ⟨hr'.symm, hof, hset, hw⟩
      · rw [if_neg (by rw [hin]; omega)] at hrun
        cases closed with
        | true =>
          refine ih _ ?_ hrun
          exact ⟨by rw [hr']; rfl, hof, hset, hw⟩
        | false => exact absurd (Prod.mk.inj hrun).1.symm hout
    | writeExact bs =>
      rw [compile, SocketM.safe_bind]
      refine DataWriter.safe_writeExact fun d' o' hd' => ?_
      refine ih () ?_ hrun
      exact ⟨hin, by rw [hd', hof], fun h => absurd h (by simp), hw⟩
    | flush =>
      rw [compile, SocketM.safe_bind]
      refine DataWriter.safe_flush (ih () ?_ hrun)
      refine ⟨hin, ?_, fun _ => DataWriter.pending_clear _, hw⟩
      rw [DataWriter.pending_clear, List.append_nil]
      exact hof
    | call e =>
      subst hw
      refine ih _ ?_ hrun
      exact ⟨hin, hof, hset, rfl⟩

/-! ## Phases

A compiled program receives where the program reads and sends where it writes, so the order of
its messages on the socket is the order in its text. -/

theorem readDirect_all_notSend (bufferSize rounds : ℕ) (got : List UInt8) (numBytes : ℕ) :
    (DataReader.readDirect (E := E) (R := R) bufferSize rounds got numBytes).All
      SocketAct.NotSend := by
  induction rounds generalizing got numBytes with
  | zero => trivial
  | succ rounds ih =>
    rw [DataReader.readDirect]
    split
    · refine ⟨trivial, fun c => ?_⟩
      beta_reduce
      split
      · trivial
      · exact ih _ _
    · trivial

theorem readRounds_all_notSend (rounds : ℕ) (got : List UInt8) (numBytes : ℕ) (r : DataReader) :
    (DataReader.readRounds (E := E) (R := R) rounds got numBytes r).All SocketAct.NotSend := by
  induction rounds generalizing got numBytes r with
  | zero => trivial
  | succ rounds ih =>
    rw [DataReader.readRounds]
    split
    · trivial
    · refine (readDirect_all_notSend _ _ _ _).bind fun x => ?_
      split
      split
      · trivial
      · refine ⟨trivial, fun c => ?_⟩
        beta_reduce
        split
        · trivial
        · exact ih _ _ _

theorem sendAll_all_notRecv (rounds : ℕ) (bs : List UInt8) :
    (DataWriter.sendAll (E := E) (R := R) rounds bs).All SocketAct.NotRecv := by
  induction rounds generalizing bs with
  | zero => trivial
  | succ rounds ih =>
    rw [DataWriter.sendAll]
    split
    · trivial
    · exact ⟨trivial, fun m => ih _⟩

theorem flush_all_notRecv (d : DataWriter) :
    (d.flush (E := E) (R := R)).All SocketAct.NotRecv :=
  (sendAll_all_notRecv _ _).bind fun _ => trivial

theorem writeRounds_all_notRecv (rounds : ℕ) (data : List UInt8) (d : DataWriter) :
    (DataWriter.writeRounds (E := E) (R := R) rounds data d).All SocketAct.NotRecv := by
  induction rounds generalizing data d with
  | zero => trivial
  | succ rounds ih =>
    rw [DataWriter.writeRounds]
    split
    · trivial
    · simp only
      split
      · exact (sendAll_all_notRecv _ _).bind fun _ => trivial
      · split
        · trivial
        · exact (flush_all_notRecv _).bind fun d' => ih _ _

theorem compile_all_notRecv {p : StreamM E R ε α} (hp : p.NoReads) (s : Endpoint) :
    (compile p s).All SocketAct.NotRecv := by
  induction p generalizing s with
  | ret a => trivial
  | fail e => trivial
  | act e k ih =>
    cases e with
    | readExact n => exact hp.1.elim
    | writeExact bs => exact (writeRounds_all_notRecv _ _ _).bind fun d => ih () (hp.2 ()) _
    | flush => exact (flush_all_notRecv _).bind fun d => ih () (hp.2 ()) _
    | call e => exact ⟨trivial, fun r => ih r (hp.2 r) _⟩

theorem compile_all_notSend {p : StreamM E R ε α} (hp : p.NoWrites) (s : Endpoint) :
    (compile p s).All SocketAct.NotSend := by
  induction p generalizing s with
  | ret a => trivial
  | fail e => trivial
  | act e k ih =>
    cases e with
    | readExact n => exact (readRounds_all_notSend _ _ _ _).bind fun x => ih x.1 (hp.2 x.1) _
    | writeExact bs => exact hp.1.elim
    | flush => exact hp.1.elim
    | call e => exact ⟨trivial, fun r => ih r (hp.2 r) _⟩

/-- **A program that reads first and writes after receives first and sends after.** -/
theorem compile_phased_of_readsThenWrites {p : StreamM E R ε α} (hp : p.ReadsThenWrites)
    (s : Endpoint) : (compile p s).Phased SocketAct.NotSend SocketAct.NotRecv := by
  induction p generalizing s with
  | ret a => trivial
  | fail e => trivial
  | act e k ih =>
    rcases hp with ⟨he, hk⟩ | hall
    · cases e with
      | readExact n =>
        exact Prog.Phased.bind_left (readRounds_all_notSend _ _ _ _) fun x => ih x.1 (hk x.1) _
      | writeExact bs => exact he.elim
      | flush => exact he.elim
      | call e => exact Or.inl ⟨trivial, fun r => ih r (hk r) _⟩
    · exact (compile_all_notRecv (p := .act e k) hall s).phased_right

/-- **A program that writes first and reads after sends first and receives after.** -/
theorem compile_phased_of_writesThenReads {p : StreamM E R ε α} (hp : p.WritesThenReads)
    (s : Endpoint) : (compile p s).Phased SocketAct.NotRecv SocketAct.NotSend := by
  induction p generalizing s with
  | ret a => trivial
  | fail e => trivial
  | act e k ih =>
    rcases hp with ⟨he, hk⟩ | hall
    · cases e with
      | readExact n => exact he.elim
      | writeExact bs =>
        exact Prog.Phased.bind_left (writeRounds_all_notRecv _ _ _) fun d => ih () (hk ()) _
      | flush => exact Prog.Phased.bind_left (flush_all_notRecv _) fun d => ih () (hk ()) _
      | call e => exact Or.inl ⟨trivial, fun r => ih r (hk r) _⟩
    · exact (compile_all_notSend (p := .act e k) hall s).phased_right

end StreamM

end NandroidFS
