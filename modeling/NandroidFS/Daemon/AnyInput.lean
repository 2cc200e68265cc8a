import NandroidFS.Daemon.MessageLoop
import NandroidFS.Protocol.Spelling

/-!
# What the daemon makes of any input

`handleMessages_ends` says that the loop comes to an end with every input.  This file says what it
has done by then: it has served the requests that the input spells, from its beginning, each once
and in their order, and nothing else.

It takes requests that the client does not write: a move may say with any byte that it overwrites.
And there are two that it does not take as they are meant, and after which the input no longer says
where the next request begins: a read or a write of `2 ^ 31` bytes or more, and a write of which the
seek fails (`Strays`).  Every other input brings the loop to one of the ends of `Finish`.

* `Takes`: a handler finds its request at the front of the input, or meets the end of the input
  before it has called the system.
* `round`: one round, on any input.
* `serves_any`: the loop, on any input, on a socket.
-/

namespace NandroidFS

theorem RequestType.eq_toByte_of_ofByte? {b : UInt8} {t : RequestType} (h : ofByte? b = some t) :
    b = t.toByte := by
  rw [ofByte?] at h
  split at h
  all_goals first
    | exact UInt8.toNat_inj.mp (by cases h; assumption)
    | cases h

namespace ClientHandler

variable {K : Type} (call : Kernel K) (h : Host)

/-- The responses to the requests, and the device after them. -/
def served : List Request → K → List UInt8 × K
  | [], k => ([], k)
  | q :: qs, k =>
      ((serve call q k).1.bytes ++ (served qs (serve call q k).2).1,
        (served qs (serve call q k).2).2)

/-- The input begins with a request that the handler does not take as it is meant. -/
inductive Strays (k : K) (i : List UInt8) : Prop
  | oversized (q : Request) (wire rest : List UInt8) (hq : q.Fits) (hs : ¬q.Sized)
      (hwire : q.Spells wire) (hi : i = wire ++ rest)
  | undrained (args : WriteHandleInitArgs) (rest : List UInt8) (e : Errno)
      (hlen : args.dataLen.toNat ≠ 0)
      (hseek : (call (.lseek args.handle.toInt32 args.offset.toInt64) k).1 = .error e)
      (hi : i = RequestType.writeHandle.toByte :: (args.bytes ++ rest))

/-- How the loop ends on an input that does not begin with a request, and the device then. -/
inductive Finish (k : K) (i : List UInt8) : Except Exn Unit → K → Prop
  | gone (hi : i = []) : Finish k i (.ok ()) k
  | unknown (b : UInt8) (rest : List UInt8) (hb : RequestType.getDiskStats.toByte < b)
      (hi : i = b :: rest) : Finish k i (.error .unknownRequest) k
  | cutOff (q : Request) (more : List UInt8) (hi : i ≠ []) (hmore : more ≠ []) (hq : q.Fits)
      (hwire : q.Spells (i ++ more)) : Finish k i (.error .eof) k
  /-- The place to write at has been sought. -/
  | cutOffPayload (args : WriteHandleInitArgs) (data : List UInt8)
      (hlen : data.length < args.dataLen.toNat)
      (hseek : (call (.lseek args.handle.toInt32 args.offset.toInt64) k).1 = .ok ())
      (hi : i = RequestType.writeHandle.toByte :: (args.bytes ++ data)) :
      Finish k i (.error .eof) (call (.lseek args.handle.toInt32 args.offset.toInt64) k).2

/-! ## One request -/

/-- What follows a type byte begins with the arguments of a request of this type. -/
def Begins (t : RequestType) (i : List UInt8) : Prop :=
  ∃ (q : Request) (bs rest : List UInt8), q.type = t ∧ q.Fits ∧ q.SpellsArgs bs ∧ i = bs ++ rest

/-- What follows a type byte is less than the arguments of a request of this type. -/
def EndsWithin (t : RequestType) (i : List UInt8) : Prop :=
  ∃ (q : Request) (more : List UInt8), more ≠ [] ∧ q.type = t ∧ q.Fits ∧ q.SpellsArgs (i ++ more)

/-- With `i` to come, a handler has all of its arguments, or it fails and has done nothing. -/
def Takes (t : RequestType) (i : List UInt8) {α : Type} (p : DaemonM α) : Prop :=
  Begins t i ∨ EndsWithin t i ∧ ∀ v : View K, v.inflow = i →
    StreamM.run call true p v = (.failed .eof, { v with inflow := [] })

variable {call} {t : RequestType} {i : List UInt8}

/-- A handler that first reads its arguments. -/
theorem takes_bind {α β : Type} {args : DaemonM α} {f : α → DaemonM β}
    {L : List UInt8 → α → Prop} (hargs : args.Parses .eof L) {g : α → Request}
    (hg : ∀ bs a, L bs a → (g a).type = t ∧ (g a).Fits ∧ (g a).SpellsArgs bs) :
    Takes call t i (args >>= f) := by
  rcases hargs.begins i with ⟨bs, a, rest, hbs, rfl⟩ | ⟨⟨more, a, hmore, hbs⟩, hrun⟩
  · obtain ⟨ht, hfits, hspells⟩ := hg bs a hbs
    exact .inl ⟨g a, bs, rest, ht, hfits, hspells, rfl⟩
  · obtain ⟨ht, hfits, hspells⟩ := hg _ a hbs
    refine .inr ⟨⟨g a, more, hmore, ht, hfits, hspells⟩, fun v hv => ?_⟩
    exact StreamM.run_bind_failed _ _ (hrun K call v hv)

theorem Takes.bind {α β : Type} {p : DaemonM α} {f : α → DaemonM β} (hp : Takes call t i p) :
    Takes call t i (p >>= f) :=
  hp.imp_right fun ⟨hends, hrun⟩ =>
    ⟨hends, fun v hv => StreamM.run_bind_failed _ _ (hrun v hv)⟩

variable (call) in
/-- **A handler has all of its arguments, or it fails and has done nothing.**  The payload of a
write is not among them. -/
theorem takes_handleRequest (rwBuffer : List UInt8) (ht : t ≠ .writeHandle) :
    Takes call t i (handleRequest h rwBuffer t) := by
  have path {β : Type} {t : RequestType} (f : ByteString → DaemonM β)
      (g : ByteString → Request) (hg : ∀ s, (g s).type = t ∧ (g s).strings = [s] ∧
        (g s).SpellsArgs (stringBytes s)) : Takes call t i (readUtf8String h >>= f) := by
    refine takes_bind (parses_readUtf8String h) (g := g) fun bs s hbs => ?_
    obtain ⟨hs, rfl⟩ := hbs
    obtain ⟨ht, hstrings, hspells⟩ := hg s
    refine ⟨ht, fun s' hs' => ?_, hspells⟩
    rw [hstrings, List.mem_singleton] at hs'
    exact hs' ▸ hs
  cases t with
  | statFile => exact (path _ .statFile fun s => ⟨rfl, rfl, rfl⟩).bind
  | listDirectory => exact (path _ .listDirectory fun s => ⟨rfl, rfl, rfl⟩).bind
  | createDirectory => exact (path _ .createDirectory fun s => ⟨rfl, rfl, rfl⟩).bind
  | checkRemoveFile => exact (path _ .checkRemoveFile fun s => ⟨rfl, rfl, rfl⟩).bind
  | checkRemoveDirectory => exact (path _ .checkRemoveDirectory fun s => ⟨rfl, rfl, rfl⟩).bind
  | removeFile => exact (path _ .removeFile fun s => ⟨rfl, rfl, rfl⟩).bind
  | removeDirectory => exact (path _ .removeDirectory fun s => ⟨rfl, rfl, rfl⟩).bind
  | moveEntry =>
    exact (takes_bind (MessageType.moveEntryArgs.parses h) (g := .moveEntry)
      fun bs a hbs => ⟨rfl, hbs.1, hbs.2⟩).bind
  | openHandle =>
    exact (takes_bind (MessageType.openHandleArgs.parses h) (g := .openHandle)
      fun bs a hbs => ⟨rfl, hbs.1, hbs.2⟩).bind
  | closeHandle =>
    exact (takes_bind (parses_readU32 h) (g := .closeHandle)
      fun bs a hbs => ⟨rfl, by simp [Request.Fits, Request.strings], hbs⟩).bind
  | readHandle =>
    exact takes_bind (MessageType.readHandleArgs.parses h) (g := .readHandle)
      fun bs a hbs => ⟨rfl, by simp [Request.Fits, Request.strings], hbs.2⟩
  | writeHandle => exact (ht rfl).elim
  | truncateHandle =>
    exact (takes_bind (MessageType.truncateHandleArgs.parses h) (g := .truncateHandle)
      fun bs a hbs => ⟨rfl, by simp [Request.Fits, Request.strings], hbs.2⟩).bind
  | setFileTime =>
    exact (takes_bind (MessageType.setFileTimeArgs.parses h) (g := .setFileTime)
      fun bs a hbs => ⟨rfl, hbs.1, hbs.2⟩).bind
  | getDiskStats =>
    exact .inl ⟨.getDiskStats, [], i, rfl, by simp [Request.Fits, Request.strings], rfl, rfl⟩

/-- A write with the header `args`. -/
def writeOf (args : WriteHandleInitArgs) (data : List UInt8)
    (hdata : data.length = args.dataLen.toNat) : Request :=
  .writeHandle args.handle args.offset ⟨data, hdata.trans_lt args.dataLen.toNat_lt⟩

theorem argBytes_writeOf {args : WriteHandleInitArgs} {data : List UInt8}
    (hdata : data.length = args.dataLen.toNat) :
    (writeOf args data hdata).argBytes = args.bytes ++ data.take (intLength args.dataLen) := by
  have hlen : Payload.dataLen ⟨data, hdata.trans_lt args.dataLen.toNat_lt⟩ = args.dataLen := by
    rw [Payload.dataLen, hdata, UInt32.ofNat_toNat]
  rw [writeOf, Request.argBytes, Request.writeArgs, hlen]

theorem fits_writeOf {args : WriteHandleInitArgs} {data : List UInt8}
    (hdata : data.length = args.dataLen.toNat) : (writeOf args data hdata).Fits := by
  simp [writeOf, Request.Fits, Request.strings]

variable (call) in
/-- **The handler of a write** has its header, or it fails and has done nothing. -/
theorem takes_handleWriteFile (rwBuffer : List UInt8) (i : List UInt8) :
    (∃ (args : WriteHandleInitArgs) (rest : List UInt8), i = args.bytes ++ rest) ∨
    EndsWithin .writeHandle i ∧ ∀ v : View K, v.inflow = i →
      StreamM.run call true (handleWriteFile h rwBuffer) v =
        (.failed .eof, { v with inflow := [] }) := by
  have hargs := MessageType.writeHandleInitArgs.parses (E := Syscall) (R := Syscall.Res) h
  rcases hargs.begins i with ⟨bs, args, rest, ⟨-, rfl⟩, rfl⟩ | ⟨⟨more, args, hmore, -, hbs⟩, hrun⟩
  · exact .inl ⟨args, rest, rfl⟩
  · refine .inr ⟨?_, fun v hv => StreamM.run_bind_failed _ _ (hrun K call v hv)⟩
    -- the header is completed, and so is the payload
    have hdata : (List.replicate args.dataLen.toNat (0 : UInt8)).length = args.dataLen.toNat :=
      List.length_replicate
    refine ⟨writeOf args _ hdata,
      more ++ (List.replicate args.dataLen.toNat 0).take (intLength args.dataLen),
      by simp [hmore], rfl, fits_writeOf hdata, ?_⟩
    change i ++ (more ++ _) = (writeOf args _ hdata).argBytes
    rw [argBytes_writeOf hdata, ← List.append_assoc, show i ++ more = args.bytes from hbs]

/-- A handler that does the same with another spelling of its arguments. -/
theorem does_respell {α β : Type} {p : DaemonM α} {f : α → DaemonM β} {bs bs' out : List UInt8}
    {a : α} {b : β} {k k' : K} (hp : p.Reads bs a) (hp' : p.Reads bs' a)
    (hdoes : StreamM.Does call (p >>= f) k bs out b k') :
    StreamM.Does call (p >>= f) k bs' out b k' := by
  intro closed v rest hv hw
  obtain ⟨settled, hrun⟩ := hdoes closed { v with inflow := bs ++ rest } rest rfl hw
  refine ⟨settled, ?_⟩
  rw [StreamM.run_bind_done _ _ (hp _ call closed { v with inflow := bs ++ rest } rest rfl)] at hrun
  rw [StreamM.run_bind_done _ _ (hp' _ call closed v rest hv)]
  exact hrun

/-- **One round on a request**, in whatever spelling. -/
theorem run_handleMessage_of_spells {q : Request} (hq : q.Fits) (hs : q.Sized)
    (rwBuffer : List UInt8) {v : View K} (hd : Drains call q v.world) {wire rest : List UInt8}
    (hwire : q.Spells wire) (hin : v.inflow = wire ++ rest) :
    ∃ rwBuffer', StreamM.run call true (handleMessage h rwBuffer) v =
      (.done (some rwBuffer'), ⟨rest, v.outflow ++ (serve call q v.world).1.bytes, true,
        (serve call q v.world).2⟩) := by
  obtain ⟨bs, hbs, rfl⟩ := hwire
  obtain ⟨rwBuffer', hdoes⟩ := does_handleRequest h hq hs rwBuffer v.world hd
  suffices hspelled : StreamM.Does call (handleRequest h rwBuffer q.type) v.world bs
      (serve call q v.world).1.bytes rwBuffer' (serve call q v.world).2 from
    ⟨rwBuffer', run_handleMessage_of_does h q.type hspelled true hin rfl⟩
  cases q with
  | moveEntry args =>
    have hreads := MessageType.moveEntryArgs.parses (E := Syscall) (R := Syscall.Res) h
    simp only [Request.type, handleRequest, handleMoveEntry, Prog.bind_assoc] at hdoes ⊢
    exact does_respell (hreads.reads ⟨hq, MessageType.moveEntryArgs.spells_bytes args⟩)
      (hreads.reads ⟨hq, hbs⟩) hdoes
  | _ => exact hbs ▸ hdoes

/-! ## One round -/

theorem run_handleMessage_of_failed {rwBuffer : List UInt8} {v v' : View K} {e : Exn}
    (hin : v.inflow = t.toByte :: i)
    (hrun : StreamM.run call true (handleRequest h rwBuffer t) { v with inflow := i } =
      (.failed e, v')) :
    StreamM.run call true (handleMessage h rwBuffer) v = (.failed e, v') := by
  have hle : 1 ≤ v.inflow.length := by
    rw [hin, List.length_cons]
    omega
  rw [handleMessage, StreamM.run_readExact_of_le _ _ hle, hin]
  simp only [List.take_succ_cons, List.take_zero, List.headD_cons, List.drop_succ_cons,
    List.drop_zero, RequestType.ofByte?_toByte]
  exact StreamM.run_bind_failed _ _ hrun

variable (call) in
/-- What a round does on an input: it serves the request at its front, the request there is none
that it takes as it is meant, or the loop ends. -/
def Round (rwBuffer : List UInt8) (v : View K) : Prop :=
  (∃ (q : Request) (wire rest rwBuffer' : List UInt8), (q.Fits ∧ q.Sized) ∧ q.Spells wire ∧
    v.inflow = wire ++ rest ∧
    StreamM.run call true (handleMessage h rwBuffer) v =
      (.done (some rwBuffer'), ⟨rest, v.outflow ++ (serve call q v.world).1.bytes, true,
        (serve call q v.world).2⟩)) ∨
  Strays call v.world v.inflow ∨
  ∃ r v', Finish call v.world v.inflow r v'.world ∧
    (v'.outflow = v.outflow ∧ v'.settled = v.settled) ∧
    ∀ rounds, StreamM.run call true (handleMessages h (rounds + 1) rwBuffer) v =
      (Outcome.ofExcept r, v')

/-- A round whose handler fails for want of input. -/
theorem Round.of_failed {rwBuffer : List UInt8} {v v' : View K} (hin : v.inflow = t.toByte :: i)
    (hrun : StreamM.run call true (handleRequest h rwBuffer t) { v with inflow := i } =
      (.failed .eof, v')) (hout : v'.outflow = v.outflow ∧ v'.settled = v.settled)
    (hfinish : Finish call v.world v.inflow (.error .eof) v'.world) : Round call h rwBuffer v :=
  .inr (.inr ⟨.error .eof, v', hfinish, hout, fun _ =>
    StreamM.run_bind_failed _ _ (run_handleMessage_of_failed h hin hrun)⟩)

/-- A round whose handler has its request. -/
theorem Round.of_spells {q : Request} (hq : q.Fits) (hs : q.Sized) (rwBuffer : List UInt8)
    {v : View K} (hd : Drains call q v.world) {wire rest : List UInt8} (hwire : q.Spells wire)
    (hin : v.inflow = wire ++ rest) : Round call h rwBuffer v := by
  obtain ⟨rwBuffer', hrun⟩ := run_handleMessage_of_spells h hq hs rwBuffer hd hwire hin
  exact .inl ⟨q, wire, rest, rwBuffer', ⟨hq, hs⟩, hwire, hin, hrun⟩

theorem EndsWithin.finish {k : K} (hi : EndsWithin t i) :
    Finish call k (t.toByte :: i) (.error .eof) k := by
  obtain ⟨q, more, hmore, rfl, hfits, hspells⟩ := hi
  exact .cutOff q more (List.cons_ne_nil _ _) hmore hfits ⟨i ++ more, hspells, rfl⟩

/-- A round on anything but a write. -/
theorem round_of_ne_writeHandle (ht : t ≠ .writeHandle) (rwBuffer : List UInt8) {v : View K}
    (hin : v.inflow = t.toByte :: i) : Round call h rwBuffer v := by
  rcases takes_handleRequest call (i := i) h rwBuffer ht with
    ⟨q, bs, rest, rfl, hfits, hbs, rfl⟩ | ⟨hends, hrun⟩
  · have hwire : q.Spells (q.type.toByte :: bs) := ⟨bs, hbs, rfl⟩
    by_cases hs : q.Sized
    · refine Round.of_spells h hfits hs rwBuffer ?_ hwire hin
      cases q with
      | writeHandle handle offset data => exact (ht rfl).elim
      | _ => trivial
    · exact .inr (.inl (.oversized q _ rest hfits hs hwire hin))
  · exact Round.of_failed h hin (hrun _ rfl) ⟨rfl, rfl⟩ (hin ▸ hends.finish)

/-- A write whose payload has not come whole, after a seek that has succeeded. -/
theorem run_handleWriteFile_of_lt {args : WriteHandleInitArgs} {rest : List UInt8}
    (hsized : args.dataLen.toNat < 2 ^ 31) (hlt : rest.length < args.dataLen.toNat)
    (rwBuffer : List UInt8) {v : View K}
    (hseek : (call (.lseek args.handle.toInt32 args.offset.toInt64) v.world).1 = .ok ())
    (hin : v.inflow = args.bytes ++ rest) :
    StreamM.run call true (handleWriteFile h rwBuffer) v = (.failed .eof, { v with
      inflow := []
      world := (call (.lseek args.handle.toInt32 args.offset.toInt64) v.world).2 }) := by
  have hshort : ¬intLength args.dataLen ≤ rest.length := by
    rw [intLength_of_lt hsized]
    omega
  rw [handleWriteFile, StreamM.run_bind_done _ _
    (WriteHandleInitArgs.reads h args K call true v rest hin), sys, StreamM.run_call_bind]
  simp only [hseek]
  refine StreamM.run_bind_failed _ _ ?_
  rw [StreamM.readExact, StreamM.run_readExact_act, if_neg hshort]
  rfl

/-- A round on a write. -/
theorem round_of_writeHandle (rwBuffer : List UInt8) {v : View K}
    (hin : v.inflow = RequestType.writeHandle.toByte :: i) : Round call h rwBuffer v := by
  rcases takes_handleWriteFile call h rwBuffer i with ⟨args, rest, rfl⟩ | ⟨hends, hrun⟩
  swap
  · exact Round.of_failed h hin (hrun _ rfl) ⟨rfl, rfl⟩ (hin ▸ hends.finish)
  rcases Nat.lt_or_ge args.dataLen.toNat (2 ^ 31) with hsized | hbig
  swap
  · -- the length is negative as an `int`
    have hdata : (List.replicate args.dataLen.toNat (0 : UInt8)).length = args.dataLen.toNat :=
      List.length_replicate
    have hargs : (writeOf args _ hdata).SpellsArgs args.bytes := by
      change args.bytes = (writeOf args _ hdata).argBytes
      rw [argBytes_writeOf hdata, intLength_of_le hbig, List.take_zero, List.append_nil]
    refine .inr (.inl (.oversized _ _ rest (fits_writeOf hdata) ?_ ⟨_, hargs, rfl⟩ hin))
    change ¬(List.replicate args.dataLen.toNat (0 : UInt8)).length < 2 ^ 31
    rw [hdata]
    omega
  have hdrains : (call (.lseek args.handle.toInt32 args.offset.toInt64) v.world).1 = .ok () ∨
      args.dataLen.toNat = 0 ∨ Strays call v.world v.inflow := by
    rcases hseek : (call (.lseek args.handle.toInt32 args.offset.toInt64) v.world).1 with e | u
    · by_cases hlen : args.dataLen.toNat = 0
      · exact .inr (.inl hlen)
      · exact .inr (.inr (.undrained args rest e hlen hseek hin))
    · exact .inl rfl
  rcases Nat.lt_or_ge rest.length args.dataLen.toNat with hlt | hle
  · rcases hdrains with hseek | hlen | hstrays
    · have hrun := run_handleWriteFile_of_lt h hsized hlt rwBuffer
        (v := { v with inflow := args.bytes ++ rest }) hseek rfl
      exact Round.of_failed h hin hrun ⟨rfl, rfl⟩ (.cutOffPayload args rest hlt hseek hin)
    · omega
    · exact .inr (.inl hstrays)
  · -- the payload has come whole
    have hdata : (rest.take args.dataLen.toNat).length = args.dataLen.toNat := by
      rw [List.length_take, Nat.min_eq_left hle]
    have hargs : (writeOf args _ hdata).SpellsArgs
        (args.bytes ++ rest.take args.dataLen.toNat) := by
      change _ = (writeOf args _ hdata).argBytes
      rw [argBytes_writeOf hdata, intLength_of_lt hsized, List.take_take, Nat.min_self]
    have hsized' : (writeOf args _ hdata).Sized := by
      change (rest.take args.dataLen.toNat).length < 2 ^ 31
      rwa [hdata]
    have hin' : v.inflow = RequestType.writeHandle.toByte ::
        (args.bytes ++ rest.take args.dataLen.toNat) ++ rest.drop args.dataLen.toNat := by
      rw [hin, List.cons_append, List.append_assoc, List.take_append_drop]
    rcases hdrains with hseek | hlen | hstrays
    · exact Round.of_spells h (fits_writeOf hdata) hsized' rwBuffer (.inl hseek)
        ⟨_, hargs, rfl⟩ hin'
    · exact Round.of_spells h (fits_writeOf hdata) hsized' rwBuffer
        (.inr (List.length_eq_zero_iff.mp (hdata.trans hlen))) ⟨_, hargs, rfl⟩ hin'
    · exact .inr (.inl hstrays)

variable (call) in
/-- **One round, on any input.** -/
theorem round (rwBuffer : List UInt8) (v : View K) : Round call h rwBuffer v := by
  rcases hin : v.inflow with - | ⟨b, i⟩
  · refine .inr (.inr ⟨.ok (), v, .gone hin, ⟨rfl, rfl⟩, fun rounds => ?_⟩)
    rw [handleMessages, StreamM.run_bind_done _ _
      (run_handleMessage_of_inflow_nil call h rwBuffer hin)]
    rfl
  · rcases ht : RequestType.ofByte? b with - | t
    · have hb := (RequestType.ofByte?_eq_none_iff b).mp ht
      have hle : 1 ≤ v.inflow.length := by
        rw [hin, List.length_cons]
        omega
      refine .inr (.inr ⟨.error .unknownRequest, { v with inflow := i }, .unknown b i hb hin,
        ⟨rfl, rfl⟩, fun rounds => StreamM.run_bind_failed _ _ ?_⟩)
      rw [handleMessage, StreamM.run_readExact_of_le _ _ hle, hin]
      simp only [List.take_succ_cons, List.take_zero, List.headD_cons, ht]
      rfl
    · obtain rfl : b = t.toByte := RequestType.eq_toByte_of_ofByte? ht
      by_cases hwrite : t = .writeHandle
      · subst hwrite
        exact round_of_writeHandle h rwBuffer hin
      · exact round_of_ne_writeHandle h hwrite rwBuffer hin

/-! ## The loop -/

variable (call) in
/-- From `v` to `v'` the loop serves these requests, in these spellings, and nothing else. -/
structure Serves (rwBuffer : List UInt8) (v : View K) (qs : List Request)
    (wires : List (List UInt8)) (v' : View K) : Prop where
  spells : Request.SpellsAll qs wires
  inflow : v.inflow = wires.flatten ++ v'.inflow
  handled : ∃ rwBuffer', Handled call h qs.length (rwBuffer, v) (rwBuffer', v')
  outflow : v'.outflow = v.outflow ++ (served call qs v.world).1
  /-- Every response has been flushed. -/
  settled : v.settled = true → v'.settled = true
  world : v'.world = (served call qs v.world).2

theorem Serves.nil (rwBuffer : List UInt8) (v : View K) : Serves call h rwBuffer v [] [] v where
  spells := .nil
  inflow := rfl
  handled := ⟨rwBuffer, .zero _⟩
  outflow := (List.append_nil _).symm
  settled := id
  world := rfl

theorem Serves.cons {rwBuffer rwBuffer' : List UInt8} {v v' : View K} {q : Request}
    {wire rest : List UInt8} {qs : List Request} {wires : List (List UInt8)}
    (hq : q.Fits ∧ q.Sized) (hwire : q.Spells wire) (hin : v.inflow = wire ++ rest)
    (hrun : StreamM.run call true (handleMessage h rwBuffer) v =
      (.done (some rwBuffer'), ⟨rest, v.outflow ++ (serve call q v.world).1.bytes, true,
        (serve call q v.world).2⟩))
    (hs : Serves call h rwBuffer' ⟨rest, v.outflow ++ (serve call q v.world).1.bytes, true,
      (serve call q v.world).2⟩ qs wires v') :
    Serves call h rwBuffer v (q :: qs) (wire :: wires) v' where
  spells := .cons ⟨hq, hwire⟩ hs.spells
  inflow := by rw [hin, List.flatten_cons, List.append_assoc, ← hs.inflow]
  handled := by
    obtain ⟨rwBuffer'', hhandled⟩ := hs.handled
    exact ⟨rwBuffer'', .succ hrun hhandled⟩
  outflow := by rw [hs.outflow, List.append_assoc, served]
  settled _ := hs.settled rfl
  world := hs.world

variable (call) in
/-- **The loop, on any input**: it serves the requests that the input spells, up to one that it does
not take as it is meant or up to an end of the loop. -/
theorem exists_serves (rwBuffer : List UInt8) (v : View K) :
    ∃ qs wires v', Serves call h rwBuffer v qs wires v' ∧
      (Strays call v'.world v'.inflow ∨
        ∃ r v'', Finish call v'.world v'.inflow r v''.world ∧
          (v''.outflow = v'.outflow ∧ v''.settled = v'.settled) ∧
          ∀ rounds, v.inflow.length < rounds →
            StreamM.run call true (handleMessages h rounds rwBuffer) v =
              (Outcome.ofExcept r, v'')) := by
  induction hlen : v.inflow.length using Nat.strong_induction_on generalizing rwBuffer v with
  | _ len ih =>
    subst hlen
    rcases round call h rwBuffer v with
      ⟨q, wire, rest, rwBuffer', hq, hwire, hin, hrun⟩ | hstrays | ⟨r, v', hfinish, hout, hrun⟩
    · -- the request has taken its type byte, at least
      have hshorter : rest.length < v.inflow.length := by
        obtain ⟨bs, -, rfl⟩ := hwire
        rw [hin, List.cons_append, List.length_cons, List.length_append]
        omega
      obtain ⟨qs, wires, v', hserves, hend⟩ := ih rest.length hshorter rwBuffer'
        ⟨rest, v.outflow ++ (serve call q v.world).1.bytes, true, (serve call q v.world).2⟩ rfl
      refine ⟨q :: qs, wire :: wires, v', hserves.cons h hq hwire hin hrun, ?_⟩
      rcases hend with hstrays | ⟨r, v'', hfinish, hout, hall⟩
      · exact .inl hstrays
      · refine .inr ⟨r, v'', hfinish, hout, fun rounds hlt => ?_⟩
        obtain ⟨rounds, rfl⟩ : ∃ m, rounds = m + 1 := Nat.exists_eq_succ_of_ne_zero (by omega)
        rw [handleMessages, StreamM.run_bind_done _ _ hrun]
        exact hall rounds (by omega)
    · exact ⟨[], [], v, .nil h rwBuffer v, .inl hstrays⟩
    · refine ⟨[], [], v, .nil h rwBuffer v, .inr ⟨r, v', hfinish, hout, fun rounds hlt => ?_⟩⟩
      obtain ⟨rounds, rfl⟩ : ∃ m, rounds = m + 1 := Nat.exists_eq_succ_of_ne_zero (by omega)
      exact hrun rounds

/-! ## On a socket -/

/-- **What the daemon makes of any input.**  Whatever bytes come before the client closes the
connection, in whatever chunks, they are a number of requests and a rest, and the daemon has served
these requests, each once and in order, when it has the rest before it.  Either the rest begins with
one of the two kinds of request that it does not take as they are meant; or the loop ends there, as
the rest says, with all the responses sent, if the writer was empty before, and nothing done but
that a write whose payload is missing may have sought its place. -/
theorem serves_any (rwBuffer : List UInt8) (s : Endpoint) (k : K) (i o : List UInt8) :
    ∃ qs wires v, Serves call h rwBuffer (s.view k i o) qs wires v ∧
      (Strays call v.world v.inflow ∨
        ∃ r k', Finish call v.world v.inflow r k' ∧
          ∀ rounds, (s.reader.pending ++ i).length < rounds →
            SocketM.Safe call true
              (fun x w _ o' => x.1 = r ∧ w = k' ∧ o' ++ x.2.writer.pending = v.outflow ∧
                (s.writer.pending = [] → x.2.writer.pending = []))
              (StreamM.compile (handleMessages h rounds rwBuffer) s) k i o) := by
  obtain ⟨qs, wires, v, hserves, hend⟩ := exists_serves call h rwBuffer (s.view k i o)
  refine ⟨qs, wires, v, hserves, hend.imp_right ?_⟩
  rintro ⟨r, v', hfinish, ⟨hout, hset⟩, hrun⟩
  refine ⟨r, v'.world, hfinish, fun rounds hlt => ?_⟩
  have hne : Outcome.ofExcept r ≠ .starved := by
    rcases r with e | u <;> exact fun hstarved => by cases hstarved
  refine (StreamM.safe_compile _ (s.shows_view k i o) (hrun rounds hlt) hne).mono ?_
  rintro ⟨result, s'⟩ w i' o' ⟨hresult, hshows⟩
  refine ⟨(Outcome.ofExcept_injective hresult).symm, hshows.world.symm,
    hshows.outflow.symm.trans hout, fun hempty => hshows.settled ?_⟩
  rw [hset]
  exact hserves.settled (List.isEmpty_iff.mpr hempty)

end ClientHandler

end NandroidFS
