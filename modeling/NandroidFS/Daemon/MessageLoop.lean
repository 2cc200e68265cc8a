import NandroidFS.Daemon.Serve
import NandroidFS.Shared.Endpoint

/-!
# The end of the message loop

`handle_messages` reads requests until the client is gone.  It trusts nothing that it reads, so this
file asks what it does with an input that is not a sequence of requests at all.  Every request it
handles has taken its type byte off the stream, so it comes to the end of a finite input; and there,
or at the first byte that is no request type, it stops (`exists_handled`).

A send is the only thing that can stop it before: `throw_unless` raises what `send` reports, and
nothing catches it.  `handleMessages_ends` is for a socket on which every send may fail.
-/

namespace NandroidFS

namespace ClientHandler

/-- `handle_messages`, with a bound on the number of rounds. -/
def handleMessages (h : Host) : (rounds : ℕ) → (rwBuffer : List UInt8) → DaemonM Unit
  | 0, _ => .fail .outOfRounds
  | rounds + 1, rwBuffer => do
      match ← handleMessage h rwBuffer with
      | none => return ()
      | some rwBuffer => handleMessages h rounds rwBuffer

/-! ## What the handlers raise

They read, and meet the end of the stream; they write, and the names in a listing are short. -/

section Raises

variable (h : Host)

/-- The exception is the end of the stream. -/
abbrev OnlyEof (e : Exn) : Prop := e = .eof

theorem onlyEof_eof : OnlyEof .eof := rfl

theorem raises_respond (result : Except Errno Unit) : (respond result).Raises OnlyEof := by
  rcases result with e | ⟨⟩ <;> exact StreamM.raises_writeExact _

theorem raises_writeFileStat (stat : FileStat) : (stat.write h : DaemonM Unit).Raises OnlyEof :=
  (StreamM.raises_writeExact _).bind fun _ => (StreamM.raises_writeExact _).bind fun _ =>
    (StreamM.raises_writeExact _).bind fun _ => StreamM.raises_writeExact _

theorem raises_statFile (path : ByteString) : (statFile path).Raises OnlyEof := by
  refine StreamM.raises_call_bind fun r => ?_
  rcases r with e | st <;> trivial

theorem raises_listEntries (directoryPath : ByteString) (names : List EntryName) :
    (listEntries h directoryPath names).Raises OnlyEof := by
  induction names with
  | nil => trivial
  | cons name names ih =>
    refine Prog.Raises.bind ((raises_statFile _).bind fun r => ?_) fun _ => ih
    rcases r with status | stat
    · exact StreamM.raises_writeExact _
    · have hfits : Fits name.1 := name.2.1.trans (by decide)
      exact (StreamM.raises_writeExact _).bind fun _ =>
        (raises_writeUtf8String h hfits).bind fun _ => raises_writeFileStat h stat

theorem raises_readRounds (args : ReadHandleArgs) (rounds totalRead : ℕ)
    (rwBuffer : List UInt8) : (readRounds args rounds totalRead rwBuffer).Raises OnlyEof := by
  induction rounds generalizing totalRead rwBuffer with
  | zero => trivial
  | succ rounds ih =>
    rw [readRounds]
    split
    · refine StreamM.raises_call_bind fun r => ?_
      rcases r with e | bs
      · trivial
      · simp only
        split
        · trivial
        · exact ih _ _
    · trivial

theorem raises_writeRounds (args : WriteHandleInitArgs) (rwBuffer : List UInt8)
    (rounds totalWritten : ℕ) :
    (writeRounds args rwBuffer rounds totalWritten).Raises OnlyEof := by
  induction rounds generalizing totalWritten with
  | zero => trivial
  | succ rounds ih =>
    rw [writeRounds]
    split
    · refine StreamM.raises_call_bind fun r => ?_
      rcases r with e | n
      · trivial
      · exact ih _
    · trivial

theorem raises_canRemoveDirectoryEntry (path : ByteString) :
    (canRemoveDirectoryEntry path).Raises OnlyEof := by
  rw [canRemoveDirectoryEntry]
  rcases getParentPath path with _ | parent
  · trivial
  · refine StreamM.raises_call_bind fun r => ?_
    rcases r with e | ⟨⟩ <;> trivial

theorem raises_handleMoveEntry : (handleMoveEntry h).Raises OnlyEof := by
  refine (MessageType.moveEntryArgs.raises_read onlyEof_eof h).bind fun args => ?_
  refine StreamM.raises_call_bind fun r => ?_
  rcases r with e | st
  · simp only
    split
    · exact StreamM.raises_call_bind fun r => raises_respond r
    · exact StreamM.raises_writeExact _
  · simp only
    split
    · exact StreamM.raises_call_bind fun r => raises_respond r
    · exact StreamM.raises_writeExact _

theorem raises_handleOpenHandle : (handleOpenHandle h).Raises OnlyEof := by
  refine (MessageType.openHandleArgs.raises_read onlyEof_eof h).bind fun args => ?_
  rcases accessFlag? args.readAccess args.writeAccess with _ | access
  · exact StreamM.raises_writeExact _
  · refine StreamM.raises_call_bind fun r => ?_
    rcases r with e | fd
    · exact StreamM.raises_writeExact _
    · exact (StreamM.raises_writeExact _).bind fun _ => StreamM.raises_writeExact _

theorem raises_handleReadFile (rwBuffer : List UInt8) :
    (handleReadFile h rwBuffer).Raises OnlyEof := by
  refine (MessageType.readHandleArgs.raises_read onlyEof_eof h).bind fun args => ?_
  refine StreamM.raises_call_bind fun r => ?_
  rcases r with e | ⟨⟩
  · exact (StreamM.raises_writeExact _).bind fun _ => trivial
  · refine (raises_readRounds _ _ _ _).bind fun x => ?_
    obtain ⟨result, rwBuffer'⟩ := x
    rcases result with e | totalRead
    · exact (StreamM.raises_writeExact _).bind fun _ => trivial
    · exact (StreamM.raises_writeExact _).bind fun _ => (StreamM.raises_writeExact _).bind fun _ =>
        (StreamM.raises_writeExact _).bind fun _ => trivial

theorem raises_handleWriteFile (rwBuffer : List UInt8) :
    (handleWriteFile h rwBuffer).Raises OnlyEof := by
  refine (MessageType.writeHandleInitArgs.raises_read onlyEof_eof h).bind fun args => ?_
  refine StreamM.raises_call_bind fun r => ?_
  rcases r with e | ⟨⟩
  · exact (StreamM.raises_writeExact _).bind fun _ => trivial
  · exact (StreamM.raises_readExact onlyEof_eof _).bind fun bytes =>
      (raises_writeRounds _ _ _ _).bind fun r => (raises_respond r).bind fun _ => trivial

theorem raises_handleCheckRemoveDirectory : (handleCheckRemoveDirectory h).Raises OnlyEof := by
  refine (raises_readUtf8String onlyEof_eof h).bind fun path => ?_
  refine (raises_canRemoveDirectoryEntry path).bind fun status => ?_
  split
  · exact StreamM.raises_writeExact _
  · refine StreamM.raises_call_bind fun r => ?_
    rcases r with e | names
    · exact StreamM.raises_writeExact _
    · simp only
      split <;> exact StreamM.raises_writeExact _

theorem raises_handleStatFile : (handleStatFile h).Raises OnlyEof := by
  refine (raises_readUtf8String onlyEof_eof h).bind fun path => ?_
  refine (raises_statFile _).bind fun r => ?_
  rcases r with status | stat
  · exact StreamM.raises_writeExact _
  · exact (StreamM.raises_writeExact _).bind fun _ => raises_writeFileStat h stat

theorem raises_handleListDirStats : (handleListDirStats h).Raises OnlyEof := by
  refine (raises_readUtf8String onlyEof_eof h).bind fun path => ?_
  refine StreamM.raises_call_bind fun r => ?_
  rcases r with e | names
  · exact StreamM.raises_writeExact _
  · exact (StreamM.raises_writeExact _).bind fun _ => (raises_listEntries h _ names).bind fun _ =>
      StreamM.raises_writeExact _

theorem raises_handleGetDiskStats : (handleGetDiskStats h).Raises OnlyEof := by
  refine StreamM.raises_call_bind fun r => ?_
  rcases r with e | vfs
  · exact StreamM.raises_writeExact _
  · exact (StreamM.raises_writeExact _).bind fun _ => (StreamM.raises_writeExact _).bind fun _ =>
      (StreamM.raises_writeExact _).bind fun _ => StreamM.raises_writeExact _

/-- A handler that makes one call on what it has read and reports the outcome. -/
theorem raises_respond_call {α : Type} {args : DaemonM α} (hargs : args.Raises OnlyEof)
    (e : α → Syscall) (outcome : (a : α) → (e a).Res → Except Errno Unit) :
    (do let a ← args; respond (outcome a (← sys (e a)))).Raises OnlyEof :=
  hargs.bind fun _ => StreamM.raises_call_bind fun _ => raises_respond _

/-- **A handler raises nothing but the end of the stream.** -/
theorem raises_handleRequest (rwBuffer : List UInt8) (t : RequestType) :
    (handleRequest h rwBuffer t).Raises OnlyEof := by
  have unit {p : DaemonM Unit} (hp : p.Raises OnlyEof) :
      (do p; return rwBuffer : DaemonM (List UInt8)).Raises OnlyEof :=
    hp.bind fun _ => trivial
  have path := raises_readUtf8String (E := Syscall) (R := Syscall.Res) onlyEof_eof h
  cases t with
  | statFile => exact unit (raises_handleStatFile h)
  | listDirectory => exact unit (raises_handleListDirStats h)
  | createDirectory =>
    exact unit (raises_respond_call path (fun p => .mkdir (cStr p) DEFAULT_DIRECTORY_MODE)
      fun _ r => r)
  | checkRemoveFile =>
    exact unit (path.bind fun p => (raises_canRemoveDirectoryEntry p).bind fun _ =>
      StreamM.raises_writeExact _)
  | checkRemoveDirectory => exact unit (raises_handleCheckRemoveDirectory h)
  | removeFile =>
    exact unit (raises_respond_call path (fun p => .unlink (cStr p)) fun _ r => r)
  | removeDirectory =>
    exact unit (raises_respond_call path (fun p => .rmdir (cStr p)) fun _ r => r)
  | moveEntry => exact unit (raises_handleMoveEntry h)
  | openHandle => exact unit (raises_handleOpenHandle h)
  | closeHandle =>
    exact unit ((raises_readU32 onlyEof_eof h).bind fun _ => StreamM.raises_call_bind fun _ =>
      StreamM.raises_writeExact _)
  | readHandle => exact raises_handleReadFile h rwBuffer
  | writeHandle => exact raises_handleWriteFile h rwBuffer
  | truncateHandle =>
    exact unit (raises_respond_call (MessageType.truncateHandleArgs.raises_read onlyEof_eof h)
      (fun a => .ftruncate a.handle.toInt32 a.newLength.toInt64) fun _ r => r)
  | setFileTime =>
    exact unit (raises_respond_call (MessageType.setFileTimeArgs.raises_read onlyEof_eof h)
      (fun a => .utimensat (cStr a.path) (getTimspecFromTimestamp a.accessTime)
        (getTimspecFromTimestamp a.writeTime)) fun _ r => r)
  | getDiskStats => exact unit (raises_handleGetDiskStats h)

end Raises

/-! ## The loop -/

/-- How the loop ends when `inflow` is left where a request should begin: the client is gone, what
comes is no request, or the request is cut off. -/
def ending : (inflow : List UInt8) → Except Exn Unit
  | [] => .ok ()
  | b :: _ => if RequestType.getDiskStats.toByte < b then .error .unknownRequest else .error .eof

section Loop

variable {K : Type} (call : Kernel K) (h : Host)

/-- `n` requests are handled one after the other.  The states are those of `rw_buffer` and of the
stream. -/
inductive Handled : ℕ → List UInt8 × View K → List UInt8 × View K → Prop
  | zero (x : List UInt8 × View K) : Handled 0 x x
  | succ {n : ℕ} {rwBuffer rwBuffer' : List UInt8} {v v' : View K} {y : List UInt8 × View K}
      (first : StreamM.run call true (handleMessage h rwBuffer) v = (.done (some rwBuffer'), v'))
      (rest : Handled n (rwBuffer', v') y) : Handled (n + 1) (rwBuffer, v) y

variable (rwBuffer : List UInt8)

theorem run_handleMessage_of_inflow_nil {v : View K} (hv : v.inflow = []) :
    StreamM.run call true (handleMessage h rwBuffer) v = (.done none, v) := by
  obtain ⟨i, o, settled, k⟩ := v
  obtain rfl : i = [] := hv
  rfl

/-- **A round on an input that is not empty** either handles a request, for which it has taken its
type byte off the stream, or ends the loop. -/
theorem run_handleMessage_of_inflow_cons {v : View K} {b : UInt8} {rest : List UInt8}
    (hv : v.inflow = b :: rest) :
    (∃ rwBuffer' v', StreamM.run call true (handleMessage h rwBuffer) v =
      (.done (some rwBuffer'), v') ∧ v'.inflow <:+ rest) ∨
    ∃ e v', StreamM.run call true (handleMessage h rwBuffer) v = (.failed e, v') ∧
      ending v.inflow = .error e := by
  have hle : 1 ≤ v.inflow.length := by
    rw [hv, List.length_cons]
    omega
  rw [handleMessage, StreamM.run_readExact_of_le _ _ hle, hv]
  simp only [List.take_succ_cons, List.take_zero, List.headD_cons, List.drop_succ_cons,
    List.drop_zero, ending]
  rcases ht : RequestType.ofByte? b with - | t
  · rw [if_pos ((RequestType.ofByte?_eq_none_iff b).mp ht)]
    exact .inr ⟨_, _, rfl, rfl⟩
  · have hlt : ¬ RequestType.getDiskStats.toByte < b := by
      rw [← RequestType.ofByte?_eq_none_iff, ht]
      exact Option.some_ne_none t
    simp only [if_neg hlt]
    have hstarved := StreamM.run_ne_starved call (handleRequest h rwBuffer t)
      { v with inflow := rest }
    have hsuffix := StreamM.inflow_run_suffix call true (handleRequest h rwBuffer t)
      { v with inflow := rest }
    rcases hrun : StreamM.run call true (handleRequest h rwBuffer t) { v with inflow := rest }
      with ⟨out, v'⟩
    rw [hrun] at hstarved hsuffix
    rcases out with rwBuffer' | e | -
    · left
      refine ⟨rwBuffer', { v' with settled := true }, ?_, hsuffix⟩
      rw [StreamM.run_bind_done _ _ hrun]
      rfl
    · right
      obtain rfl : e = .eof := StreamM.raises_of_run _ _ (raises_handleRequest h rwBuffer t) hrun
      exact ⟨.eof, v', StreamM.run_bind_failed _ _ hrun, rfl⟩
    · exact (hstarved rfl).elim

/-- **The loop on a whole stream.**  It handles some requests, no more than there are bytes, and how
it ends is seen from what they leave of the input.  A bound above the number of bytes is never
met. -/
theorem exists_handled (v : View K) :
    ∃ n rwBuffer' v', n ≤ v.inflow.length ∧
      Handled call h n (rwBuffer, v) (rwBuffer', v') ∧
      ∀ rounds, v.inflow.length < rounds →
        ∃ v'', StreamM.run call true (handleMessages h rounds rwBuffer) v =
          (Outcome.ofExcept (ending v'.inflow), v'') := by
  induction hlen : v.inflow.length using Nat.strong_induction_on generalizing rwBuffer v with
  | _ len ih =>
    subst hlen
    rcases hin : v.inflow with - | ⟨b, rest⟩
    · refine ⟨0, rwBuffer, v, le_rfl, .zero _, fun rounds hlt => ⟨v, ?_⟩⟩
      obtain ⟨rounds, rfl⟩ : ∃ m, rounds = m + 1 := Nat.exists_eq_succ_of_ne_zero (by omega)
      rw [handleMessages, StreamM.run_bind_done _ _
        (run_handleMessage_of_inflow_nil call h rwBuffer hin), hin]
      rfl
    · rcases run_handleMessage_of_inflow_cons call h rwBuffer hin with
        ⟨rwBuffer₁, v₁, hrun, hsuffix⟩ | ⟨e, v₁, hrun, hend⟩
      · have hle := hsuffix.length_le
        obtain ⟨n, rwBuffer', v', hn, hhandled, hall⟩ := ih v₁.inflow.length
          (by rw [hin, List.length_cons]; omega) rwBuffer₁ v₁ rfl
        refine ⟨n + 1, rwBuffer', v', ?_, .succ hrun hhandled, fun rounds hlt => ?_⟩
        · rw [List.length_cons]
          omega
        · obtain ⟨rounds, rfl⟩ : ∃ m, rounds = m + 1 := Nat.exists_eq_succ_of_ne_zero (by omega)
          rw [List.length_cons] at hlt
          obtain ⟨v'', hrest⟩ := hall rounds (by omega)
          exact ⟨v'', by rw [handleMessages, StreamM.run_bind_done _ _ hrun, hrest]⟩
      · refine ⟨0, rwBuffer, v, Nat.zero_le _, .zero _, fun rounds hlt => ⟨v₁, ?_⟩⟩
        obtain ⟨rounds, rfl⟩ : ∃ m, rounds = m + 1 := Nat.exists_eq_succ_of_ne_zero (by omega)
        rw [handleMessages, StreamM.run_bind_failed _ _ hrun, hend]
        rfl

/-! ## The loops inside the handlers

In the source they have no bound.  The one they have here is never what ends them: a round more
makes no difference. -/

/-- Every round of the reading loop but the last brings a byte. -/
theorem readRounds_succ (args : ReadHandleArgs) {rounds totalRead : ℕ}
    (hlt : args.dataLen.toNat - totalRead < rounds) :
    readRounds args (rounds + 1) totalRead rwBuffer =
      readRounds args rounds totalRead rwBuffer := by
  induction rounds generalizing totalRead rwBuffer with
  | zero => omega
  | succ rounds ih =>
    rw [readRounds, readRounds]
    split
    · refine congrArg (sys _ >>= ·) (funext fun r => ?_)
      rcases r with e | bs
      · rfl
      · simp only
        split
        · rfl
        · exact ih _ (by omega)
    · rfl

/-- Every round of the writing loop takes a byte. -/
theorem writeRounds_succ (args : WriteHandleInitArgs)
    (hbuf : args.dataLen.toNat ≤ rwBuffer.length) {rounds totalWritten : ℕ}
    (hle : args.dataLen.toNat - totalWritten ≤ rounds) :
    writeRounds args rwBuffer (rounds + 1) totalWritten =
      writeRounds args rwBuffer rounds totalWritten := by
  induction rounds generalizing totalWritten with
  | zero =>
    simp only [writeRounds]
    rw [if_neg (by omega)]
  | succ rounds ih =>
    rw [writeRounds, writeRounds]
    split
    · refine congrArg (sys _ >>= ·) (funext fun r => ?_)
      rcases r with e | n
      · rfl
      · have hrest :
            (rwBuffer.drop totalWritten).take (args.dataLen.toNat - totalWritten) ≠ [] := by
          rw [← List.length_pos_iff, List.length_take, List.length_drop]
          omega
        have hpos := n.2.2 hrest
        exact ih (by omega)
    · rfl

theorem length_le_overwrite_ensureRwBufferSize (size : ℕ) (bytes : List UInt8) :
    size ≤ (overwrite (ensureRwBufferSize rwBuffer size) 0 bytes).length := by
  have hsize := length_ensureRwBufferSize rwBuffer size
  simp only [overwrite, List.length_append, List.length_take, List.length_drop]
  omega

/-- The loops of `handle_read_file` and `handle_write_file` come to an end of their own: with every
greater bound than the one that the handler gives them they do the same. -/
structure InnerLoopsEnd : Prop where
  read : ∀ (args : ReadHandleArgs) (rwBuffer : List UInt8) (rounds : ℕ),
    args.dataLen.toNat + 1 ≤ rounds →
      readRounds args rounds 0 rwBuffer = readRounds args (args.dataLen.toNat + 1) 0 rwBuffer
  write : ∀ (args : WriteHandleInitArgs) (rwBuffer bytes : List UInt8) (rounds : ℕ),
    args.dataLen.toNat ≤ rounds →
      writeRounds args (overwrite (ensureRwBufferSize rwBuffer args.dataLen.toNat) 0 bytes)
          rounds 0 =
        writeRounds args (overwrite (ensureRwBufferSize rwBuffer args.dataLen.toNat) 0 bytes)
          args.dataLen.toNat 0

theorem innerLoopsEnd : InnerLoopsEnd where
  read := by
    intro args rwBuffer rounds hle
    induction rounds, hle using Nat.le_induction with
    | base => rfl
    | succ rounds hle ih => rw [readRounds_succ rwBuffer args hle, ih]
  write := by
    intro args rwBuffer bytes rounds hle
    have hbuf := length_le_overwrite_ensureRwBufferSize rwBuffer args.dataLen.toNat bytes
    induction rounds, hle using Nat.le_induction with
    | base => rfl
    | succ rounds hle ih => rw [writeRounds_succ _ args hbuf hle, ih]

/-! ## On a socket -/

/-- `handle_messages`, begun with what is in the buffers and with `i` still to come before the
client closes the connection, ends, and how it ends is in `P`: what it returns or raises, or `none`
for what a failing send raises. -/
def EndsIn (rounds : ℕ) (s : Endpoint) (k : K) (i o : List UInt8)
    (P : Option (Except Exn Unit) → Prop) : Prop :=
  SocketM.SafeBreaking call true (fun x _ _ _ => P (x.map Prod.fst))
    (StreamM.compile (handleMessages h rounds rwBuffer) s) k i o

/-- **The daemon comes to an end with every input.**  Whatever the bytes are, in whatever chunks
they come, and whatever the system answers, it handles no more requests than there are bytes; then
it returns if nothing is left, raises the error of an unknown request if a byte above `GetDiskStats`
comes next, and the end of the stream otherwise, unless a send has failed before. -/
theorem handleMessages_ends (s : Endpoint) (k : K) (i o : List UInt8) :
    (∃ n rwBuffer' v', n ≤ (s.reader.pending ++ i).length ∧
      Handled call h n (rwBuffer, s.view k i o) (rwBuffer', v') ∧
      ∀ rounds, (s.reader.pending ++ i).length < rounds →
        EndsIn call h rwBuffer rounds s k i o fun x => x = none ∨ x = some (ending v'.inflow)) ∧
    InnerLoopsEnd := by
  refine ⟨?_, innerLoopsEnd⟩
  obtain ⟨n, rwBuffer', v', hn, hhandled, hall⟩ := exists_handled call h rwBuffer (s.view k i o)
  refine ⟨n, rwBuffer', v', hn, hhandled, fun rounds hlt => ?_⟩
  obtain ⟨v'', hrun⟩ := hall rounds hlt
  have hout : Outcome.ofExcept (ending v'.inflow) ≠ .starved := by
    rcases ending v'.inflow with e | ⟨⟩ <;> exact fun hstarved => by cases hstarved
  refine (StreamM.safe_compile _ (s.shows_view k i o) hrun hout).safeBreaking ?_ ?_
  · rintro ⟨result, s'⟩ k' i' o' ⟨hresult, -⟩
    exact .inr (congrArg some (Outcome.ofExcept_injective hresult).symm)
  · exact fun _ _ _ => .inl rfl

end Loop

theorem run_handleMessages_getDiskStats (rounds : ℕ) :
    StreamM.run (Kernel.failing .eacces) true (handleMessages (.unix .little) (rounds + 2) [])
      ⟨[RequestType.getDiskStats.toByte], [], true, ()⟩ =
        (.done (), ⟨[], [ResponseStatus.accessDenied.toByte], true, ()⟩) := rfl

/-- A client asks for `GetDiskStats` and is gone before the answer is sent.  What `send` reports is
raised, and it is neither the end of the stream nor the error of an unknown request. -/
theorem not_endsIn_getDiskStats :
    ¬ ∃ rounds, 1 < rounds ∧ EndsIn (Kernel.failing .eacces) (.unix .little) [] rounds
      (Endpoint.new 8192 (by decide)) () [RequestType.getDiskStats.toByte] [] fun x =>
        x = some (.ok ()) ∨ x = some (.error .eof) ∨ x = some (.error .unknownRequest) := by
  rintro ⟨rounds, hlt, hends⟩
  obtain ⟨rounds, rfl⟩ := Nat.exists_eq_add_of_le' hlt
  have hquiet := hends.safe_of_not_none (by simp)
  have hsafe := StreamM.safe_compile _ (Endpoint.shows_view (Endpoint.new 8192 (by decide)) ()
    [RequestType.getDiskStats.toByte] []) (run_handleMessages_getDiskStats rounds) (by simp)
  obtain ⟨x, k', i', o', rfl, -, hshows⟩ := (hquiet.and hsafe).exists_post
  have hsent := hshows.outflow
  rw [hshows.settled rfl] at hsent
  exact List.cons_ne_nil _ _ hsent

end ClientHandler

end NandroidFS
