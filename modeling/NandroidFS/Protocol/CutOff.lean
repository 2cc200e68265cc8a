import NandroidFS.Streams.Interruption
import NandroidFS.Protocol.HangUp
import NandroidFS.Protocol.Breakage

/-!
# Requests that are cut off

The client may be gone at any time, in the middle of a request and before it has taken the answers
to others.  The daemon then meets the end of the stream inside a request, or its `send` fails, and
either ends `handle_messages`.  What matters then is what the device is left like.

A handler reads all of its arguments before its first system call, and makes the last of them before
it writes anything.  Two do not keep to this: a write seeks between its header and its payload, and
a listing writes each entry as soon as it has inspected it.  Neither of these calls changes what is
stored on the device.

* `ClientHandler.Passes`: the states in which a listing or a write may be given up.
* `Departed.all_or_nothing`: wherever the connection is cut, the device is left as after a number of
  whole requests, the first ones that arrived, or in the midst of a listing, or after the seek of a
  write.
-/

namespace NandroidFS

/-! ## Buffers that are left behind -/

namespace StreamM

variable {E : Type} {R : E → Type} {ε α W : Type}

theorem sendAll_all_isSend (rounds : ℕ) (bs : List UInt8) :
    (DataWriter.sendAll (E := E) (R := R) rounds bs).All SocketAct.IsSend := by
  induction rounds generalizing bs with
  | zero => trivial
  | succ rounds ih =>
    rw [DataWriter.sendAll]
    split
    · trivial
    · exact ⟨trivial, fun m => ih _⟩

theorem flush_all_isSend (d : DataWriter) :
    (d.flush (E := E) (R := R)).All SocketAct.IsSend :=
  (sendAll_all_isSend _ _).bind fun _ => trivial

theorem writeRounds_all_isSend (rounds : ℕ) (data : List UInt8) (d : DataWriter) :
    (DataWriter.writeRounds (E := E) (R := R) rounds data d).All SocketAct.IsSend := by
  induction rounds generalizing data d with
  | zero => trivial
  | succ rounds ih =>
    rw [DataWriter.writeRounds]
    split
    · trivial
    · simp only
      split
      · exact (sendAll_all_isSend _ _).bind fun _ => trivial
      · split
        · trivial
        · exact (flush_all_isSend _).bind fun d' => ih _ _

/-- How a compiled program is left behind: because a send has failed, after it has returned, or
after it has raised. -/
def Left (S : W → Prop) (Q : α → W → List UInt8 → Prop) :
    Option (Except ε α × Endpoint) → W → List UInt8 → List UInt8 → Prop
  | none, w, _, _ => S w
  | some (.ok a, s), w, i, _ => Q a w (s.reader.pending ++ i)
  | some (.error _, _), w, _, _ => S w

variable {world : (e : E) → W → R e × W} {S : W → Prop} {Q : α → W → List UInt8 → Prop}

/-- **What a program leaves behind does not depend on its buffers.** -/
theorem safeBreaking_compile {p : StreamM E R ε α} {s : Endpoint} {w : W} {i : List UInt8}
    (h : Stops world S Q p w (s.reader.pending ++ i)) (o : List UInt8) :
    SocketM.SafeBreaking world true (Left S Q) (compile p s) w i o := by
  induction p generalizing s w i o with
  | ret a => exact h
  | fail e => exact h
  | act e k ih =>
    cases e with
    | readExact n =>
      refine SocketM.SafeBreaking.bind ?_
      refine SocketM.Safe.safeBreaking_of_all_notSend (fun _ _ _ _ hq => hq)
        (readRounds_all_notSend _ _ _ _) ?_
      refine DataReader.safe_readExact (.inl rfl) (fun r' i' hle hr' => ?_) fun r' hlt hr' => ?_
      · refine ih _ ?_ o
        rw [hr']
        exact h.1 hle
      · refine ih _ ?_ o
        rw [hr']
        exact h.2 hlt
    | writeExact bs =>
      refine SocketM.SafeBreaking.bind ?_
      refine SocketM.Safe.safeBreaking_of_all_isSend (fun _ _ _ _ hq => hq)
        (writeRounds_all_isSend _ _ _) (fun _ => h.1) ?_
      exact DataWriter.safe_writeExact fun d' o' hd' =>
        ih () (s := { s with writer := d' }) h.2 o'
    | flush =>
      refine SocketM.SafeBreaking.bind ?_
      refine SocketM.Safe.safeBreaking_of_all_isSend (fun _ _ _ _ hq => hq)
        (flush_all_isSend _) (fun _ => h.1) ?_
      exact DataWriter.safe_flush (ih () (s := { s with writer := s.writer.clear }) h.2 _)
    | call e => exact ih _ h o

end StreamM

/-! ## The handlers -/

namespace ClientHandler

variable {K : Type} (call : Kernel K)

/-- While it serves the request from `k`, the daemon passes through this state, and it may be
stopped there: inside a listing, or between the header and the payload of a write. -/
def Passes (q : Request) (k k' : K) : Prop :=
  match q with
  | .listDirectory path => ∃ names n, (call (.opendir (cStr path)) k).1 = .ok names ∧
      k' = (listItems call path (names.take n) (call (.opendir (cStr path)) k).2).2
  | .writeHandle handle offset _ => k' = (call (.lseek handle.toInt32 offset.toInt64) k).2
  | _ => False

/-- The daemon is stopped while it has `i` to read: the request has not been begun, or it is given
up on the way, or all of it has been read and served. -/
def Stopped (q : Request) (k : K) (whole i : List UInt8) (k' : K) : Prop :=
  k' = k ∨ Passes call q k k' ∨ whole <+: i ∧ k' = (serve call q k).2

/-- The request has been read and served. -/
def Served (q : Request) (k : K) (whole i : List UInt8) {α : Type} (_ : α) (k' : K)
    (rest : List UInt8) : Prop :=
  i = whole ++ rest ∧ k' = (serve call q k).2

/-- On the arguments of the request and what follows them, or on their first bytes, the handler does
as it should. -/
def Handles (q : Request) (k : K) (i : List UInt8) {α : Type} (p : DaemonM α) : Prop :=
  StreamM.Stops call (Stopped call q k q.argBytes i) (Served call q k q.argBytes i) p k i

variable {call} {q : Request} {k k' : K} {i more rest : List UInt8} (h : Host)

theorem decodes_string {path : ByteString} (hp : NandroidFS.Fits path) :
    (readUtf8String h : DaemonM ByteString).Decodes (stringBytes path) path :=
  ⟨onlyReads_readUtf8String h, heedsEnd_readUtf8String h, reads_string h hp⟩

theorem decodes_message (t : MessageType) (v : t.Value)
    (hv : ∀ s ∈ t.strings v, NandroidFS.Fits s) :
    (t.read h : DaemonM t.Value).Decodes (t.bytes v) v :=
  ⟨t.onlyReads_read h, t.heedsEnd_read h, t.reads h v hv⟩

/-- A handler that reads its arguments first. -/
theorem stops_handler {α β : Type} {args : DaemonM α} {a : α} {f : α → DaemonM β}
    (hargs : args.Decodes q.argBytes a) (hi : i <+: q.argBytes ++ more)
    (hf : ∀ rest, i = q.argBytes ++ rest → StreamM.Stops call (Stopped call q k q.argBytes i)
      (Served call q k q.argBytes i) (f a) k rest) :
    Handles call q k i (args >>= f) :=
  StreamM.stops_bind_of_decodes hargs hi (.inl rfl) fun rest heq _ => hf rest heq

/-- An answer is written once the request has been served. -/
theorem stops_answer {α : Type} {p : DaemonM α} (hp : p.OnlyWrites) (hi : i = q.argBytes ++ rest)
    (hk : k' = (serve call q k).2) :
    StreamM.Stops call (Stopped call q k q.argBytes i) (Served call q k q.argBytes i) p k' rest :=
  StreamM.stops_of_onlyWrites hp (.inr (.inr ⟨⟨rest, hi.symm⟩, hk⟩)) fun _ => ⟨hi, hk⟩

theorem onlyWrites_respond (result : Except Errno Unit) : (respond result).OnlyWrites := by
  rcases result with e | ⟨⟩ <;> exact onlyWrites_writeByte _

/-- A handler of one call. -/
theorem stops_call {α : Type} {args : DaemonM α} {a : α} (hargs : args.Decodes q.argBytes a)
    (hi : i <+: q.argBytes ++ more) (e : α → Syscall) {f : (a : α) → (e a).Res → DaemonM Unit}
    (hf : ∀ r, (f a r).OnlyWrites) (hk : (call (e a) k).2 = (serve call q k).2) :
    Handles call q k i (args >>= fun a => sys (e a) >>= f a) :=
  stops_handler hargs hi fun _ heq =>
    StreamM.stops_call_bind (stops_answer (hf _) heq hk)

theorem noWrites_statFile (path : ByteString) : (statFile path).NoWrites := by
  refine StreamM.noWrites_call_bind fun r => ?_
  rcases r with e | st <;> trivial

theorem onlyWrites_fileStat (stat : FileStat) : (stat.write h : DaemonM Unit).OnlyWrites :=
  MessageType.fileStat.onlyWrites_write h stat

theorem stops_handleStatFile {path : ByteString} (hp : NandroidFS.Fits path)
    (hi : i <+: (Request.statFile path).argBytes ++ more) :
    Handles call (.statFile path) k i (handleStatFile h) := by
  refine stops_handler (decodes_string h hp) hi fun rest heq => ?_
  refine StreamM.stops_bind_of_does (noWrites_statFile _) (does_statFile _ k) ?_
  rcases hstat : (statPath call (cStr path) k).1 with status | stat
  · exact stops_answer (onlyWrites_writeByte _) heq rfl
  · exact stops_answer ((onlyWrites_writeByte _).bind fun _ => onlyWrites_fileStat h stat) heq rfl

theorem listItems_append (directoryPath : ByteString) (names names' : List EntryName) (k : K) :
    (listItems call directoryPath (names ++ names') k).2 =
      (listItems call directoryPath names' (listItems call directoryPath names k).2).2 := by
  induction names generalizing k with
  | nil => rfl
  | cons name names ih => exact ih _

/-- The loop of a listing may be given up after each entry. -/
theorem stops_listEntries (directoryPath : ByteString) {S : K → Prop} {k : K}
    {names : List EntryName}
    (hS : ∀ n, S (listItems call directoryPath (names.take n) k).2) (done todo : List EntryName)
    (hnames : names = done ++ todo) :
    StreamM.Stops call S
      (fun _ k' i' => i' = i ∧ k' = (listItems call directoryPath names k).2)
      (listEntries h directoryPath todo) (listItems call directoryPath done k).2 i := by
  induction todo generalizing done with
  | nil =>
    rw [hnames, List.append_nil]
    exact ⟨rfl, rfl⟩
  | cons name todo ih =>
    have hnames' : names = (done ++ [name]) ++ todo := by
      rw [hnames, List.append_assoc]
      rfl
    have hnext : S (listItems call directoryPath (done ++ [name]) k).2 := by
      have htake := hS (done ++ [name]).length
      rwa [hnames', List.take_left] at htake
    have hstep : (listItems call directoryPath (done ++ [name]) k).2 =
        (call (.stat (cStr (getFullPath directoryPath name.1)))
          (listItems call directoryPath done k).2).2 := by
      rw [listItems_append]
      rfl
    rw [listEntries, listEntry, bind_assoc]
    refine StreamM.stops_bind_of_does (noWrites_statFile _) (does_statFile _ _) ?_
    rw [statPath, ← hstep]
    rcases (call (.stat (cStr (getFullPath directoryPath name.1)))
      (listItems call directoryPath done k).2).1 with e | st
    · exact StreamM.stops_bind_of_onlyWrites (onlyWrites_writeByte _) hnext fun _ =>
        ih (done ++ [name]) hnames'
    · exact StreamM.stops_bind_of_onlyWrites ((onlyWrites_writeByte _).bind fun _ =>
        (onlyWrites_writeUtf8String h _).bind fun _ => onlyWrites_fileStat h _) hnext fun _ =>
        ih (done ++ [name]) hnames'

theorem stops_handleListDirStats {path : ByteString} (hp : NandroidFS.Fits path)
    (hi : i <+: (Request.listDirectory path).argBytes ++ more) :
    Handles call (.listDirectory path) k i (handleListDirStats h) := by
  refine stops_handler (decodes_string h hp) hi fun rest heq => StreamM.stops_call_bind ?_
  rcases hdir : (call (.opendir (cStr path)) k).1 with e | names
  · refine stops_answer (onlyWrites_writeByte _) heq ?_
    simp only [serve, hdir]
  · have hserve : (serve call (.listDirectory path) k).2 =
        (listItems call path names (call (.opendir (cStr path)) k).2).2 := by
      simp only [serve, hdir]
    have hpasses (n : ℕ) : Stopped call (.listDirectory path) k
        (Request.listDirectory path).argBytes i
        (listItems call path (names.take n) (call (.opendir (cStr path)) k).2).2 :=
      .inr (.inl ⟨names, n, hdir, rfl⟩)
    refine StreamM.stops_bind_of_onlyWrites (onlyWrites_writeByte _) (hpasses 0) fun _ => ?_
    refine StreamM.stops_bind.mpr ((stops_listEntries h path hpasses [] names rfl).mono
      (fun _ hS => hS) ?_)
    rintro ⟨⟩ k' rest' ⟨rfl, rfl⟩
    exact stops_answer (onlyWrites_writeByte _) heq hserve.symm

theorem stops_handleMoveEntry {args : MoveEntryArgs} (hf : NandroidFS.Fits args.fromPath)
    (ht : NandroidFS.Fits args.toPath) (hi : i <+: (Request.moveEntry args).argBytes ++ more) :
    Handles call (.moveEntry args) k i (handleMoveEntry h) := by
  have hfits : ∀ s ∈ MessageType.moveEntryArgs.strings args, NandroidFS.Fits s := by
    simpa [MessageType.strings] using ⟨hf, ht⟩
  refine stops_handler (decodes_message h .moveEntryArgs args hfits) hi fun rest heq =>
    StreamM.stops_call_bind ?_
  rcases hstat : (call (.stat (cStr args.toPath)) k).1 with e | st
  · by_cases he : e = .enoent
    · simp only [if_pos he]
      refine StreamM.stops_call_bind (stops_answer (onlyWrites_respond _) heq ?_)
      simp only [serve, hstat, if_pos he]
      rfl
    · simp only [if_neg he]
      refine stops_answer (onlyWrites_writeByte _) heq ?_
      simp only [serve, hstat, if_neg he]
  · by_cases ho : args.overwrite
    · simp only [if_pos ho]
      refine StreamM.stops_call_bind (stops_answer (onlyWrites_respond _) heq ?_)
      simp only [serve, hstat, if_pos ho]
      rfl
    · simp only [if_neg ho]
      refine stops_answer (onlyWrites_writeByte _) heq ?_
      simp only [serve, hstat, if_neg ho]

theorem stops_handleOpenHandle {args : OpenHandleArgs} (hp : NandroidFS.Fits args.path)
    (hi : i <+: (Request.openHandle args).argBytes ++ more) :
    Handles call (.openHandle args) k i (handleOpenHandle h) := by
  have hfits : ∀ s ∈ MessageType.openHandleArgs.strings args, NandroidFS.Fits s := by
    simpa [MessageType.strings] using hp
  refine stops_handler (decodes_message h .openHandleArgs args hfits) hi fun rest heq => ?_
  rcases haccess : accessFlag? args.readAccess args.writeAccess with _ | access
  · refine stops_answer (onlyWrites_writeByte _) heq ?_
    simp only [serve, haccess]
  · refine StreamM.stops_call_bind ?_
    rcases hopen : (call (.openFile (cStr args.path) (creationFlags access args.mode)
      DEFAULT_FILE_MODE) k).1 with e | fd
    · refine stops_answer (onlyWrites_writeByte _) heq ?_
      simp only [serve, haccess]
    · refine stops_answer ((onlyWrites_writeByte _).bind fun _ => onlyWrites_writeU32 h _) heq ?_
      simp only [serve, haccess]

theorem stops_handleGetDiskStats (hi : i = (Request.getDiskStats).argBytes ++ i) :
    Handles call .getDiskStats k i (handleGetDiskStats h) := by
  refine StreamM.stops_call_bind ?_
  rcases (call (.statvfs FREE_SPACE_FS_PATH) k).1 with e | vfs
  · exact stops_answer (onlyWrites_writeByte _) hi rfl
  · exact stops_answer ((onlyWrites_writeByte _).bind fun _ =>
      MessageType.diskStats.onlyWrites_write h (diskStatsOf vfs)) hi rfl

theorem noWrites_canRemoveDirectoryEntry (path : ByteString) :
    (canRemoveDirectoryEntry path).NoWrites := by
  rw [canRemoveDirectoryEntry]
  rcases getParentPath path with _ | parent
  · trivial
  · refine StreamM.noWrites_call_bind fun r => ?_
    rcases r with e | ⟨⟩ <;> trivial

theorem stops_handleCheckRemoveFile {path : ByteString} (hp : NandroidFS.Fits path)
    (hi : i <+: (Request.checkRemoveFile path).argBytes ++ more) :
    Handles call (.checkRemoveFile path) k i (handleCheckRemoveFile h) := by
  refine stops_handler (decodes_string h hp) hi fun rest heq => ?_
  refine StreamM.stops_bind_of_does (noWrites_canRemoveDirectoryEntry _)
    (does_canRemoveDirectoryEntry path k) ?_
  exact stops_answer (onlyWrites_writeByte _) heq rfl

theorem stops_handleCheckRemoveDirectory {path : ByteString} (hp : NandroidFS.Fits path)
    (hi : i <+: (Request.checkRemoveDirectory path).argBytes ++ more) :
    Handles call (.checkRemoveDirectory path) k i (handleCheckRemoveDirectory h) := by
  refine stops_handler (decodes_string h hp) hi fun rest heq => ?_
  refine StreamM.stops_bind_of_does (noWrites_canRemoveDirectoryEntry _)
    (does_canRemoveDirectoryEntry path k) ?_
  by_cases hs : (canRemove call path k).1 ≠ .success
  · simp only [if_pos hs]
    refine stops_answer (onlyWrites_writeByte _) heq ?_
    simp only [serve, if_pos hs]
  · simp only [if_neg hs]
    refine StreamM.stops_call_bind ?_
    have hserve : (serve call (.checkRemoveDirectory path) k).2 =
        (call (.opendir (cStr path)) (canRemove call path k).2).2 := by
      simp only [serve, if_neg hs]
    rcases (call (.opendir (cStr path)) (canRemove call path k).2).1 with e | names
    · exact stops_answer (onlyWrites_writeByte _) heq hserve.symm
    · by_cases hn : names.any (fun name => !isDotEntry name)
      · simp only [if_pos hn]
        exact stops_answer (onlyWrites_writeByte _) heq hserve.symm
      · simp only [if_neg hn]
        exact stops_answer (onlyWrites_writeByte _) heq hserve.symm

theorem noWrites_readRounds (args : ReadHandleArgs) (rounds totalRead : ℕ)
    (rwBuffer : List UInt8) : (readRounds args rounds totalRead rwBuffer).NoWrites := by
  induction rounds generalizing totalRead rwBuffer with
  | zero => trivial
  | succ rounds ih =>
    rw [readRounds]
    split
    · refine StreamM.noWrites_call_bind fun r => ?_
      rcases r with e | bs
      · trivial
      · simp only
        split
        · trivial
        · exact ih _ _
    · trivial

theorem noWrites_writeRounds (args : WriteHandleInitArgs) (rwBuffer : List UInt8)
    (rounds totalWritten : ℕ) : (writeRounds args rwBuffer rounds totalWritten).NoWrites := by
  induction rounds generalizing totalWritten with
  | zero => trivial
  | succ rounds ih =>
    rw [writeRounds]
    split
    · refine StreamM.noWrites_call_bind fun r => ?_
      rcases r with e | n
      · trivial
      · exact ih _
    · trivial

/-- The bytes are all read from the file before any of them is sent. -/
theorem stops_handleReadFile (args : ReadHandleArgs) (rwBuffer : List UInt8)
    (hi : i <+: (Request.readHandle args).argBytes ++ more) :
    Handles call (.readHandle args) k i (handleReadFile h rwBuffer) := by
  refine stops_handler (decodes_message h .readHandleArgs args (by simp [MessageType.strings]))
    hi fun rest heq => StreamM.stops_call_bind ?_
  rcases hseek : (call (.lseek args.handle.toInt32 args.offset.toInt64) k).1 with e | ⟨⟩
  · have hserve : (call (.lseek args.handle.toInt32 args.offset.toInt64) k).2 =
        (serve call (.readHandle args) k).2 := by
      simp only [serve, hseek]
    exact stops_answer ((onlyWrites_writeByte _).bind fun _ => trivial) heq hserve
  · obtain ⟨rwBuffer', hdoes, -⟩ := does_readRounds call args
      (args.dataLen.toNat + 1) 0 (ensureRwBufferSize rwBuffer args.dataLen.toNat)
      (call (.lseek args.handle.toInt32 args.offset.toInt64) k).2 (Nat.zero_le _)
      (length_ensureRwBufferSize _ _)
    rw [Nat.sub_zero] at hdoes
    have hserve : (readAll call args.handle.toInt32 (args.dataLen.toNat + 1) args.dataLen.toNat
        (call (.lseek args.handle.toInt32 args.offset.toInt64) k).2).2 =
        (serve call (.readHandle args) k).2 := by
      simp only [serve, hseek]
    refine StreamM.stops_bind_of_does (noWrites_readRounds _ _ _ _) hdoes ?_
    rcases (readAll call args.handle.toInt32 (args.dataLen.toNat + 1) args.dataLen.toNat
      (call (.lseek args.handle.toInt32 args.offset.toInt64) k).2).1 with e | bs
    · exact stops_answer ((onlyWrites_writeByte _).bind fun _ => trivial) heq hserve
    · exact stops_answer ((onlyWrites_writeByte _).bind fun _ =>
        (onlyWrites_writeU32 h _).bind fun _ =>
          (StreamM.onlyWrites_writeExact _).bind fun _ => trivial) heq hserve

/-- The payload is all read from the stream before any of it is written to the file. -/
theorem stops_handleWriteFile (handle : FileHandle) (offset : UInt64) (data : Payload)
    (hs : data.1.length < 2 ^ 31) (rwBuffer : List UInt8)
    (hd : Drains call (.writeHandle handle offset data) k)
    (hi : i <+: (Request.writeHandle handle offset data).argBytes ++ more) :
    Handles call (.writeHandle handle offset data) k i (handleWriteFile h rwBuffer) := by
  have hint : intLength data.dataLen = data.1.length := by
    rw [intLength_of_lt (by rwa [Payload.toNat_dataLen]), Payload.toNat_dataLen]
  have hargs : (Request.writeHandle handle offset data).argBytes =
      (Request.writeArgs handle offset data).bytes ++ data.1 := by
    rw [Request.argBytes, hint, List.take_length]
  rw [hargs, List.append_assoc] at hi
  refine StreamM.stops_bind_of_decodes
    (decodes_message h .writeHandleInitArgs (Request.writeArgs handle offset data)
      (by simp [MessageType.strings])) hi (.inl rfl) fun rest₁ heq₁ hrest₁ =>
    StreamM.stops_call_bind ?_
  rcases hseek : (call (.lseek handle.toInt32 offset.toInt64) k).1 with e | ⟨⟩
  · -- the seek failed, so there is no payload to read
    have hnil : data.1 = [] := hd.resolve_left fun h0 => by rw [hseek] at h0; cases h0
    have hserve : (call (.lseek handle.toInt32 offset.toInt64) k).2 =
        (serve call (.writeHandle handle offset data) k).2 := by
      simp only [serve, hseek]
    have heq : i = (Request.writeHandle handle offset data).argBytes ++ rest₁ := by
      rw [hargs, hnil, List.append_nil]
      exact heq₁
    simp only [Request.writeArgs, hseek]
    exact stops_answer ((onlyWrites_writeByte _).bind fun _ => trivial) heq hserve
  · simp only [Request.writeArgs, hseek, Payload.toNat_dataLen]
    have hdecodes : (StreamM.readExact Exn.eof (intLength data.dataLen) :
        DaemonM (List UInt8)).Decodes data.1 data.1 :=
      ⟨StreamM.onlyReads_readExact _ _, StreamM.heedsEnd_readExact _ _,
        StreamM.reads_readExact _ _ hint⟩
    refine StreamM.stops_bind_of_decodes hdecodes hrest₁ (.inr (.inl rfl)) fun rest heq₂ _ => ?_
    have heq : i = (Request.writeHandle handle offset data).argBytes ++ rest := by
      rw [hargs, List.append_assoc, ← heq₂]
      exact heq₁
    have hbuf : (overwrite (ensureRwBufferSize rwBuffer data.1.length) 0 data.1).take
        data.1.length = data.1 := by
      have hzero := Nat.zero_le (ensureRwBufferSize rwBuffer data.1.length).length
      have := take_overwrite data.1 hzero
      rwa [Nat.zero_add, List.take_zero, List.nil_append] at this
    have hloop := does_writeRounds call (Request.writeArgs handle offset data) data.1
      (by rwa [Request.writeArgs, Payload.toNat_dataLen])
      (by rw [Request.writeArgs, Payload.toNat_dataLen]) data.1.length 0
      (call (.lseek handle.toInt32 offset.toInt64) k).2
    refine StreamM.stops_bind_of_does (noWrites_writeRounds _ _ _ _) hloop ?_
    refine stops_answer ((onlyWrites_respond _).bind fun _ => trivial) heq ?_
    simp only [serve, hseek]
    rfl

/-- **A handler stops before its request, after it, or where `Passes` allows.** -/
theorem stops_handleRequest (hq : q.Fits) (hs : q.Sized) (hd : Drains call q k)
    (rwBuffer : List UInt8) (hi : i <+: q.argBytes ++ more) :
    Handles call q k i (handleRequest h rwBuffer q.type) := by
  have path {s : ByteString} (hq : ∀ t ∈ [s], NandroidFS.Fits t) : NandroidFS.Fits s :=
    hq s (List.mem_singleton_self s)
  have single {q : Request} {p : DaemonM Unit}
      (hp : Handles call q k i p) : Handles call q k i (do p; return rwBuffer) :=
    StreamM.stops_bind.mpr (hp.mono (fun _ hS => hS) fun _ _ _ hQ => hQ)
  cases q with
  | statFile s => exact single (stops_handleStatFile h (path hq) hi)
  | listDirectory s => exact single (stops_handleListDirStats h (path hq) hi)
  | createDirectory s =>
    exact single (stops_call (decodes_string h (path hq)) hi
      (fun p => .mkdir (cStr p) DEFAULT_DIRECTORY_MODE) onlyWrites_respond rfl)
  | checkRemoveFile s => exact single (stops_handleCheckRemoveFile h (path hq) hi)
  | checkRemoveDirectory s => exact single (stops_handleCheckRemoveDirectory h (path hq) hi)
  | removeFile s =>
    exact single (stops_call (decodes_string h (path hq)) hi (fun p => .unlink (cStr p))
      onlyWrites_respond rfl)
  | removeDirectory s =>
    exact single (stops_call (decodes_string h (path hq)) hi (fun p => .rmdir (cStr p))
      onlyWrites_respond rfl)
  | moveEntry args =>
    exact single (stops_handleMoveEntry h (hq _ (by simp [Request.strings]))
      (hq _ (by simp [Request.strings])) hi)
  | openHandle args => exact single (stops_handleOpenHandle h (path hq) hi)
  | closeHandle handle =>
    exact single (stops_call
      ⟨onlyReads_readU32 h, heedsEnd_readU32 h, reads_u32 h handle⟩ hi
      (fun handle => .close handle.toInt32) (fun _ => onlyWrites_writeByte _) rfl)
  | readHandle args => exact stops_handleReadFile h args rwBuffer hi
  | writeHandle handle offset data =>
    exact stops_handleWriteFile h handle offset data hs rwBuffer hd hi
  | truncateHandle args =>
    exact single (stops_call
      (decodes_message h .truncateHandleArgs args (by simp [MessageType.strings])) hi
      (fun args => .ftruncate args.handle.toInt32 args.newLength.toInt64) onlyWrites_respond rfl)
  | setFileTime args =>
    exact single (stops_call
      (decodes_message h .setFileTimeArgs args
        (by simpa [MessageType.strings] using path hq)) hi
      (fun args => .utimensat (cStr args.path) (getTimspecFromTimestamp args.accessTime)
        (getTimspecFromTimestamp args.writeTime)) onlyWrites_respond rfl)
  | getDiskStats => exact single (stops_handleGetDiskStats h rfl)

/-- How a round ends: the client is gone, or a request has been read and served. -/
def RoundEnds (call : Kernel K) (q : Request) (k : K) (i : List UInt8) (r : Option (List UInt8))
    (k' : K) (rest : List UInt8) : Prop :=
  r = none ∧ i = [] ∧ rest = [] ∧ k' = k ∨ r.isSome ∧ Served call q k q.bytes i () k' rest

/-- **A round of `handle_messages`** on the first bytes of a request and of what follows it. -/
theorem stops_handleMessage (hq : q.Fits) (hs : q.Sized) (hd : Drains call q k)
    (rwBuffer : List UInt8) (hi : i <+: q.bytes ++ more) :
    StreamM.Stops call (Stopped call q k q.bytes i) (RoundEnds call q k i)
      (handleMessage h rwBuffer) k i := by
  cases i with
  | nil =>
    exact ⟨fun hle => absurd hle (by simp), fun _ => .inl ⟨rfl, rfl, rfl, rfl⟩⟩
  | cons b i =>
    rw [Request.bytes, List.cons_append, List.cons_prefix_cons] at hi
    obtain ⟨rfl, hi⟩ := hi
    refine ⟨fun _ => ?_, fun hlt => absurd hlt (by simp)⟩
    simp only [List.take_succ_cons, List.take_zero, List.headD_cons, List.drop_succ_cons,
      List.drop_zero, RequestType.ofByte?_toByte]
    refine StreamM.stops_bind.mpr ((stops_handleRequest h hq hs hd rwBuffer hi).mono ?_ ?_)
    · rintro k' (hk | hpasses | ⟨hwhole, hk⟩)
      · exact .inl hk
      · exact .inr (.inl hpasses)
      · exact .inr (.inr ⟨(List.prefix_cons_inj _).mpr hwhole, hk⟩)
    · rintro rwBuffer' k' rest ⟨heq, hk⟩
      have hwhole : q.type.toByte :: i = q.bytes ++ rest := congrArg (q.type.toByte :: ·) heq
      exact ⟨.inr (.inr ⟨⟨rest, hwhole.symm⟩, hk⟩), .inr ⟨rfl, hwhole, hk⟩⟩

end ClientHandler

/-! ## The daemon without its client -/

namespace Departed

variable {K W : Type} (P : Setup K W)

/-- The device after the given requests. -/
def after (qs : List Request) (k : K) : K :=
  qs.foldl (fun k q => (serve P.call q k).2) k

/-- Each of the requests fits the wire and, when those before it have been served, leaves nothing
behind on it. -/
def Servable (qs : List Request) (k : K) : Prop :=
  ∀ m q, qs[m]? = some q → q.Fits ∧ q.Sized ∧ Drains P.call q (after P (qs.take m) k)

/-- Of what has arrived, the first `m` requests have been served and `rest` is left. -/
structure At (qs : List Request) (k₀ : K) (arrives : List UInt8) (m : ℕ) (k : K)
    (rest : List UInt8) : Prop where
  le : m ≤ qs.length
  arrived : arrives = (qs.take m).flatMap Request.bytes ++ rest
  state : k = after P (qs.take m) k₀

/-- The device is as some whole requests have left it, or in the midst of the next one. -/
def Interrupted (qs : List Request) (k₀ : K) (arrives : List UInt8) (k' : K) : Prop :=
  ∃ m k rest, At P qs k₀ arrives m k rest ∧
    (k' = k ∨ ∃ q, qs[m]? = some q ∧ ClientHandler.Passes P.call q k k')

/-- The daemon between two rounds, with less than `n` to read, or at its end. -/
def Between (qs : List Request) (k₀ : K) (arrives : List UInt8) (n : ℕ) (r : Option (List UInt8))
    (k : K) (rest : List UInt8) : Prop :=
  (∃ m, At P qs k₀ arrives m k rest) ∧ (r = none → rest = []) ∧ (r ≠ none → rest.length < n)

/-- **The invariant without the client.** -/
def Severed (qs : List Request) (k₀ : K) (arrives : List UInt8) (n : ℕ) : Departed K → Prop
  | .serving d k i => ∃ o, SocketM.SafeBreaking P.call true
      (StreamM.Left (Interrupted P qs k₀ arrives) (Between P qs k₀ arrives n)) d k i o
  | .goodbye k => ∃ m, At P qs k₀ arrives m k []
  | .disconnected k => Interrupted P qs k₀ arrives k

variable {P} {qs : List Request} {k₀ k : K} {arrives rest : List UInt8} {m n : ℕ}
  {x y : Departed K}

theorem At.next {q : Request} (h : At P qs k₀ arrives m k (q.bytes ++ rest))
    (hq : qs[m]? = some q) : At P qs k₀ arrives (m + 1) (serve P.call q k).2 rest := by
  obtain ⟨hlt, rfl⟩ := List.getElem?_eq_some_iff.mp hq
  refine ⟨hlt, ?_, ?_⟩
  · rw [h.arrived, List.take_succ_eq_append_getElem hlt, List.flatMap_append, List.append_assoc]
    simp
  · rw [h.state, List.take_succ_eq_append_getElem hlt, after, after, List.foldl_append]
    rfl

/-- **A round on what has arrived.** -/
theorem At.stops (h : At P qs k₀ arrives m k rest) (hqs : Servable P qs k₀)
    (harrives : arrives <+: qs.flatMap Request.bytes) (rwBuffer : List UInt8) :
    StreamM.Stops P.call (Interrupted P qs k₀ arrives) (Between P qs k₀ arrives rest.length)
      (ClientHandler.handleMessage P.daemonHost rwBuffer) k rest := by
  rcases hq : qs[m]? with _ | q
  · -- all of the requests have been served
    have hall : qs.take m = qs := List.take_of_length_le (List.getElem?_eq_none_iff.mp hq)
    obtain ⟨lost, hlost⟩ := harrives
    rw [h.arrived, hall, List.append_assoc, List.append_right_eq_self] at hlost
    obtain ⟨rfl, -⟩ := List.append_eq_nil_iff.mp hlost
    exact ⟨fun hle => absurd hle (by simp),
      fun _ => ⟨⟨m, h⟩, fun _ => rfl, fun hne => absurd rfl hne⟩⟩
  · obtain ⟨hlt, heq⟩ := List.getElem?_eq_some_iff.mp hq
    have hsplit : qs.flatMap Request.bytes = (qs.take m).flatMap Request.bytes ++
        (q.bytes ++ (qs.drop (m + 1)).flatMap Request.bytes) := by
      rw [← heq, ← List.flatMap_cons, ← List.flatMap_append, List.getElem_cons_drop,
        List.take_append_drop]
    have hi : rest <+: q.bytes ++ (qs.drop (m + 1)).flatMap Request.bytes := by
      rwa [hsplit, h.arrived, List.prefix_append_right_inj] at harrives
    obtain ⟨hfits, hsized, hdrains⟩ := hqs m q hq
    rw [← h.state] at hdrains
    have hround := ClientHandler.stops_handleMessage P.daemonHost hfits hsized hdrains rwBuffer hi
    refine hround.mono ?_ ?_
    · rintro k' (rfl | hpasses | ⟨⟨rest', rfl⟩, rfl⟩)
      · exact ⟨m, k', rest, h, .inl rfl⟩
      · exact ⟨m, k, rest, h, .inr ⟨q, hq, hpasses⟩⟩
      · exact ⟨m + 1, _, rest', h.next hq, .inl rfl⟩
    · rintro r k' rest' (⟨rfl, rfl, rfl, rfl⟩ | ⟨hr, rfl, rfl⟩)
      · exact ⟨⟨m, h⟩, fun _ => rfl, fun hne => absurd rfl hne⟩
      · refine ⟨⟨m + 1, h.next hq⟩, fun hnone => ?_, fun _ => ?_⟩
        · rw [hnone] at hr
          cases hr
        · rw [List.length_append, Request.bytes, List.length_cons]
          omega

/-- The daemon at the start of a round. -/
theorem severed_of_at {endpoint : Endpoint} {i : List UInt8}
    (h : At P qs k₀ arrives m k (endpoint.reader.pending ++ i)) (hqs : Servable P qs k₀)
    (harrives : arrives <+: qs.flatMap Request.bytes) (rwBuffer : List UInt8) :
    Severed P qs k₀ arrives (endpoint.reader.pending ++ i).length
      (.serving (Session.round P rwBuffer endpoint) k i) :=
  ⟨[], StreamM.safeBreaking_compile (h.stops hqs harrives rwBuffer) []⟩

variable {d d' : DaemonProg} {k' : K} {i i' o o' : List UInt8}

theorem Severed.move (h : Severed P qs k₀ arrives n (.serving d k i))
    (hp : PartyStep P.call (d, k, i, o) (d', k', i', o')) :
    Severed P qs k₀ arrives n (.serving d' k' i') := by
  obtain ⟨sent, hsafe⟩ := h
  exact hsafe.step hp

theorem Severed.eof {b : ℕ} {cont : Chunk b → DaemonProg}
    (h : Severed P qs k₀ arrives n (.serving (.act (.recv b) cont) k [])) :
    Severed P qs k₀ arrives n (.serving (cont (.eof b)) k []) := by
  obtain ⟨sent, hsafe⟩ := h
  exact ⟨sent, (hsafe.2.1 rfl).2⟩

/-- Each round takes something off the stream. -/
theorem Severed.loop {rwBuffer : List UInt8} {endpoint : Endpoint}
    (h : Severed P qs k₀ arrives n (.serving (.ret (.ok (some rwBuffer), endpoint)) k i))
    (hqs : Servable P qs k₀) (harrives : arrives <+: qs.flatMap Request.bytes) :
    ∃ n' < n, Severed P qs k₀ arrives n' (.serving (Session.round P rwBuffer endpoint) k i) := by
  obtain ⟨sent, ⟨m, hm⟩, -, hlt⟩ := h
  exact ⟨_, hlt (Option.some_ne_none _), severed_of_at hm hqs harrives rwBuffer⟩

/-- **Every step keeps the invariant.** -/
theorem Severed.step (h : Severed P qs k₀ arrives n x) (hst : Step P x y)
    (hqs : Servable P qs k₀) (harrives : arrives <+: qs.flatMap Request.bytes) :
    ∃ n', Severed P qs k₀ arrives n' y := by
  cases hst with
  | move hp => exact ⟨n, h.move hp⟩
  | eof => exact ⟨n, h.eof⟩
  | broken =>
    obtain ⟨sent, hsafe⟩ := h
    exact ⟨n, hsafe.2.1⟩
  | loop =>
    obtain ⟨n', -, h'⟩ := h.loop hqs harrives
    exact ⟨n', h'⟩
  | @returns endpoint k i =>
    obtain ⟨sent, ⟨m, hm⟩, hrest, -⟩ := h
    have hnil : endpoint.reader.pending ++ i = [] := hrest rfl
    rw [hnil] at hm
    exact ⟨n, m, hm⟩
  | raises =>
    obtain ⟨sent, hinterrupted⟩ := h
    exact ⟨n, hinterrupted⟩

/-- **No run is infinite**: a step moves the program to a subtree, or it begins a round with less to
read. -/
theorem Severed.acc (h : Severed P qs k₀ arrives n (.serving d k i)) (hqs : Servable P qs k₀)
    (harrives : arrives <+: qs.flatMap Request.bytes) :
    Acc (fun y x => Step P x y) (.serving d k i) := by
  induction n using Nat.strong_induction_on generalizing d k i with
  | _ n ihn =>
    induction d generalizing k i with
    | ret r =>
      refine Acc.intro _ fun y hy => ?_
      cases hy with
      | move hp => cases hp
      | loop =>
        obtain ⟨n', hlt, h'⟩ := h.loop hqs harrives
        exact ihn n' hlt h'
      | returns => exact Runs.acc_of_stuck fun y hy => by cases hy
      | raises => exact Runs.acc_of_stuck fun y hy => by cases hy
    | fail e => exact e.elim
    | act e cont ih =>
      refine Acc.intro _ fun y hy => ?_
      cases hy with
      | move hp =>
        have h' := h.move hp
        cases hp with
        | recv hc => exact ih _ h'
        | send hm hle => exact ih _ h'
        | call => exact ih _ h'
      | eof => exact ih _ h.eof
      | broken => exact Runs.acc_of_stuck fun y hy => by cases hy

/-- **No run gets stuck** before `handle_messages` has ended. -/
theorem Severed.progress (h : Severed P qs k₀ arrives n (.serving d k i)) :
    ∃ y, Step P (.serving d k i) y := by
  obtain ⟨sent, hsafe⟩ := h
  rcases d with ⟨result, endpoint⟩ | e | ⟨e, cont⟩
  · rcases result with e | (_ | rwBuffer)
    · exact ⟨_, .raises⟩
    · exact ⟨_, .returns⟩
    · exact ⟨_, .loop⟩
  · exact e.elim
  · cases e with
    | recv b =>
      by_cases hi : i = []
      · rw [hi]
        exact ⟨_, .eof⟩
      · obtain ⟨⟨d', k', i', o'⟩, hp⟩ :=
          Duplex.exists_step_of_recv P.call (k := cont) (u := k) (o := []) hsafe.1 hi
        exact ⟨_, .move hp⟩
    | send bs =>
      exact ⟨_, .move (o := []) (.send (List.length_pos_iff.mpr hsafe.1) le_rfl)⟩
    | call e => exact ⟨_, .move (o := []) .call⟩

/-- **All or nothing.**  The client sends any requests, one after the other, and is lost at any
byte; from some point on nobody takes what the daemon sends, either.  However the bytes are cut and
wherever a `send` fails, the daemon ends: with a goodbye only if what arrived was a number of whole
requests, which have then all been served, and with an error otherwise.  The device is left as the
first of the requests that arrived whole have left it, each served once and in order, and nothing
has been done for a request that did not arrive whole, but that a listing may have been begun and a
write may have sought its place. -/
theorem all_or_nothing (hqs : Servable P qs k) (harrives : arrives <+: qs.flatMap Request.bytes)
    (rwBuffer : List UInt8) {endpoint : Endpoint} (hidle : endpoint.reader.pending = [])
    (hrun : Relation.ReflTransGen (Step P)
      (.serving (Session.round P rwBuffer endpoint) k arrives) x) :
    (∀ k', x = .goodbye k' → ∃ m, At P qs k arrives m k' []) ∧
    (∀ k', x = .disconnected k' → Interrupted P qs k arrives k') ∧
    Acc (fun y x => Step P x y) x ∧
    ((∃ k', x = .goodbye k' ∨ x = .disconnected k') ∨ ∃ y, Step P x y) := by
  have hstart : At P qs k arrives 0 k (endpoint.reader.pending ++ arrives) := by
    rw [hidle]
    exact ⟨Nat.zero_le _, rfl, rfl⟩
  obtain ⟨n, h⟩ : ∃ n, Severed P qs k arrives n x :=
    Runs.invariant (P := fun x => ∃ n, Severed P qs k arrives n x)
      (fun _ _ ⟨_, h⟩ hst => h.step hst hqs harrives)
      ⟨_, severed_of_at hstart hqs harrives rwBuffer⟩ hrun
  cases x with
  | serving d k₁ i =>
    exact ⟨by rintro k' ⟨⟩, by rintro k' ⟨⟩, h.acc hqs harrives, .inr h.progress⟩
  | goodbye k₁ =>
    refine ⟨?_, by rintro k' ⟨⟩, Runs.acc_of_stuck fun y hy => (by cases hy), .inl ⟨k₁, .inl rfl⟩⟩
    rintro k' ⟨⟩
    exact h
  | disconnected k₁ =>
    refine ⟨by rintro k' ⟨⟩, ?_, Runs.acc_of_stuck fun y hy => (by cases hy), .inl ⟨k₁, .inr rfl⟩⟩
    rintro k' ⟨⟩
    exact h

/-- A device on which nothing works, and that counts the calls. -/
def countingSetup : Setup ℕ Unit where
  clientHost := .windows
  daemonHost := .unix .little
  call := fun e n => ((Kernel.failing .enoent e ()).1, n + 1)
  kernel₀ := 0
  world := uncached

/-- Two handles to close. -/
def twoCloses : List Request := [.closeHandle 3, .closeHandle 4]

theorem servable_twoCloses : Servable countingSetup twoCloses 0 := by
  rintro (_ | _ | m) q hq
  · cases hq
    exact ⟨by rintro s ⟨⟩, trivial, trivial⟩
  · cases hq
    exact ⟨by rintro s ⟨⟩, trivial, trivial⟩
  · cases hq

/-- The second request has not arrived whole, so it has not been served. -/
theorem At.le_one {k' : ℕ}
    (h : At countingSetup twoCloses 0 ((twoCloses.flatMap Request.bytes).take 7) m k' rest) :
    k' ≤ 1 := by
  obtain ⟨hle, harrived, rfl⟩ := h
  have hlen : 7 = ((twoCloses.take m).flatMap Request.bytes).length + rest.length := by
    rw [← List.length_append, ← harrived]
    rfl
  rcases m with _ | _ | _ | m
  · exact Nat.zero_le 1
  · exact le_rfl
  · have hten : ((twoCloses.take (0 + 1 + 1)).flatMap Request.bytes).length = 10 := rfl
    omega
  · exact absurd hle (by simp [twoCloses])

/-- A client closes a handle and is lost while it asks for another to be closed: the device is asked
once at most. -/
theorem all_or_nothing_twoCloses : ∃ x : Departed ℕ,
    Relation.ReflTransGen (Step countingSetup)
      (.serving (Session.round countingSetup [] (.new 16 (by decide))) 0
        ((twoCloses.flatMap Request.bytes).take 7)) x ∧
    ∃ k' ≤ 1, x = .goodbye k' ∨ x = .disconnected k' := by
  have harrives : (twoCloses.flatMap Request.bytes).take 7 <+: twoCloses.flatMap Request.bytes :=
    List.take_prefix _ _
  have hidle := (Endpoint.idle_new 16 (by decide)).reader
  have hstart : At countingSetup twoCloses 0 ((twoCloses.flatMap Request.bytes).take 7) 0 0
      ((Endpoint.new 16 (by decide)).reader.pending ++
        (twoCloses.flatMap Request.bytes).take 7) := by
    rw [hidle]
    exact ⟨Nat.zero_le _, rfl, rfl⟩
  obtain ⟨x, hrun, hstuck⟩ := Runs.exists_stuck
    ((severed_of_at hstart servable_twoCloses harrives []).acc servable_twoCloses harrives)
  obtain ⟨hgoodbye, hdisconnected, -, hend⟩ :=
    all_or_nothing servable_twoCloses harrives [] hidle hrun
  obtain ⟨k', hx⟩ := hend.resolve_right fun ⟨y, hy⟩ => hstuck y hy
  refine ⟨x, hrun, k', ?_, hx⟩
  rcases hx with rfl | rfl
  · obtain ⟨m, hm⟩ := hgoodbye k' rfl
    exact hm.le_one
  · obtain ⟨m, k, rest, hm, rfl | ⟨q, hq, hpasses⟩⟩ := hdisconnected k' rfl
    · exact hm.le_one
    · -- closing a handle passes through no other state
      rcases m with _ | _ | m <;> cases hq <;> exact hpasses.elim

end Departed

end NandroidFS
