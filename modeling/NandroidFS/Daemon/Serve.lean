import NandroidFS.Daemon.ClientHandler
import NandroidFS.Protocol.Requests

/-!
# What the daemon is for

`serve` says what the daemon does for a request, with no stream in sight: from a state of the
kernel it computes the response and the next state.  `handleMessage_does` says that one round of
`handle_messages` is exactly that: it takes the bytes of the request off the stream, whatever
follows them, and puts the bytes of the response on it.

One request is excepted.  A write whose seek fails is answered before its payload has been read;
`Drains` is the condition that this does not happen.
-/

namespace NandroidFS

open ClientHandler

section Serve

variable {K : Type} (call : Kernel K)

/-- The status that reports the outcome of a call. -/
def statusOf : Except Errno Unit → ResponseStatus
  | .error e => getStatusFromErrno e
  | .ok () => .success

/-- The stat of a path. -/
def statPath (path : ByteString) (k : K) : Except ResponseStatus FileStat × K :=
  (match (call (.stat path) k).1 with
    | .error e => .error (getStatusFromErrno e)
    | .ok posixStat => .ok (fileStatOf posixStat), (call (.stat path) k).2)

/-- One item of a listing. -/
def listItem (name : EntryName) : Except Errno PosixStat → ListItem
  | .error e => .skipped (getStatusFromErrno e)
      ⟨getStatusFromErrno_ne_success e, getStatusFromErrno_ne_noMoreEntries e⟩
  | .ok posixStat => .entry name (fileStatOf posixStat)

/-- The items of a listing, each inspected in turn. -/
def listItems (directoryPath : ByteString) : List EntryName → K → List ListItem × K
  | [], k => ([], k)
  | name :: names, k =>
      let answer := call (.stat (cStr (getFullPath directoryPath name.1))) k
      let rest := listItems directoryPath names answer.2
      (listItem name answer.1 :: rest.1, rest.2)

/-- Read until `left` bytes have come or the file ends. -/
def readAll (fd : Int32) : (rounds left : ℕ) → K → Except Errno (List UInt8) × K
  | 0, _, k => (.ok [], k)
  | rounds + 1, left, k =>
      if left = 0 then (.ok [], k)
      else
        let answer := call (.read fd left) k
        match answer.1 with
        | .error e => (.error e, answer.2)
        | .ok bs =>
            if bs.1.length = 0 then (.ok [], answer.2)
            else
              let rest := readAll fd rounds (left - bs.1.length) answer.2
              (rest.1.map (bs.1 ++ ·), rest.2)

/-- Write until all of `data` has been taken. -/
def writeAll (fd : Int32) : (rounds : ℕ) → (data : List UInt8) → K → Except Errno Unit × K
  | 0, _, k => (.ok (), k)
  | rounds + 1, data, k =>
      if data = [] then (.ok (), k)
      else
        let answer := call (.write fd data) k
        match answer.1 with
        | .error e => (.error e, answer.2)
        | .ok n => writeAll fd rounds (data.drop n.1) answer.2

/-- Whether an entry may be removed from its directory. -/
def canRemove (path : ByteString) (k : K) : ResponseStatus × K :=
  match getParentPath path with
  | none => (.accessDenied, k)
  | some parent =>
      (statusOf (call (.access (cStr parent)) k).1, (call (.access (cStr parent)) k).2)

/-- The response to a request whose outcome is that of one call. -/
def report (answer : Except Errno Unit × K) : Response × K :=
  (.status (statusOf answer.1), answer.2)

/-- **What the daemon does for a request.** -/
def serve : Request → K → Response × K
  | .statFile path, k =>
      let answer := statPath call (cStr path) k
      (match answer.1 with
        | .error status => .status status
        | .ok stat => .stat stat, answer.2)
  | .listDirectory path, k =>
      let answer := call (.opendir (cStr path)) k
      match answer.1 with
      | .error e => (.status (getStatusFromErrno e), answer.2)
      | .ok names =>
          let items := listItems call path names answer.2
          (.listing items.1, items.2)
  | .createDirectory path, k => report (call (.mkdir (cStr path) DEFAULT_DIRECTORY_MODE) k)
  | .checkRemoveFile path, k =>
      let answer := canRemove call path k
      (.status answer.1, answer.2)
  | .checkRemoveDirectory path, k =>
      let answer := canRemove call path k
      if answer.1 ≠ .success then (.status answer.1, answer.2)
      else
        let names := call (.opendir (cStr path)) answer.2
        (.status (match names.1 with
          | .error e => getStatusFromErrno e
          | .ok names =>
              if names.any (fun name => !isDotEntry name) then .directoryNotEmpty
              else .success), names.2)
  | .removeFile path, k => report (call (.unlink (cStr path)) k)
  | .removeDirectory path, k => report (call (.rmdir (cStr path)) k)
  | .moveEntry args, k =>
      let existing := call (.stat (cStr args.toPath)) k
      let rename := report (call (.rename (cStr args.fromPath) (cStr args.toPath)) existing.2)
      match existing.1 with
      | .error e =>
          if e = .enoent then rename else (.status (getStatusFromErrno e), existing.2)
      | .ok _ => if args.overwrite then rename else (.status .fileExists, existing.2)
  | .openHandle args, k =>
      match accessFlag? args.readAccess args.writeAccess with
      | none => (.status .genericFailure, k)
      | some access =>
          let answer := call
            (.openFile (cStr args.path) (creationFlags access args.mode) DEFAULT_FILE_MODE) k
          (match answer.1 with
            | .error e => .status (getStatusFromErrno e)
            | .ok fd => .opened fd.1.toUInt32, answer.2)
  | .closeHandle handle, k => (.status .success, (call (.close handle.toInt32) k).2)
  | .readHandle args, k =>
      let seek := call (.lseek args.handle.toInt32 args.offset.toInt64) k
      match seek.1 with
      | .error e => (.status (getStatusFromErrno e), seek.2)
      | .ok () =>
          let answer := readAll call args.handle.toInt32 (args.dataLen.toNat + 1)
            args.dataLen.toNat seek.2
          (match answer.1 with
            | .error e => .status (getStatusFromErrno e)
            | .ok bs => .data bs, answer.2)
  | .writeHandle handle offset data, k =>
      let seek := call (.lseek handle.toInt32 offset.toInt64) k
      match seek.1 with
      | .error e => (.status (getStatusFromErrno e), seek.2)
      | .ok () => report (writeAll call handle.toInt32 data.1.length data.1 seek.2)
  | .truncateHandle args, k =>
      report (call (.ftruncate args.handle.toInt32 args.newLength.toInt64) k)
  | .setFileTime args, k =>
      report (call (.utimensat (cStr args.path) (getTimspecFromTimestamp args.accessTime)
        (getTimspecFromTimestamp args.writeTime)) k)
  | .getDiskStats, k =>
      let answer := call (.statvfs FREE_SPACE_FS_PATH) k
      (match answer.1 with
        | .error e => .status (getStatusFromErrno e)
        | .ok vfs => .disk (diskStatsOf vfs), answer.2)

/-- A write leaves nothing behind on the stream: its seek succeeds, or it has no payload. -/
def Drains : Request → K → Prop
  | .writeHandle handle offset data, k =>
      (call (.lseek handle.toInt32 offset.toInt64) k).1 = .ok () ∨ data.1 = []
  | _, _ => True

/-! ## Every response fits its request -/

theorem length_readAll_le (fd : Int32) (rounds left : ℕ) (k : K) {bs : List UInt8}
    (h : (readAll call fd rounds left k).1 = .ok bs) : bs.length ≤ left := by
  induction rounds generalizing left k bs with
  | zero =>
    obtain rfl : [] = bs := Except.ok.inj h
    exact Nat.zero_le _
  | succ rounds ih =>
    rw [readAll] at h
    by_cases hleft : left = 0
    · rw [if_pos hleft] at h
      obtain rfl : [] = bs := Except.ok.inj h
      exact Nat.zero_le _
    · rw [if_neg hleft] at h
      simp only at h
      rcases hread : (call (.read fd left) k).1 with e | ⟨chunk, hchunk⟩
      · simp only [hread] at h
        cases h
      · simp only [hread] at h
        by_cases hempty : chunk.length = 0
        · rw [if_pos hempty] at h
          obtain rfl : [] = bs := Except.ok.inj h
          exact Nat.zero_le _
        · rw [if_neg hempty] at h
          rcases hrest : (readAll call fd rounds (left - chunk.length)
            (call (.read fd left) k).2).1 with e | more
          · rw [hrest] at h
            cases h
          · rw [hrest] at h
            obtain rfl : chunk ++ more = bs := Except.ok.inj h
            have := ih _ _ hrest
            rw [List.length_append]
            omega

/-- **The response fits the request.** -/
theorem serve_answers (q : Request) (k : K) : (serve call q k).1.Answers q := by
  cases q with
  | statFile path =>
    simp only [serve, statPath]
    rcases (call (.stat (cStr path)) k).1 with e | st
    · exact getStatusFromErrno_ne_success e
    · trivial
  | listDirectory path =>
    simp only [serve]
    rcases (call (.opendir (cStr path)) k).1 with e | names
    · exact getStatusFromErrno_ne_success e
    · trivial
  | checkRemoveDirectory path =>
    simp only [serve]
    split <;> trivial
  | moveEntry args =>
    simp only [serve]
    rcases (call (.stat (cStr args.toPath)) k).1 with e | st
    · simp only
      split <;> trivial
    · simp only
      split <;> trivial
  | openHandle args =>
    simp only [serve]
    rcases accessFlag? args.readAccess args.writeAccess with _ | access
    · exact (by decide : ResponseStatus.genericFailure ≠ .success)
    · simp only
      split
      · exact getStatusFromErrno_ne_success _
      · trivial
  | readHandle args =>
    simp only [serve]
    rcases (call (.lseek args.handle.toInt32 args.offset.toInt64) k).1 with e | _
    · exact getStatusFromErrno_ne_success e
    · simp only
      split
      · exact getStatusFromErrno_ne_success _
      · next hread => exact length_readAll_le call _ _ _ _ hread
  | writeHandle handle offset data =>
    simp only [serve]
    rcases (call (.lseek handle.toInt32 offset.toInt64) k).1 with e | _ <;> trivial
  | getDiskStats =>
    simp only [serve]
    rcases (call (.statvfs FREE_SPACE_FS_PATH) k).1 with e | vfs
    · exact getStatusFromErrno_ne_success e
    · trivial
  | _ => trivial

/-! ## The handlers do what `serve` says -/

variable {call} (h : Host)

theorem writes_status (status : ResponseStatus) :
    (writeStatus status).Writes [status.toByte] () :=
  writes_byte _

theorem writes_respond (result : Except Errno Unit) :
    (respond result).Writes [(statusOf result).toByte] () := by
  rcases result with e | ⟨⟩ <;> exact writes_byte _

theorem does_respond (answer : Except Errno Unit × K) :
    StreamM.Does call (respond answer.1) answer.2 [] (report answer).1.bytes ()
      (report answer).2 :=
  (writes_respond _).does _

theorem does_statFile (path : ByteString) (k : K) :
    StreamM.Does call (statFile path) k [] [] (statPath call path k).1
      (statPath call path k).2 := by
  refine StreamM.Does.call_bind ?_
  rw [statPath]
  rcases (call (.stat path) k).1 with e | st <;> exact StreamM.Does.ret _ _

theorem does_handleStatFile {path : ByteString} (hp : NandroidFS.Fits path) (k : K) :
    StreamM.Does call (handleStatFile h) k (stringBytes path)
      (serve call (.statFile path) k).1.bytes () (serve call (.statFile path) k).2 := by
  refine (reads_string h hp).then_does_nil ((does_statFile _ k).silent_bind ?_)
  simp only [serve]
  rcases (statPath call (cStr path) k).1 with status | stat
  · exact (writes_status _).does _
  · exact (writes_status _).then_does ((stat.writes h).does _)

theorem fits_entryName (name : EntryName) : NandroidFS.Fits name.1 :=
  name.2.1.trans (by decide)

theorem does_listEntry (directoryPath : ByteString) (name : EntryName) (k : K) :
    StreamM.Does call (listEntry h directoryPath name) k []
      (listItem name (call (.stat (cStr (getFullPath directoryPath name.1))) k).1).bytes ()
      (call (.stat (cStr (getFullPath directoryPath name.1))) k).2 := by
  refine (does_statFile _ k).silent_bind ?_
  rw [statPath]
  rcases (call (.stat (cStr (getFullPath directoryPath name.1))) k).1 with e | st
  · exact (writes_status _).does _
  · exact (writes_status _).then_does ((writes_string h (fits_entryName name)).then_does
      (((fileStatOf st).writes h).does _))

theorem does_listEntries (directoryPath : ByteString) (names : List EntryName) (k : K) :
    StreamM.Does call (listEntries h directoryPath names) k []
      ((listItems call directoryPath names k).1.flatMap ListItem.bytes) ()
      (listItems call directoryPath names k).2 := by
  induction names generalizing k with
  | nil => exact StreamM.Does.ret k ()
  | cons name names ih => exact (does_listEntry h directoryPath name k).bind (ih _)

theorem does_handleListDirStats {path : ByteString} (hp : NandroidFS.Fits path) (k : K) :
    StreamM.Does call (handleListDirStats h) k (stringBytes path)
      (serve call (.listDirectory path) k).1.bytes () (serve call (.listDirectory path) k).2 := by
  refine (reads_string h hp).then_does_nil (StreamM.Does.call_bind ?_)
  simp only [serve]
  rcases (call (.opendir (cStr path)) k).1 with e | names
  · exact (writes_status _).does _
  · exact (writes_status _).then_does ((does_listEntries h path names _).bind
      ((writes_status .noMoreEntries).does _))

theorem does_handleMoveEntry {args : MoveEntryArgs} (hf : NandroidFS.Fits args.fromPath)
    (ht : NandroidFS.Fits args.toPath) (k : K) :
    StreamM.Does call (handleMoveEntry h) k args.bytes
      (serve call (.moveEntry args) k).1.bytes () (serve call (.moveEntry args) k).2 := by
  refine (MoveEntryArgs.reads h hf ht).then_does_nil (StreamM.Does.call_bind ?_)
  simp only [serve]
  rcases (call (.stat (cStr args.toPath)) k).1 with e | st
  · by_cases he : e = .enoent
    · simp only [if_pos he]
      exact StreamM.Does.call_bind (does_respond _)
    · simp only [if_neg he]
      exact (writes_status _).does _
  · by_cases ho : args.overwrite
    · simp only [if_pos ho]
      exact StreamM.Does.call_bind (does_respond _)
    · simp only [if_neg ho]
      exact (writes_status _).does _

theorem does_handleOpenHandle {args : OpenHandleArgs} (hp : NandroidFS.Fits args.path) (k : K) :
    StreamM.Does call (handleOpenHandle h) k args.bytes
      (serve call (.openHandle args) k).1.bytes () (serve call (.openHandle args) k).2 := by
  refine (OpenHandleArgs.reads h hp).then_does_nil ?_
  simp only [serve]
  rcases accessFlag? args.readAccess args.writeAccess with _ | access
  · exact (writes_status _).does _
  · refine StreamM.Does.call_bind ?_
    simp only
    rcases (call (.openFile (cStr args.path) (creationFlags access args.mode)
      DEFAULT_FILE_MODE) k).1 with e | fd
    · exact (writes_status _).does _
    · exact (writes_status _).then_does ((writes_u32 h _).does _)

theorem does_handleGetDiskStats (k : K) :
    StreamM.Does call (handleGetDiskStats h) k [] (serve call .getDiskStats k).1.bytes ()
      (serve call .getDiskStats k).2 := by
  refine StreamM.Does.call_bind ?_
  simp only [serve]
  rcases (call (.statvfs FREE_SPACE_FS_PATH) k).1 with e | vfs
  · exact (writes_status _).does _
  · exact (writes_status _).then_does (((diskStatsOf vfs).writes h).does _)

theorem does_canRemoveDirectoryEntry (path : ByteString) (k : K) :
    StreamM.Does call (canRemoveDirectoryEntry path) k [] [] (canRemove call path k).1
      (canRemove call path k).2 := by
  rw [canRemoveDirectoryEntry, canRemove]
  rcases getParentPath path with _ | parent
  · exact StreamM.Does.ret _ _
  · refine StreamM.Does.call_bind ?_
    simp only
    rcases (call (.access (cStr parent)) k).1 with e | ⟨⟩ <;> exact StreamM.Does.ret _ _

theorem does_handleCheckRemoveFile {path : ByteString} (hp : NandroidFS.Fits path) (k : K) :
    StreamM.Does call (handleCheckRemoveFile h) k (stringBytes path)
      (serve call (.checkRemoveFile path) k).1.bytes ()
      (serve call (.checkRemoveFile path) k).2 :=
  (reads_string h hp).then_does_nil
    ((does_canRemoveDirectoryEntry path k).silent_bind ((writes_status _).does _))

theorem does_handleCheckRemoveDirectory {path : ByteString} (hp : NandroidFS.Fits path) (k : K) :
    StreamM.Does call (handleCheckRemoveDirectory h) k (stringBytes path)
      (serve call (.checkRemoveDirectory path) k).1.bytes ()
      (serve call (.checkRemoveDirectory path) k).2 := by
  refine (reads_string h hp).then_does_nil
    ((does_canRemoveDirectoryEntry path k).silent_bind ?_)
  simp only [serve]
  by_cases hs : (canRemove call path k).1 ≠ .success
  · simp only [if_pos hs]
    exact (writes_status _).does _
  · simp only [if_neg hs]
    refine StreamM.Does.call_bind ?_
    rcases (call (.opendir (cStr path)) (canRemove call path k).2).1 with e | names
    · exact (writes_status _).does _
    · by_cases hn : names.any (fun name => !isDotEntry name)
      · simp only [if_pos hn]
        exact (writes_status _).does _
      · simp only [if_neg hn]
        exact (writes_status _).does _

/-! ### The transfer loops

Each loop is compared with its counterpart on data alone.  What carries the induction is where the
bytes are: those read so far are the front of the buffer, those still to be written are what is
left of it. -/

theorem length_ensureRwBufferSize (rwBuffer : List UInt8) (size : ℕ) :
    size ≤ (ensureRwBufferSize rwBuffer size).length := by
  rw [ensureRwBufferSize]
  split
  · rw [List.length_append, List.length_replicate]
    omega
  · omega

theorem length_overwrite {rwBuffer bs : List UInt8} {i : ℕ} (hi : i + bs.length ≤ rwBuffer.length) :
    (overwrite rwBuffer i bs).length = rwBuffer.length := by
  simp only [overwrite, List.length_append, List.length_take, List.length_drop]
  omega

theorem take_overwrite {rwBuffer : List UInt8} (bs : List UInt8) {i : ℕ}
    (hi : i ≤ rwBuffer.length) :
    (overwrite rwBuffer i bs).take (i + bs.length) = rwBuffer.take i ++ bs := by
  refine List.take_left' ?_
  rw [List.length_append, List.length_take, Nat.min_eq_left hi]

variable (call) in
theorem does_readRounds (args : ReadHandleArgs) (rounds totalRead : ℕ) (rwBuffer : List UInt8)
    (k : K) (ht : totalRead ≤ args.dataLen.toNat) (hbuf : args.dataLen.toNat ≤ rwBuffer.length) :
    let answer := readAll call args.handle.toInt32 rounds (args.dataLen.toNat - totalRead) k
    ∃ rwBuffer', StreamM.Does call (readRounds args rounds totalRead rwBuffer) k [] []
      (answer.1.map fun bs => totalRead + bs.length, rwBuffer') answer.2 ∧
      ∀ bs, answer.1 = .ok bs →
        rwBuffer'.take (totalRead + bs.length) = rwBuffer.take totalRead ++ bs := by
  have stop : ∀ total' (buf : List UInt8) (k : K), ∃ rwBuffer',
      StreamM.Does call (.ret (.ok total', buf) : DaemonM (Except Errno ℕ × List UInt8)) k [] []
        ((Except.ok [] : Except Errno (List UInt8)).map fun bs => total' + bs.length,
          rwBuffer') k ∧
      ∀ bs, (Except.ok [] : Except Errno (List UInt8)) = .ok bs →
        rwBuffer'.take (total' + bs.length) = buf.take total' ++ bs := by
    intro total' buf k
    refine ⟨buf, StreamM.Does.ret _ _, fun bs hbs => ?_⟩
    obtain rfl : [] = bs := Except.ok.inj hbs
    exact (List.append_nil _).symm
  induction rounds generalizing totalRead rwBuffer k with
  | zero => exact stop totalRead rwBuffer k
  | succ rounds ih =>
    rw [readRounds, readAll]
    by_cases hlt : totalRead < args.dataLen.toNat
    · rw [if_pos hlt, if_neg (by omega)]
      simp only
      rcases hread : (call (.read args.handle.toInt32 (args.dataLen.toNat - totalRead)) k).1
        with e | ⟨bs, hbs⟩
      · refine ⟨rwBuffer, StreamM.Does.call_bind ?_, fun bs hbs => by cases hbs⟩
        rw [hread]
        exact StreamM.Does.ret _ _
      · by_cases hempty : bs.length = 0
        · simp only [if_pos hempty]
          obtain ⟨rwBuffer', hdoes, htake⟩ := stop totalRead rwBuffer
            (call (.read args.handle.toInt32 (args.dataLen.toNat - totalRead)) k).2
          refine ⟨rwBuffer', StreamM.Does.call_bind ?_, htake⟩
          rw [hread]
          simp only [if_pos hempty]
          exact hdoes
        · simp only [if_neg hempty]
          obtain ⟨rwBuffer', hdoes, htake⟩ := ih (totalRead + bs.length)
            (overwrite rwBuffer totalRead bs)
            (call (.read args.handle.toInt32 (args.dataLen.toNat - totalRead)) k).2 (by omega)
            (by rw [length_overwrite (by omega)]; exact hbuf)
          rw [← Nat.sub_sub] at hdoes htake
          refine ⟨rwBuffer', StreamM.Does.call_bind ?_, ?_⟩
          · rw [hread]
            simp only [if_neg hempty]
            convert hdoes using 2
            rcases (readAll call args.handle.toInt32 rounds _ _).1 with e | more
            · rfl
            · simp only [Except.map, List.length_append, Nat.add_assoc]
          · intro all hall
            rcases hrest : (readAll call args.handle.toInt32 rounds
              (args.dataLen.toNat - totalRead - bs.length)
              (call (.read args.handle.toInt32 (args.dataLen.toNat - totalRead)) k).2).1
              with e | more
            · rw [hrest] at hall
              cases hall
            · rw [hrest] at hall
              obtain rfl : bs ++ more = all := Except.ok.inj hall
              rw [List.length_append, ← Nat.add_assoc, htake more hrest,
                take_overwrite bs (by omega), List.append_assoc]
    · rw [if_neg hlt, if_pos (by omega)]
      exact stop totalRead rwBuffer k

theorem intLength_ofNat_le (n : ℕ) : intLength (UInt32.ofNat n) ≤ n := by
  have hle : (UInt32.ofNat n).toNat ≤ n := by
    rw [UInt32.toNat_ofNat']
    exact Nat.mod_le _ _
  by_cases hlt : (UInt32.ofNat n).toNat < 2 ^ 31
  · rwa [intLength_of_lt hlt]
  · rw [intLength_of_le (by omega)]
    exact Nat.zero_le _

theorem does_handleReadFile (args : ReadHandleArgs) (rwBuffer : List UInt8) (k : K) :
    ∃ rwBuffer', StreamM.Does call (handleReadFile h rwBuffer) k args.bytes
      (serve call (.readHandle args) k).1.bytes rwBuffer' (serve call (.readHandle args) k).2 := by
  simp only [serve]
  rcases hseek : (call (.lseek args.handle.toInt32 args.offset.toInt64) k).1 with e | ⟨⟩
  · refine ⟨rwBuffer, (ReadHandleArgs.reads h args).then_does_nil (StreamM.Does.call_bind ?_)⟩
    rw [hseek]
    exact ((writes_status _).does _).bind_ret rfl
  · obtain ⟨rwBuffer', hdoes, htake⟩ := does_readRounds call args
      (args.dataLen.toNat + 1) 0 (ensureRwBufferSize rwBuffer args.dataLen.toNat)
      (call (.lseek args.handle.toInt32 args.offset.toInt64) k).2 (Nat.zero_le _)
      (length_ensureRwBufferSize _ _)
    rw [Nat.sub_zero] at hdoes htake
    refine ⟨rwBuffer', (ReadHandleArgs.reads h args).then_does_nil (StreamM.Does.call_bind ?_)⟩
    rw [hseek]
    refine hdoes.silent_bind ?_
    rcases hread : (readAll call args.handle.toInt32 (args.dataLen.toNat + 1) args.dataLen.toNat
      (call (.lseek args.handle.toInt32 args.offset.toInt64) k).2).1 with e | bs
    · exact ((writes_status _).does _).bind_ret rfl
    · have hbs : rwBuffer'.take bs.length = bs := by
        have := htake bs hread
        rwa [Nat.zero_add, List.take_zero, List.nil_append] at this
      have hdata : rwBuffer'.take (intLength (UInt32.ofNat bs.length)) =
          bs.take (intLength (UInt32.ofNat bs.length)) := by
        conv_rhs => rw [← hbs, List.take_take, hbs, Nat.min_eq_left (intLength_ofNat_le _)]
      simp only [Except.map, Nat.zero_add, hdata]
      exact (writes_status _).then_does ((writes_u32 h _).then_does
        (((StreamM.writes_writeExact _).does _).bind_ret rfl))

variable (call) in
theorem does_writeRounds (args : WriteHandleInitArgs) {rwBuffer : List UInt8} (data : List UInt8)
    (hdata : rwBuffer.take args.dataLen.toNat = data) (hlen : data.length = args.dataLen.toNat)
    (rounds totalWritten : ℕ) (k : K) :
    StreamM.Does call (writeRounds args rwBuffer rounds totalWritten) k [] []
      (writeAll call args.handle.toInt32 rounds (data.drop totalWritten) k).1
      (writeAll call args.handle.toInt32 rounds (data.drop totalWritten) k).2 := by
  induction rounds generalizing totalWritten k with
  | zero => exact StreamM.Does.ret _ _
  | succ rounds ih =>
    rw [writeRounds, writeAll]
    by_cases hlt : totalWritten < args.dataLen.toNat
    · have hrest : (rwBuffer.drop totalWritten).take (args.dataLen.toNat - totalWritten) =
          data.drop totalWritten := by
        rw [← hdata, List.drop_take]
      rw [if_pos hlt, if_neg (by rw [List.drop_eq_nil_iff]; omega), hrest]
      refine StreamM.Does.call_bind ?_
      simp only
      rcases (call (.write args.handle.toInt32 (data.drop totalWritten)) k).1 with e | n
      · exact StreamM.Does.ret _ _
      · simp only [List.drop_drop]
        exact ih _ _
    · rw [if_neg hlt, if_pos (by rw [List.drop_eq_nil_iff]; omega)]
      exact StreamM.Does.ret _ _

/-- A write whose seek fails is answered as soon as its header has been read. -/
theorem does_handleWriteFile_of_seek_failed {handle : FileHandle} {offset : UInt64}
    (data : Payload) {k : K} {e : Errno}
    (hseek : (call (.lseek handle.toInt32 offset.toInt64) k).1 = .error e)
    (rwBuffer : List UInt8) :
    StreamM.Does call (handleWriteFile h rwBuffer) k (Request.writeArgs handle offset data).bytes
      [(getStatusFromErrno e).toByte] rwBuffer
      (call (.lseek handle.toInt32 offset.toInt64) k).2 := by
  refine (WriteHandleInitArgs.reads h _).then_does_nil (StreamM.Does.call_bind ?_)
  simp only [Request.writeArgs, hseek]
  exact ((writes_status _).does _).bind_ret rfl

theorem does_handleWriteFile (handle : FileHandle) (offset : UInt64) (data : Payload)
    (hs : data.1.length < 2 ^ 31) (rwBuffer : List UInt8) (k : K)
    (hd : Drains call (.writeHandle handle offset data) k) :
    ∃ rwBuffer', StreamM.Does call (handleWriteFile h rwBuffer) k
      (Request.writeHandle handle offset data).argBytes
      (serve call (.writeHandle handle offset data) k).1.bytes rwBuffer'
      (serve call (.writeHandle handle offset data) k).2 := by
  have hint : intLength data.dataLen = data.1.length := by
    rw [intLength_of_lt (by rwa [Payload.toNat_dataLen]), Payload.toNat_dataLen]
  simp only [serve, Request.argBytes, hint, List.take_length]
  rcases hseek : (call (.lseek handle.toInt32 offset.toInt64) k).1 with e | ⟨⟩
  · -- the seek failed, so there is no payload to read
    have hnil : data.1 = [] := hd.resolve_left fun h0 => by rw [hseek] at h0; cases h0
    refine ⟨rwBuffer, ?_⟩
    rw [hnil, List.append_nil]
    exact does_handleWriteFile_of_seek_failed h data hseek rwBuffer
  · refine ⟨overwrite (ensureRwBufferSize rwBuffer data.1.length) 0 data.1,
      (WriteHandleInitArgs.reads h _).then_does (StreamM.Does.call_bind ?_)⟩
    have hbuf : (overwrite (ensureRwBufferSize rwBuffer data.1.length) 0 data.1).take
        data.1.length = data.1 := by
      have hzero := Nat.zero_le (ensureRwBufferSize rwBuffer data.1.length).length
      have := take_overwrite data.1 hzero
      rwa [Nat.zero_add, List.take_zero, List.nil_append] at this
    simp only [Request.writeArgs, hseek, Payload.toNat_dataLen]
    refine (StreamM.reads_readExact Exn.eof data.1 hint).then_does_nil ?_
    have hloop := does_writeRounds call (Request.writeArgs handle offset data) data.1
      (by rwa [Request.writeArgs, Payload.toNat_dataLen])
      (by rw [Request.writeArgs, Payload.toNat_dataLen]) data.1.length 0
      (call (.lseek handle.toInt32 offset.toInt64) k).2
    exact hloop.silent_bind ((does_respond _).bind_ret rfl)

/-- **The handler of a request does what `serve` says.** -/
theorem does_handleRequest {q : Request} (hq : q.Fits) (hs : q.Sized) (rwBuffer : List UInt8)
    (k : K) (hd : Drains call q k) :
    ∃ rwBuffer', StreamM.Does call (handleRequest h rwBuffer q.type) k q.argBytes
      (serve call q k).1.bytes rwBuffer' (serve call q k).2 := by
  have path {s : ByteString} (hq : ∀ t ∈ [s], NandroidFS.Fits t) : NandroidFS.Fits s :=
    hq s (List.mem_singleton_self s)
  have single {p : StreamM Syscall Syscall.Res Exn Unit} {bs out : List UInt8} {k' : K}
      (hp : StreamM.Does call p k bs out () k') :
      ∃ rwBuffer', StreamM.Does call (do p; return rwBuffer) k bs out rwBuffer' k' :=
    ⟨rwBuffer, hp.bind_ret rfl⟩
  cases q with
  | statFile s => exact single (does_handleStatFile h (path hq) k)
  | listDirectory s => exact single (does_handleListDirStats h (path hq) k)
  | createDirectory s =>
    exact single ((reads_string h (path hq)).then_does_nil
      (StreamM.Does.call_bind (does_respond _)))
  | checkRemoveFile s => exact single (does_handleCheckRemoveFile h (path hq) k)
  | checkRemoveDirectory s => exact single (does_handleCheckRemoveDirectory h (path hq) k)
  | removeFile s =>
    exact single ((reads_string h (path hq)).then_does_nil
      (StreamM.Does.call_bind (does_respond _)))
  | removeDirectory s =>
    exact single ((reads_string h (path hq)).then_does_nil
      (StreamM.Does.call_bind (does_respond _)))
  | moveEntry args =>
    exact single (does_handleMoveEntry h (hq _ (by simp [Request.strings]))
      (hq _ (by simp [Request.strings])) k)
  | openHandle args => exact single (does_handleOpenHandle h (path hq) k)
  | closeHandle handle =>
    exact single ((reads_u32 h handle).then_does_nil
      (StreamM.Does.call_bind ((writes_status .success).does _)))
  | readHandle args => exact does_handleReadFile h args rwBuffer k
  | writeHandle handle offset data =>
    exact does_handleWriteFile h handle offset data hs rwBuffer k hd
  | truncateHandle args =>
    exact single ((TruncateHandleArgs.reads h args).then_does_nil
      (StreamM.Does.call_bind (does_respond _)))
  | setFileTime args =>
    exact single ((SetFileTimeArgs.reads h (path hq)).then_does_nil
      (StreamM.Does.call_bind (does_respond _)))
  | getDiskStats => exact single (does_handleGetDiskStats h k)

/-- A round of `handle_messages` is the handler of the request, between its type byte and the
flush. -/
theorem run_handleMessage_of_does (reqType : RequestType) {rwBuffer rwBuffer' : List UInt8}
    {args out : List UInt8} {k k' : K}
    (hdoes : StreamM.Does call (handleRequest h rwBuffer reqType) k args out rwBuffer' k')
    (closed : Bool) {v : View K} {rest : List UInt8}
    (hin : v.inflow = reqType.toByte :: (args ++ rest)) (hw : v.world = k) :
    StreamM.run call closed (handleMessage h rwBuffer) v =
      (.done (some rwBuffer'), ⟨rest, v.outflow ++ out, true, k'⟩) := by
  obtain ⟨settled, hrun⟩ := hdoes closed { v with inflow := args ++ rest } rest rfl hw
  have hle : 1 ≤ v.inflow.length := by
    rw [hin, List.length_cons]
    omega
  rw [handleMessage, StreamM.run_readExact_of_le _ _ hle]
  simp only [hin, List.take_succ_cons, List.take_zero, List.headD_cons, List.drop_succ_cons,
    List.drop_zero, RequestType.ofByte?_toByte]
  rw [StreamM.run_bind_done _ _ hrun]
  rfl

/-- **One round of `handle_messages` serves one request.**  It takes exactly the bytes of the
request off the stream and leaves everything it wrote, exactly the bytes of the response, pushed
out. -/
theorem run_handleMessage {q : Request} (hq : q.Fits) (hs : q.Sized) (rwBuffer : List UInt8)
    {k : K} (hd : Drains call q k) (closed : Bool) {v : View K} {rest : List UInt8}
    (hin : v.inflow = q.bytes ++ rest) (hw : v.world = k) :
    ∃ rwBuffer', StreamM.run call closed (handleMessage h rwBuffer) v =
      (.done (some rwBuffer'), ⟨rest, v.outflow ++ (serve call q k).1.bytes, true,
        (serve call q k).2⟩) := by
  obtain ⟨rwBuffer', hdoes⟩ := does_handleRequest h hq hs rwBuffer k hd
  exact ⟨rwBuffer', run_handleMessage_of_does h q.type hdoes closed hin hw⟩

end Serve

end NandroidFS
