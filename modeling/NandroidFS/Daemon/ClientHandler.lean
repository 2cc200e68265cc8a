import NandroidFS.Daemon.Syscall
import NandroidFS.Shared.PathUtils

/-!
# The daemon's side of a request

`ClientHandler.cpp`: one program for each handler, and `handleMessage`, one round of the loop of
`handle_messages`.  The programs read their arguments and write their answer through the stream,
and call the system in between, in the order of the source.

`rw_buffer` outlives the requests, so it is passed in and handed back.  The counters of the two
transfer loops are numbers here; the lengths given to `read_exact`, `write_exact` and `write_u32`
go through `int` and `uint32_t` as they do in the source.
-/

namespace NandroidFS

def DEFAULT_FILE_MODE : ℕ := 33200

def DEFAULT_DIRECTORY_MODE : ℕ := 16888

/-- The path `/sdcard/`. -/
def FREE_SPACE_FS_PATH : ByteString := [47, 115, 100, 99, 97, 114, 100, 47]

namespace ClientHandler

/-- One system call. -/
def sys (e : Syscall) : DaemonM e.Res :=
  StreamM.call e

/-- `writer.write_byte((uint8_t) status)`. -/
def writeStatus (status : ResponseStatus) : DaemonM Unit :=
  writeByte status.toByte

/-- The handlers that report the success or the error of one call. -/
def respond : Except Errno Unit → DaemonM Unit
  | .error e => writeStatus (getStatusFromErrno e)
  | .ok () => writeStatus .success

/-- The conversion of `struct stat`: the mode loses its upper half, the signed fields keep their
bits. -/
def fileStatOf (st : PosixStat) : FileStat where
  mode := st.stMode.toUInt16
  size := st.stSize.toUInt64
  accessTime := st.stAtime.toUInt64
  writeTime := st.stMtime.toUInt64

def statFile (path : ByteString) : DaemonM (Except ResponseStatus FileStat) := do
  match ← sys (.stat path) with
  | .error e => return .error (getStatusFromErrno e)
  | .ok posixStat => return .ok (fileStatOf posixStat)

/-- `rw_buffer` only ever grows. -/
def ensureRwBufferSize (rwBuffer : List UInt8) (size : ℕ) : List UInt8 :=
  if size > rwBuffer.length then rwBuffer ++ List.replicate (size - rwBuffer.length) 0
  else rwBuffer

/-- Store `bs` in the buffer from index `i` on. -/
def overwrite (rwBuffer : List UInt8) (i : ℕ) (bs : List UInt8) : List UInt8 :=
  rwBuffer.take i ++ bs ++ rwBuffer.drop (i + bs.length)

variable (h : Host)

def handleStatFile : DaemonM Unit := do
  let filePath ← readUtf8String h
  match ← statFile (cStr filePath) with
  | .error status => writeStatus status
  | .ok stat =>
      writeStatus .success
      stat.write h

/-- The body of the loop over the entries of a directory. -/
def listEntry (directoryPath : ByteString) (name : EntryName) : DaemonM Unit := do
  match ← statFile (cStr (getFullPath directoryPath name.1)) with
  | .ok stat =>
      writeStatus .success
      writeUtf8String h name.1
      stat.write h
  | .error status => writeStatus status

def listEntries (directoryPath : ByteString) : List EntryName → DaemonM Unit
  | [] => return ()
  | name :: names => do
      listEntry h directoryPath name
      listEntries directoryPath names

def handleListDirStats : DaemonM Unit := do
  let directoryPath ← readUtf8String h
  match ← sys (.opendir (cStr directoryPath)) with
  | .error e => writeStatus (getStatusFromErrno e)
  | .ok names =>
      writeStatus .success
      listEntries h directoryPath names
      writeStatus .noMoreEntries

def handleMoveEntry : DaemonM Unit := do
  let args ← MoveEntryArgs.read h
  match ← sys (.stat (cStr args.toPath)) with
  | .error e =>
      if e = .enoent then
        respond (← sys (.rename (cStr args.fromPath) (cStr args.toPath)))
      else writeStatus (getStatusFromErrno e)
  | .ok _ =>
      if args.overwrite then
        respond (← sys (.rename (cStr args.fromPath) (cStr args.toPath)))
      else writeStatus .fileExists

def handleRemoveFile : DaemonM Unit := do
  let filePath ← readUtf8String h
  respond (← sys (.unlink (cStr filePath)))

def handleRemoveDirectory : DaemonM Unit := do
  let filePath ← readUtf8String h
  respond (← sys (.rmdir (cStr filePath)))

/-- The access flag of `open`; `none` when the handle could neither be read nor written. -/
def accessFlag? (readAccess writeAccess : Bool) : Option AccessFlag :=
  match readAccess, writeAccess with
  | false, false => none
  | true, false => some .rdonly
  | false, true => some .wronly
  | true, true => some .rdwr

/-- The flags that the open mode adds; a mode without a name adds none. -/
def creationFlags (access : AccessFlag) : OpenMode → OpenFlags
  | .createIfNotExist => { access, creat := true, trunc := false, excl := false }
  | .truncate => { access, creat := false, trunc := true, excl := false }
  | .createOrTruncate => { access, creat := true, trunc := true, excl := false }
  | .createAlways => { access, creat := true, trunc := false, excl := true }
  | .openOnly => { access, creat := false, trunc := false, excl := false }
  | .unnamed _ _ => { access, creat := false, trunc := false, excl := false }

def handleOpenHandle : DaemonM Unit := do
  let args ← OpenHandleArgs.read h
  match accessFlag? args.readAccess args.writeAccess with
  | none => writeStatus .genericFailure
  | some access =>
      match ← sys
        (.openFile (cStr args.path) (creationFlags access args.mode) DEFAULT_FILE_MODE) with
      | .error e => writeStatus (getStatusFromErrno e)
      | .ok fd =>
          writeStatus .success
          writeU32 h fd.1.toUInt32

def handleCreateDirectory : DaemonM Unit := do
  let dirPath ← readUtf8String h
  respond (← sys (.mkdir (cStr dirPath) DEFAULT_DIRECTORY_MODE))

/-- The loop that reads until the requested length or the end of the file.  Every round but the
last brings a byte, so `dataLen + 1` rounds are enough.  `total_read` is an `int`.  Here it counts
without a bound, which is the same as long as fewer than `2 ^ 31` bytes are read; beyond that the
source would go on at an index before its buffer. -/
def readRounds (args : ReadHandleArgs) : (rounds totalRead : ℕ) → (rwBuffer : List UInt8) →
    DaemonM (Except Errno ℕ × List UInt8)
  | 0, totalRead, rwBuffer => return (.ok totalRead, rwBuffer)
  | rounds + 1, totalRead, rwBuffer =>
      if totalRead < args.dataLen.toNat then do
        match ← sys (.read args.handle.toInt32 (args.dataLen.toNat - totalRead)) with
        | .error e => return (.error e, rwBuffer)
        | .ok bs =>
            if bs.1.length = 0 then return (.ok totalRead, rwBuffer)
            else
              readRounds args rounds (totalRead + bs.1.length)
                (overwrite rwBuffer totalRead bs.1)
      else return (.ok totalRead, rwBuffer)

def handleReadFile (rwBuffer : List UInt8) : DaemonM (List UInt8) := do
  let args ← ReadHandleArgs.read h
  match ← sys (.lseek args.handle.toInt32 args.offset.toInt64) with
  | .error e =>
      writeStatus (getStatusFromErrno e)
      return rwBuffer
  | .ok () =>
      let (result, rwBuffer) ← readRounds args (args.dataLen.toNat + 1) 0
        (ensureRwBufferSize rwBuffer args.dataLen.toNat)
      match result with
      | .error e =>
          writeStatus (getStatusFromErrno e)
          return rwBuffer
      | .ok totalRead =>
          writeStatus .success
          writeU32 h (UInt32.ofNat totalRead)
          StreamM.writeExact (rwBuffer.take (intLength (UInt32.ofNat totalRead)))
          return rwBuffer

/-- One call of `write` on what is left of the buffer; `next` continues after the bytes taken. -/
def writeRound (fd : Int32) (rest : List UInt8) (next : ℕ → DaemonM (Except Errno Unit)) :
    DaemonM (Except Errno Unit) := do
  match ← sys (.write fd rest) with
  | .error e => return .error e
  | .ok n => next n.1

/-- The loop that writes until the whole buffer has been taken.  Every round takes a byte, so
`dataLen` rounds are enough.  `total_written` is an `int` too, the same number as long as `dataLen`
is below `2 ^ 31`. -/
def writeRounds (args : WriteHandleInitArgs) (rwBuffer : List UInt8) : (rounds totalWritten : ℕ) →
    DaemonM (Except Errno Unit)
  | 0, _ => return .ok ()
  | rounds + 1, totalWritten =>
      if totalWritten < args.dataLen.toNat then
        writeRound args.handle.toInt32
          ((rwBuffer.drop totalWritten).take (args.dataLen.toNat - totalWritten))
          fun n => writeRounds args rwBuffer rounds (totalWritten + n)
      else return .ok ()

/-- The payload is read only after the seek has succeeded. -/
def handleWriteFile (rwBuffer : List UInt8) : DaemonM (List UInt8) := do
  let args ← WriteHandleInitArgs.read h
  match ← sys (.lseek args.handle.toInt32 args.offset.toInt64) with
  | .error e =>
      writeStatus (getStatusFromErrno e)
      return rwBuffer
  | .ok () =>
      let bytes ← StreamM.readExact Exn.eof (intLength args.dataLen)
      let rwBuffer := overwrite (ensureRwBufferSize rwBuffer args.dataLen.toNat) 0 bytes
      respond (← writeRounds args rwBuffer args.dataLen.toNat 0)
      return rwBuffer

def handleTruncateFile : DaemonM Unit := do
  let args ← TruncateHandleArgs.read h
  respond (← sys (.ftruncate args.handle.toInt32 args.newLength.toInt64))

def getTimspecFromTimestamp (timestamp : Int64) : Timespec :=
  if timestamp = -1 then .omit else .seconds timestamp

def handleSetFileTime : DaemonM Unit := do
  let args ← SetFileTimeArgs.read h
  respond (← sys (.utimensat (cStr args.path) (getTimspecFromTimestamp args.accessTime)
    (getTimspecFromTimestamp args.writeTime)))

/-- The products are of 64 bits; the middle one counts free inodes. -/
def diskStatsOf (vfs : PosixStatvfs) : DiskStats where
  freeBytes := vfs.fBsize * vfs.fBfree
  availableBytes := vfs.fBsize * vfs.fFavail
  totalBytes := vfs.fBsize * vfs.fBlocks

def handleGetDiskStats : DaemonM Unit := do
  match ← sys (.statvfs FREE_SPACE_FS_PATH) with
  | .error e => writeStatus (getStatusFromErrno e)
  | .ok vfs =>
      writeStatus .success
      (diskStatsOf vfs).write h

def canRemoveDirectoryEntry (path : ByteString) : DaemonM ResponseStatus :=
  match getParentPath path with
  | none => return .accessDenied
  | some parentDirPath => do
      match ← sys (.access (cStr parentDirPath)) with
      | .error e => return getStatusFromErrno e
      | .ok () => return .success

def handleCheckRemoveFile : DaemonM Unit := do
  let filePath ← readUtf8String h
  writeStatus (← canRemoveDirectoryEntry filePath)

/-- The names that an empty directory has. -/
def isDotEntry (name : EntryName) : Bool :=
  name.1 == [46] || name.1 == [46, 46]

def handleCheckRemoveDirectory : DaemonM Unit := do
  let dirPath ← readUtf8String h
  let canRemEntry ← canRemoveDirectoryEntry dirPath
  if canRemEntry ≠ .success then writeStatus canRemEntry
  else
    match ← sys (.opendir (cStr dirPath)) with
    | .error e => writeStatus (getStatusFromErrno e)
    | .ok names =>
        if names.any (fun name => !isDotEntry name) then writeStatus .directoryNotEmpty
        else writeStatus .success

/-- A handle that cannot be closed is reported as closed. -/
def handleCloseHandle : DaemonM Unit := do
  let handle ← readU32 h
  let _ ← sys (.close handle.toInt32)
  writeStatus .success

/-- The `switch` of `handle_messages`. -/
def handleRequest (rwBuffer : List UInt8) : RequestType → DaemonM (List UInt8)
  | .statFile => do handleStatFile h; return rwBuffer
  | .listDirectory => do handleListDirStats h; return rwBuffer
  | .moveEntry => do handleMoveEntry h; return rwBuffer
  | .removeFile => do handleRemoveFile h; return rwBuffer
  | .removeDirectory => do handleRemoveDirectory h; return rwBuffer
  | .createDirectory => do handleCreateDirectory h; return rwBuffer
  | .openHandle => do handleOpenHandle h; return rwBuffer
  | .readHandle => handleReadFile h rwBuffer
  | .writeHandle => handleWriteFile h rwBuffer
  | .closeHandle => do handleCloseHandle h; return rwBuffer
  | .truncateHandle => do handleTruncateFile h; return rwBuffer
  | .setFileTime => do handleSetFileTime h; return rwBuffer
  | .getDiskStats => do handleGetDiskStats h; return rwBuffer
  | .checkRemoveFile => do handleCheckRemoveFile h; return rwBuffer
  | .checkRemoveDirectory => do handleCheckRemoveDirectory h; return rwBuffer

/-- **One round of `handle_messages`**: the end of the stream before a request ends the loop
(`none`); otherwise a request is read, handled and its answer flushed. -/
def handleMessage (rwBuffer : List UInt8) : DaemonM (Option (List UInt8)) :=
  .act (.readExact 1) fun
    | none => return none
    | some bs =>
        match RequestType.ofByte? (bs.headD 0) with
        | none => .fail .unknownRequest
        | some reqType => do
            let rwBuffer ← handleRequest h rwBuffer reqType
            StreamM.flush
            return some rwBuffer

/-! ## The daemon reads before it writes -/

theorem noReads_respond (result : Except Errno Unit) : (respond result).NoReads := by
  rcases result with e | ⟨⟩ <;> exact (onlyWrites_writeByte _).noReads

theorem noReads_statFile (path : ByteString) : (statFile path).NoReads := by
  refine StreamM.noReads_call_bind fun r => ?_
  rcases r with e | st <;> trivial

theorem noReads_listEntry (directoryPath : ByteString) (name : EntryName) :
    (listEntry h directoryPath name).NoReads := by
  refine (noReads_statFile _).bind fun r => ?_
  rcases r with status | stat
  · exact (onlyWrites_writeByte _).noReads
  · exact (onlyWrites_writeByte _).noReads.bind fun _ =>
      (onlyWrites_writeUtf8String h _).noReads.bind fun _ =>
        (MessageType.fileStat.onlyWrites_write h stat).noReads

theorem noReads_listEntries (directoryPath : ByteString) (names : List EntryName) :
    (listEntries h directoryPath names).NoReads := by
  induction names with
  | nil => trivial
  | cons name names ih => exact (noReads_listEntry h directoryPath name).bind fun _ => ih

theorem noReads_readRounds (args : ReadHandleArgs) (rounds totalRead : ℕ)
    (rwBuffer : List UInt8) : (readRounds args rounds totalRead rwBuffer).NoReads := by
  induction rounds generalizing totalRead rwBuffer with
  | zero => trivial
  | succ rounds ih =>
    rw [readRounds]
    split
    · refine StreamM.noReads_call_bind fun r => ?_
      rcases r with e | bs
      · trivial
      · simp only
        split
        · trivial
        · exact ih _ _
    · trivial

theorem noReads_writeRounds (args : WriteHandleInitArgs) (rwBuffer : List UInt8)
    (rounds totalWritten : ℕ) : (writeRounds args rwBuffer rounds totalWritten).NoReads := by
  induction rounds generalizing totalWritten with
  | zero => trivial
  | succ rounds ih =>
    rw [writeRounds]
    split
    · refine StreamM.noReads_call_bind fun r => ?_
      rcases r with e | n
      · trivial
      · exact ih _
    · trivial

theorem noReads_canRemoveDirectoryEntry (path : ByteString) :
    (canRemoveDirectoryEntry path).NoReads := by
  rw [canRemoveDirectoryEntry]
  rcases getParentPath path with _ | parent
  · trivial
  · refine StreamM.noReads_call_bind fun r => ?_
    rcases r with e | ⟨⟩ <;> trivial

/-- The answer of a handler, once its arguments are read. -/
theorem readsThenWrites_of_noReads {α β : Type} {p : DaemonM α} {f : α → DaemonM β}
    (hp : p.NoWrites) (hf : ∀ a, (f a).NoReads) : (p >>= f).ReadsThenWrites :=
  Prog.Phased.bind_left hp fun a => (hf a).phased_right

theorem noWrites_readArgs (t : MessageType) : (t.read h : DaemonM t.Value).NoWrites :=
  (t.onlyReads_read h).noWrites

theorem handleMoveEntry_readsThenWrites : (handleMoveEntry h).ReadsThenWrites := by
  refine readsThenWrites_of_noReads (noWrites_readArgs h .moveEntryArgs) fun args => ?_
  refine StreamM.noReads_call_bind fun r => ?_
  rcases r with e | st
  · simp only
    split
    · exact StreamM.noReads_call_bind fun r => noReads_respond r
    · exact (onlyWrites_writeByte _).noReads
  · simp only
    split
    · exact StreamM.noReads_call_bind fun r => noReads_respond r
    · exact (onlyWrites_writeByte _).noReads

theorem handleListDirStats_readsThenWrites : (handleListDirStats h).ReadsThenWrites := by
  refine readsThenWrites_of_noReads (onlyReads_readUtf8String h).noWrites fun path => ?_
  refine StreamM.noReads_call_bind fun r => ?_
  rcases r with e | names
  · exact (onlyWrites_writeByte _).noReads
  · exact (onlyWrites_writeByte _).noReads.bind fun _ => (noReads_listEntries h _ _).bind fun _ =>
      (onlyWrites_writeByte _).noReads

theorem handleStatFile_readsThenWrites : (handleStatFile h).ReadsThenWrites := by
  refine readsThenWrites_of_noReads (onlyReads_readUtf8String h).noWrites fun path => ?_
  refine (noReads_statFile _).bind fun r => ?_
  rcases r with status | stat
  · exact (onlyWrites_writeByte _).noReads
  · exact (onlyWrites_writeByte _).noReads.bind fun _ =>
      (MessageType.fileStat.onlyWrites_write h stat).noReads

theorem handleOpenHandle_readsThenWrites : (handleOpenHandle h).ReadsThenWrites := by
  refine readsThenWrites_of_noReads (noWrites_readArgs h .openHandleArgs) fun args => ?_
  rcases accessFlag? args.readAccess args.writeAccess with _ | access
  · exact (onlyWrites_writeByte _).noReads
  · refine StreamM.noReads_call_bind fun r => ?_
    rcases r with e | fd
    · exact (onlyWrites_writeByte _).noReads
    · exact (onlyWrites_writeByte _).noReads.bind fun _ => (onlyWrites_writeU32 h _).noReads

theorem handleReadFile_readsThenWrites (rwBuffer : List UInt8) :
    (handleReadFile h rwBuffer).ReadsThenWrites := by
  refine readsThenWrites_of_noReads (noWrites_readArgs h .readHandleArgs) fun args => ?_
  refine StreamM.noReads_call_bind fun r => ?_
  rcases r with e | ⟨⟩
  · exact (onlyWrites_writeByte _).noReads.bind fun _ => trivial
  · refine (noReads_readRounds _ _ _ _).bind fun x => ?_
    obtain ⟨result, rwBuffer'⟩ := x
    rcases result with e | totalRead
    · exact (onlyWrites_writeByte _).noReads.bind fun _ => trivial
    · exact (onlyWrites_writeByte _).noReads.bind fun _ =>
        (onlyWrites_writeU32 h _).noReads.bind fun _ =>
          (StreamM.onlyWrites_writeExact _).noReads.bind fun _ => trivial

theorem handleWriteFile_readsThenWrites (rwBuffer : List UInt8) :
    (handleWriteFile h rwBuffer).ReadsThenWrites := by
  refine Prog.Phased.bind_left (noWrites_readArgs h .writeHandleInitArgs) fun args => ?_
  refine StreamM.readsThenWrites_call_bind fun r => ?_
  rcases r with e | ⟨⟩
  · exact Prog.All.phased_right ((onlyWrites_writeByte _).noReads.bind fun _ => trivial)
  · exact readsThenWrites_of_noReads (StreamM.onlyReads_readExact _ _).noWrites fun bytes =>
      (noReads_writeRounds _ _ _ _).bind fun r => (noReads_respond r).bind fun _ => trivial

theorem handleGetDiskStats_readsThenWrites : (handleGetDiskStats h).ReadsThenWrites := by
  refine Prog.All.phased_right (StreamM.noReads_call_bind fun r => ?_)
  rcases r with e | vfs
  · exact (onlyWrites_writeByte _).noReads
  · exact (onlyWrites_writeByte _).noReads.bind fun _ =>
      (MessageType.diskStats.onlyWrites_write h (diskStatsOf vfs)).noReads

theorem handleCheckRemoveDirectory_readsThenWrites :
    (handleCheckRemoveDirectory h).ReadsThenWrites := by
  refine readsThenWrites_of_noReads (onlyReads_readUtf8String h).noWrites fun path => ?_
  refine (noReads_canRemoveDirectoryEntry path).bind fun status => ?_
  split
  · exact (onlyWrites_writeByte _).noReads
  · refine StreamM.noReads_call_bind fun r => ?_
    rcases r with e | names
    · exact (onlyWrites_writeByte _).noReads
    · simp only
      split <;> exact (onlyWrites_writeByte _).noReads

/-- A handler of one path that reports the outcome of one call. -/
theorem path_call_readsThenWrites (e : ByteString → Syscall)
    (f : (path : ByteString) → (e path).Res → DaemonM Unit) (hf : ∀ path r, (f path r).NoReads) :
    (do let path ← readUtf8String h; f path (← sys (e path))).ReadsThenWrites :=
  readsThenWrites_of_noReads (onlyReads_readUtf8String h).noWrites fun path =>
    StreamM.noReads_call_bind (hf path)

theorem handleRequest_readsThenWrites (rwBuffer : List UInt8) (t : RequestType) :
    (handleRequest h rwBuffer t).ReadsThenWrites := by
  have unit {p : DaemonM Unit} (hp : p.ReadsThenWrites) :
      (do p; return rwBuffer : DaemonM (List UInt8)).ReadsThenWrites :=
    hp.bind_right fun _ => trivial
  cases t with
  | statFile => exact unit (handleStatFile_readsThenWrites h)
  | listDirectory => exact unit (handleListDirStats_readsThenWrites h)
  | createDirectory =>
    exact unit (path_call_readsThenWrites h (fun p => .mkdir (cStr p) DEFAULT_DIRECTORY_MODE) _
      fun _ r => noReads_respond r)
  | checkRemoveFile =>
    exact unit (readsThenWrites_of_noReads (onlyReads_readUtf8String h).noWrites fun path =>
      (noReads_canRemoveDirectoryEntry path).bind fun _ => (onlyWrites_writeByte _).noReads)
  | checkRemoveDirectory => exact unit (handleCheckRemoveDirectory_readsThenWrites h)
  | removeFile =>
    exact unit (path_call_readsThenWrites h (fun p => .unlink (cStr p)) _
      fun _ r => noReads_respond r)
  | removeDirectory =>
    exact unit (path_call_readsThenWrites h (fun p => .rmdir (cStr p)) _
      fun _ r => noReads_respond r)
  | moveEntry => exact unit (handleMoveEntry_readsThenWrites h)
  | openHandle => exact unit (handleOpenHandle_readsThenWrites h)
  | closeHandle =>
    exact unit (readsThenWrites_of_noReads (onlyReads_readU32 h).noWrites fun _ =>
      StreamM.noReads_call_bind fun _ => (onlyWrites_writeByte _).noReads)
  | readHandle => exact handleReadFile_readsThenWrites h rwBuffer
  | writeHandle => exact handleWriteFile_readsThenWrites h rwBuffer
  | truncateHandle =>
    exact unit (readsThenWrites_of_noReads (noWrites_readArgs h .truncateHandleArgs) fun _ =>
      StreamM.noReads_call_bind fun r => noReads_respond r)
  | setFileTime =>
    exact unit (readsThenWrites_of_noReads (noWrites_readArgs h .setFileTimeArgs) fun _ =>
      StreamM.noReads_call_bind fun r => noReads_respond r)
  | getDiskStats => exact unit (handleGetDiskStats_readsThenWrites h)

/-- **The daemon reads the whole of a request before it writes any of the answer.** -/
theorem handleMessage_readsThenWrites (rwBuffer : List UInt8) :
    (handleMessage h rwBuffer).ReadsThenWrites := by
  refine Or.inl ⟨trivial, fun r => ?_⟩
  rcases r with _ | bs
  · trivial
  · simp only
    rcases RequestType.ofByte? (bs.headD 0) with _ | t
    · trivial
    · exact (handleRequest_readsThenWrites h rwBuffer t).bind_right fun _ =>
        StreamM.noReads_flush.bind fun _ => trivial

end ClientHandler

end NandroidFS
