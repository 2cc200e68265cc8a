import NandroidFS.Protocol.Requests
import NandroidFS.Client.Conversion

/-!
# The client's side of a request

The `req_*` methods of `Connection.cpp`.  A method is a program that talks to the daemon through
the stream and to the rest of its process by calls: look-ups, stores and removals in the two
caches, one call for each section of code that holds the mutex of a cache, and the callback
`consume_stat`.

All methods take `request_mutex` and keep it until they return or throw.  Only `req_stat_file` and
`req_list_file_stats` do something before.  `Call.unlocked` is that part, `Call.locked` is what a
method does under the mutex, and `Call.program` is the whole of it.

The loop over the entries of a listing ends when the daemon says so; `rounds` bounds it.
-/

namespace NandroidFS

/-- What a method does in its own process. -/
inductive ConnAct where
  /-- `stat_cache.get_cached`. -/
  | getStat (path : ByteString)
  /-- The first, shared section of `stat_cache.invalidate`. -/
  | hasStat (path : ByteString)
  /-- The second, exclusive section of `stat_cache.invalidate`. -/
  | eraseStat (path : ByteString)
  /-- `stat_cache.cache`. -/
  | putStat (path : ByteString) (stat : FileStat)
  | getList (path : ByteString)
  | hasList (path : ByteString)
  | eraseList (path : ByteString)
  | putList (path : ByteString) (names : List ByteString)
  /-- The `lock_guard` on `request_mutex`. -/
  | lock
  | consumeStat (stat : FileStat) (fileName : WString)
  deriving DecidableEq

@[reducible] def ConnAct.Res : ConnAct → Type
  | .getStat _ => Option FileStat
  | .hasStat _ => Bool
  | .eraseStat _ => Unit
  | .putStat _ _ => Unit
  | .getList _ => Option (List ByteString)
  | .hasList _ => Bool
  | .eraseList _ => Unit
  | .putList _ _ => Unit
  | .lock => Unit
  | .consumeStat _ _ => Unit

/-- Caches that are always empty. -/
def uncached : (e : ConnAct) → Unit → e.Res × Unit := fun e w =>
  (match e with
    | .getStat _ => none
    | .hasStat _ => false
    | .eraseStat _ => ()
    | .putStat _ _ => ()
    | .getList _ => none
    | .hasList _ => false
    | .eraseList _ => ()
    | .putList _ _ => ()
    | .lock => ()
    | .consumeStat _ _ => (), w)

/-- The programs of the client. -/
abbrev ConnM := StreamM ConnAct ConnAct.Res Exn

/-- `desktop.ini`. -/
def desktopIni : ByteString := [100, 101, 115, 107, 116, 111, 112, 46, 105, 110, 105]

namespace Connection

/-- One call. -/
def conn (e : ConnAct) : ConnM e.Res :=
  StreamM.call e

/-- `(ResponseStatus) reader.read_byte()`. -/
def readStatus : ConnM ResponseStatus := do
  return ResponseStatus.ofByte (← readByte)

def endsWithDesktopIni (path : ByteString) : Bool :=
  desktopIni.isSuffixOf path

/-- `stat_cache.invalidate`. -/
def invalidateStat (path : ByteString) : ConnM Unit := do
  if ← conn (.hasStat path) then conn (.eraseStat path)

/-- `dir_list_cache.invalidate`. -/
def invalidateList (path : ByteString) : ConnM Unit := do
  if ← conn (.hasList path) then conn (.eraseList path)

def invalidateParentDir (path : ByteString) : ConnM Unit :=
  match getParentPath path with
  | none => return ()
  | some parent => invalidateList parent

variable (h : Host)

/-- Send a request and read the status that answers it. -/
def exchangeStatus (q : Request) : ConnM Reply := do
  q.write h
  StreamM.flush
  return .status (← readStatus)

/-- The first look-up of `req_stat_file`. -/
def reqStatFileUnlocked (unixPath : ByteString) : ConnM (Option Reply) := do
  return (← conn (.getStat unixPath)).map .stat

/-- The answer to a stat, which is cached. -/
def receiveStat (unixPath : ByteString) : ConnM Reply := do
  let status ← readStatus
  if status ≠ .success then return .status status
  else
    let stat ← FileStat.read h
    conn (.putStat unixPath stat)
    return .stat stat

/-- `req_stat_file` once the mutex is held: it looks again before it asks. -/
def reqStatFile (unixPath : ByteString) : ConnM Reply := do
  match ← conn (.getStat unixPath) with
  | some stat => return .stat stat
  | none =>
      if endsWithDesktopIni unixPath then return .status .fileNotFound
      else
        (Request.statFile unixPath).write h
        StreamM.flush
        receiveStat h unixPath

/-- The loop of `try_use_cached_dir_listing`: an entry whose stat is not cached is skipped. -/
def cachedEntries (unixDirPath : ByteString) :
    List ByteString → ConnM (List (ByteString × FileStat))
  | [] => return []
  | name :: names => do
      match ← conn (.getStat (getFullPath unixDirPath name)) with
      | none => cachedEntries unixDirPath names
      | some stat =>
          match unixPathToWin32 name with
          | none => .fail .badConversion
          | some fileName =>
              conn (.consumeStat stat fileName)
              return (name, stat) :: (← cachedEntries unixDirPath names)

/-- `none` when there is no cached listing. -/
def tryUseCachedDirListing (unixDirPath : ByteString) : ConnM (Option Reply) := do
  match ← conn (.getList unixDirPath) with
  | none => return none
  | some cachedDir => return some (.listing (← cachedEntries unixDirPath cachedDir))

/-- The loop of `req_list_file_stats`: an entry is cached and handed on as soon as it is read. -/
def readEntries (unixDirPath : ByteString) : (rounds : ℕ) → ConnM (List (ByteString × FileStat))
  | 0 => .fail .outOfRounds
  | rounds + 1 => do
      let entryStatus ← readStatus
      if entryStatus = .noMoreEntries then return []
      else if entryStatus = .success then
        let name ← readUtf8String h
        let entryStat ← FileStat.read h
        conn (.putStat (getFullPath unixDirPath name) entryStat)
        match unixPathToWin32 name with
        | none => .fail .badConversion
        | some fileName =>
            conn (.consumeStat entryStat fileName)
            return (name, entryStat) :: (← readEntries unixDirPath rounds)
      else readEntries unixDirPath rounds

/-- The answer to a listing.  The names are cached once all of them have been read. -/
def receiveListing (rounds : ℕ) (unixDirPath : ByteString) : ConnM Reply := do
  let status ← readStatus
  if status ≠ .success then return .status status
  else
    let entries ← readEntries h unixDirPath rounds
    conn (.putList unixDirPath (entries.map Prod.fst))
    return .listing entries

/-- `req_list_file_stats` once the mutex is held: the cache is not looked at again. -/
def reqListFileStats (rounds : ℕ) (unixDirPath : ByteString) : ConnM Reply := do
  (Request.listDirectory unixDirPath).write h
  StreamM.flush
  receiveListing h rounds unixDirPath

def reqMoveEntry (unixFromPath unixToPath : ByteString) (replaceIfExists : Bool) :
    ConnM Reply := do
  invalidateStat unixFromPath
  invalidateParentDir unixFromPath
  invalidateStat unixToPath
  invalidateParentDir unixToPath
  exchangeStatus h (.moveEntry ⟨unixFromPath, unixToPath, replaceIfExists⟩)

def reqRemoveFile (unixPath : ByteString) : ConnM Reply := do
  invalidateStat unixPath
  invalidateParentDir unixPath
  exchangeStatus h (.removeFile unixPath)

def reqCanRemoveFile (unixPath : ByteString) : ConnM Reply :=
  exchangeStatus h (.checkRemoveFile unixPath)

def reqRemoveDirectory (unixPath : ByteString) : ConnM Reply := do
  invalidateStat unixPath
  invalidateParentDir unixPath
  exchangeStatus h (.removeDirectory unixPath)

def reqCanRemoveDirectory (unixPath : ByteString) : ConnM Reply :=
  exchangeStatus h (.checkRemoveDirectory unixPath)

def reqCreateDirectory (unixPath : ByteString) : ConnM Reply := do
  invalidateStat unixPath
  invalidateParentDir unixPath
  exchangeStatus h (.createDirectory unixPath)

/-- The status of an open and, if it succeeded, the handle. -/
def receiveHandle : ConnM Reply := do
  let status ← readStatus
  if status = .success then return .opened (← readU32 h)
  else return .status status

/-- The listing of the parent is invalidated after the reply, whatever it is. -/
def reqOpenFile (unixPath : ByteString) (mode : OpenMode) (readAccess writeAccess : Bool) :
    ConnM Reply := do
  if endsWithDesktopIni unixPath then return .status .genericFailure
  else
    (Request.openHandle ⟨unixPath, mode, readAccess, writeAccess⟩).write h
    StreamM.flush
    let reply ← receiveHandle h
    if mode.Creates then
      invalidateParentDir unixPath
      return reply
    else return reply

def reqCloseFile (fileHandle : FileHandle) : ConnM Reply :=
  exchangeStatus h (.closeHandle fileHandle)

def reqWriteToFile (fileHandle : FileHandle) (fileOffset : UInt64) (data : Payload) :
    ConnM Reply :=
  exchangeStatus h (.writeHandle fileHandle fileOffset data)

/-- The answer to a read: the length as an `int`, then as many bytes. -/
def receiveData : ConnM Reply := do
  let status ← readStatus
  if status = .success then
    let bytesRead ← readU32 h
    return .data (← StreamM.readExact Exn.eof (intLength bytesRead))
  else return .status status

def reqReadFromFile (fileHandle : FileHandle) (fileOffset : UInt64) (bufferLen : UInt32) :
    ConnM Reply := do
  (Request.readHandle ⟨fileHandle, bufferLen, fileOffset⟩).write h
  StreamM.flush
  receiveData h

def reqSetFileLen (fileHandle : FileHandle) (fileLen : UInt64) : ConnM Reply :=
  exchangeStatus h (.truncateHandle ⟨fileHandle, fileLen⟩)

/-- The times are passed on as signed numbers. -/
def reqSetFileTime (unixPath : ByteString) (accessTime writeTime : UInt64) : ConnM Reply := do
  invalidateStat unixPath
  exchangeStatus h (.setFileTime ⟨unixPath, accessTime.toInt64, writeTime.toInt64⟩)

def receiveDiskStats : ConnM Reply := do
  let status ← readStatus
  if status = .success then return .disk (← DiskStats.read h)
  else return .status status

def reqGetDiskStats : ConnM Reply := do
  Request.getDiskStats.write h
  StreamM.flush
  receiveDiskStats h

end Connection

/-! ## Calls -/

/-- A call of a method, with its arguments as the caller passes them. -/
inductive Call where
  | statFile (path : WString)
  | listFileStats (path : WString)
  | moveEntry (fromPath toPath : WString) (replaceIfExists : Bool)
  | removeFile (path : WString)
  | canRemoveFile (path : WString)
  | removeDirectory (path : WString)
  | canRemoveDirectory (path : WString)
  | createDirectory (path : WString)
  | openFile (path : WString) (mode : OpenMode) (readAccess writeAccess : Bool)
  | closeFile (fileHandle : FileHandle)
  | writeToFile (fileHandle : FileHandle) (fileOffset : UInt64) (data : Payload)
  | readFromFile (fileHandle : FileHandle) (fileOffset : UInt64) (bufferLen : UInt32)
  | setFileLen (fileHandle : FileHandle) (fileLen : UInt64)
  | setFileTime (path : WString) (accessTime writeTime : UInt64)
  | getDiskStats
  deriving DecidableEq

namespace Call

open Connection

/-- The request of a call, which it sends unless it can answer by itself. -/
def request : Call → Request
  | .statFile path => .statFile (win32PathToUnix path)
  | .listFileStats path => .listDirectory (win32PathToUnix path)
  | .moveEntry fromPath toPath replaceIfExists =>
      .moveEntry ⟨win32PathToUnix fromPath, win32PathToUnix toPath, replaceIfExists⟩
  | .removeFile path => .removeFile (win32PathToUnix path)
  | .canRemoveFile path => .checkRemoveFile (win32PathToUnix path)
  | .removeDirectory path => .removeDirectory (win32PathToUnix path)
  | .canRemoveDirectory path => .checkRemoveDirectory (win32PathToUnix path)
  | .createDirectory path => .createDirectory (win32PathToUnix path)
  | .openFile path mode readAccess writeAccess =>
      .openHandle ⟨win32PathToUnix path, mode, readAccess, writeAccess⟩
  | .closeFile fileHandle => .closeHandle fileHandle
  | .writeToFile fileHandle fileOffset data => .writeHandle fileHandle fileOffset data
  | .readFromFile fileHandle fileOffset bufferLen =>
      .readHandle ⟨fileHandle, bufferLen, fileOffset⟩
  | .setFileLen fileHandle fileLen => .truncateHandle ⟨fileHandle, fileLen⟩
  | .setFileTime path accessTime writeTime =>
      .setFileTime ⟨win32PathToUnix path, accessTime.toInt64, writeTime.toInt64⟩
  | .getDiskStats => .getDiskStats

/-- What a method does before it takes the mutex; `some` when that already answers the call. -/
def unlocked : Call → ConnM (Option Reply)
  | .statFile path => reqStatFileUnlocked (win32PathToUnix path)
  | .listFileStats path => tryUseCachedDirListing (win32PathToUnix path)
  | _ => return none

/-- What a method does while it holds the mutex. -/
def locked (h : Host) (rounds : ℕ) : Call → ConnM Reply
  | .statFile path => reqStatFile h (win32PathToUnix path)
  | .listFileStats path => reqListFileStats h rounds (win32PathToUnix path)
  | .moveEntry fromPath toPath replaceIfExists =>
      reqMoveEntry h (win32PathToUnix fromPath) (win32PathToUnix toPath) replaceIfExists
  | .removeFile path => reqRemoveFile h (win32PathToUnix path)
  | .canRemoveFile path => reqCanRemoveFile h (win32PathToUnix path)
  | .removeDirectory path => reqRemoveDirectory h (win32PathToUnix path)
  | .canRemoveDirectory path => reqCanRemoveDirectory h (win32PathToUnix path)
  | .createDirectory path => reqCreateDirectory h (win32PathToUnix path)
  | .openFile path mode readAccess writeAccess =>
      reqOpenFile h (win32PathToUnix path) mode readAccess writeAccess
  | .closeFile fileHandle => reqCloseFile h fileHandle
  | .writeToFile fileHandle fileOffset data => reqWriteToFile h fileHandle fileOffset data
  | .readFromFile fileHandle fileOffset bufferLen =>
      reqReadFromFile h fileHandle fileOffset bufferLen
  | .setFileLen fileHandle fileLen => reqSetFileLen h fileHandle fileLen
  | .setFileTime path accessTime writeTime =>
      reqSetFileTime h (win32PathToUnix path) accessTime writeTime
  | .getDiskStats => reqGetDiskStats h

/-- **The whole method.**  The mutex is released by returning or throwing. -/
def program (h : Host) (rounds : ℕ) (c : Call) : ConnM Reply := do
  match ← c.unlocked with
  | some reply => return reply
  | none =>
      conn .lock
      c.locked h rounds

end Call

end NandroidFS
