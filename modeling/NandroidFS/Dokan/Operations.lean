import NandroidFS.Client.Connection

/-!
# The callbacks of the file system

`operations.cpp`.  Dokan calls back for everything that a program does with the drive.  A callback
makes calls of the methods of `Connection` and decides on their replies, so it is a program whose
actions are `Call`s.

`create_file` makes a `FileContext` for every handle of Windows.  Whether it also opens a file on
the device depends on what it finds: a directory is not opened, and a file is not opened when nobody
wants to read or write it.  The context then has no handle, which is spelt `0xFFFFFFFF`.

What `DokanMapKernelToUserCreateFileFlags` makes of the flags of a request is where `CreateArgs`
begins.
-/

namespace NandroidFS

/-- The codes of `NTSTATUS` that the callbacks return. -/
inductive NtStatus where
  | success
  | unsuccessful
  | notImplemented
  | accessDenied
  | objectNameNotFound
  | objectNameCollision
  | notADirectory
  | directoryNotEmpty
  | fileIsADirectory
  deriving DecidableEq, Repr

def ntstatusFromRespstatus : ResponseStatus → NtStatus
  | .success => .success
  | .fileNotFound => .objectNameNotFound
  | .accessDenied => .accessDenied
  | .fileExists => .objectNameCollision
  | .notADirectory => .notADirectory
  | .directoryNotEmpty => .directoryNotEmpty
  | _ => .unsuccessful

/-- The status that a method returns. -/
def Reply.code : Reply → ResponseStatus
  | .status s => s
  | _ => .success

/-- `file_attributes_from_st_mode(st_mode) & FILE_ATTRIBUTE_DIRECTORY`. -/
def isDirectoryMode (stMode : UInt16) : Bool :=
  stMode &&& 0xF000 == 0x4000

/-- What is to be done when the file exists and when it does not. -/
inductive Disposition where
  | createNew
  | createAlways
  | openExisting
  | openAlways
  | truncateExisting
  | unknown (code : UInt32)
  deriving DecidableEq

/-- The handle of a context that has none, `-1`. -/
def NO_HANDLE : FileHandle := 0xFFFFFFFF

structure FileContext where
  handle : FileHandle
  readAccess : Bool
  writeAccess : Bool
  deriving DecidableEq

/-- The fields of `DOKAN_FILE_INFO` that are used. -/
structure FileInfo where
  isDirectory : Bool
  deleteOnClose : Bool
  context : FileContext
  deriving DecidableEq

/-- The arguments of `create_file`. -/
structure CreateArgs where
  fileName : WString
  genericRead : Bool
  genericWrite : Bool
  /-- `FILE_FLAG_DELETE_ON_CLOSE`. -/
  deleteOnClose : Bool
  disposition : Disposition
  /-- `FILE_NON_DIRECTORY_FILE`. -/
  nonDirectoryFile : Bool
  /-- `file_info->IsDirectory`, as Dokan sets it. -/
  isDirectory : Bool
  deriving DecidableEq

/-- The programs of the callbacks. -/
abbrev OpM := Prog Call (fun _ => Reply) Empty

namespace Operations

def request (c : Call) : OpM Reply :=
  Prog.perform c

/-! ## `create_file` -/

/-- `handle_create_directory`. -/
def handleCreateDirectory (path : WString) (creationDisposition : Disposition)
    (entryExists entryIsDirectory : Bool) : OpM NtStatus :=
  if creationDisposition = .openAlways ∨ creationDisposition = .createNew ∨
      creationDisposition = .createAlways then do
    return ntstatusFromRespstatus (← request (.createDirectory path)).code
  else if entryExists && entryIsDirectory then return .success
  else if !entryExists then return .objectNameNotFound
  else if !entryIsDirectory then return .notADirectory
  else return .unsuccessful

/-- A file cannot be opened for nothing. -/
def FileContext.forOpening (ctx : FileContext) : FileContext :=
  if !ctx.readAccess && !ctx.writeAccess then { ctx with readAccess := true } else ctx

/-- The end of `handle_create_file`: the file is opened on the device. -/
def openOnDevice (path : WString) (creationDisposition : Disposition) (fileExists : Bool)
    (mode : OpenMode) (ctx : FileContext) : OpM (NtStatus × FileContext) := do
  let ctx := FileContext.forOpening ctx
  match ← request (.openFile path mode ctx.readAccess ctx.writeAccess) with
  | .opened handle =>
      if fileExists && (creationDisposition = .openAlways || creationDisposition = .createAlways)
      then return (.objectNameCollision, { ctx with handle := handle })
      else return (.success, { ctx with handle := handle })
  | reply => return (ntstatusFromRespstatus reply.code, ctx)

/-- `handle_create_file`. -/
def handleCreateFile (path : WString) (creationDisposition : Disposition) (fileExists : Bool)
    (ctx : FileContext) : OpM (NtStatus × FileContext) :=
  let openAs := fun mode => openOnDevice path creationDisposition fileExists mode ctx
  match creationDisposition with
  | .createAlways => openAs .createOrTruncate
  | .createNew => openAs .createAlways
  | .openAlways =>
      if !ctx.readAccess && !ctx.writeAccess && fileExists then return (.success, ctx)
      else openAs .createIfNotExist
  | .openExisting =>
      if !ctx.readAccess && !ctx.writeAccess && fileExists then return (.success, ctx)
      else if !fileExists then return (.objectNameNotFound, ctx)
      else openAs .openOnly
  | .truncateExisting => openAs .truncate
  | .unknown _ => return (.unsuccessful, ctx)

/-- `create_file` once the stat has been answered.  Where there is no entry, the code looks at a
stat that was never filled in; what it sees there decides nothing. -/
def createEntry (args : CreateArgs) (info : FileInfo) (entryExists entryIsDirectory : Bool) :
    OpM (NtStatus × FileInfo) :=
  if entryExists && entryIsDirectory && args.nonDirectoryFile then
    return (.fileIsADirectory, info)
  else
    let info := if entryExists && entryIsDirectory then { info with isDirectory := true } else info
    if info.isDirectory then do
      let status ← handleCreateDirectory args.fileName args.disposition entryExists
        entryIsDirectory
      return (status, info)
    else do
      let (status, context) ← handleCreateFile args.fileName args.disposition entryExists
        info.context
      return (status, { info with context := context })

/-- The context before anything has been opened. -/
def CreateArgs.info (args : CreateArgs) : FileInfo where
  isDirectory := args.isDirectory
  deleteOnClose := args.deleteOnClose
  context := ⟨NO_HANDLE, args.genericRead, args.genericWrite⟩

/-- `create_file`. -/
def createFile (args : CreateArgs) : OpM (NtStatus × FileInfo) := do
  match ← request (.statFile args.fileName) with
  | .stat stat => createEntry args (CreateArgs.info args) true (isDirectoryMode stat.mode)
  | reply =>
      if reply.code = .fileNotFound then createEntry args (CreateArgs.info args) false false
      else return (ntstatusFromRespstatus reply.code, CreateArgs.info args)

/-! ## The callbacks on a context -/

/-- What a callback hands back beside its status. -/
inductive Output where
  | none
  | read (data : List UInt8)
  | written (count : UInt32)
  | information (stat : FileStat)
  | found (entries : List (ByteString × FileStat))
  | space (stats : DiskStats)

def cleanUp (fileName : WString) (info : FileInfo) : OpM Unit :=
  if info.deleteOnClose then
    if info.isDirectory then do
      let _ ← request (.removeDirectory fileName)
      return ()
    else do
      let _ ← request (.removeFile fileName)
      return ()
  else return ()

def closeFile (info : FileInfo) : OpM Unit :=
  if info.context.handle ≠ NO_HANDLE then do
    let _ ← request (.closeFile info.context.handle)
    return ()
  else return ()

def readFile (bufferLen : UInt32) (offset : UInt64) (info : FileInfo) : OpM (NtStatus × Output) :=
  if !info.context.readAccess || info.context.handle == NO_HANDLE then return (.accessDenied, .none)
  else do
    match ← request (.readFromFile info.context.handle offset bufferLen) with
    | .data bytes => return (.success, .read bytes)
    | reply => return (ntstatusFromRespstatus reply.code, .none)

def writeFile (data : Payload) (offset : UInt64) (info : FileInfo) : OpM (NtStatus × Output) :=
  if !info.context.writeAccess || info.context.handle == NO_HANDLE then
    return (.accessDenied, .none)
  else do
    let reply ← request (.writeToFile info.context.handle offset data)
    if reply.code = .success then return (.success, .written data.dataLen)
    else return (ntstatusFromRespstatus reply.code, .none)

/-- The one callback on a handle that does not look whether there is one. -/
def setEndOfFile (byteOffset : UInt64) (info : FileInfo) : OpM NtStatus :=
  if info.context.writeAccess then do
    return ntstatusFromRespstatus (← request (.setFileLen info.context.handle byteOffset)).code
  else return .accessDenied

def setAllocationSize (byteOffset : UInt64) (info : FileInfo) : OpM NtStatus :=
  setEndOfFile byteOffset info

/-! ## The callbacks on a path -/

def getFileInformation (fileName : WString) (info : FileInfo) :
    OpM (NtStatus × Output × FileInfo) := do
  match ← request (.statFile fileName) with
  | .stat stat =>
      if isDirectoryMode stat.mode then
        return (.success, .information stat, { info with isDirectory := true })
      else return (.success, .information stat, info)
  | reply => return (ntstatusFromRespstatus reply.code, .none, info)

def findFiles (fileName : WString) : OpM (NtStatus × Output) := do
  match ← request (.listFileStats fileName) with
  | .listing entries => return (.success, .found entries)
  | reply => return (ntstatusFromRespstatus reply.code, .none)

/-- `FILE_ATTRIBUTE_DIRECTORY`. -/
def FILE_ATTRIBUTE_DIRECTORY : UInt32 := 0x10

/-- `FILE_ATTRIBUTE_NORMAL`. -/
def FILE_ATTRIBUTE_NORMAL : UInt32 := 0x80

def setFileAttributes (fileName : WString) (fileAttributes : UInt32) : OpM NtStatus := do
  match ← request (.statFile fileName) with
  | .stat stat =>
      let entryIsDir := isDirectoryMode stat.mode
      if fileAttributes = 0 ∨ fileAttributes = FILE_ATTRIBUTE_NORMAL then
        return if entryIsDir then .unsuccessful else .success
      else if fileAttributes = FILE_ATTRIBUTE_DIRECTORY then
        return if entryIsDir then .success else .unsuccessful
      else return .unsuccessful
  | reply => return ntstatusFromRespstatus reply.code

/-- The times are what `signed_time_from_ptr` has made of those of Windows. -/
def setFileTime (fileName : WString) (lastAccessTime lastWriteTime : UInt64) : OpM NtStatus := do
  return ntstatusFromRespstatus
    (← request (.setFileTime fileName lastAccessTime lastWriteTime)).code

def deleteFile (fileName : WString) : OpM NtStatus := do
  return ntstatusFromRespstatus (← request (.canRemoveFile fileName)).code

def deleteDirectory (fileName : WString) : OpM NtStatus := do
  return ntstatusFromRespstatus (← request (.canRemoveDirectory fileName)).code

def moveFile (fileName newFileName : WString) (replaceIfExisting : Bool) : OpM NtStatus := do
  return ntstatusFromRespstatus (← request (.moveEntry fileName newFileName replaceIfExisting)).code

def getDiskFreeSpace : OpM (NtStatus × Output) := do
  match ← request .getDiskStats with
  | .disk stats => return (.success, .space stats)
  | reply => return (ntstatusFromRespstatus reply.code, .none)

end Operations

end NandroidFS
