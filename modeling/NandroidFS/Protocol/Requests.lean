import NandroidFS.Daemon.Syscall

/-!
# Requests and responses

What the two sides say to each other, as values.  A `Request` is what one of the client's methods
puts on the wire, a `Response` is what a handler of the daemon puts on the wire for it, and a
`Reply` is what the client's method gets to know.  `bytes` is the wire format of both.

The protocol has neither lengths nor ids: where a response ends is known from the request alone.
`Response.Answers` says which responses fit which request.
-/

namespace NandroidFS

/-- The data of a write.  Its length is passed as `uint32_t`. -/
abbrev Payload := { data : List UInt8 // data.length < 2 ^ 32 }

namespace Payload

def dataLen (p : Payload) : UInt32 :=
  UInt32.ofNat p.1.length

@[simp] theorem toNat_dataLen (p : Payload) : p.dataLen.toNat = p.1.length := by
  rw [dataLen, UInt32.toNat_ofNat']
  exact Nat.mod_eq_of_lt p.2

end Payload

/-- The requests of the protocol. -/
inductive Request where
  | statFile (path : ByteString)
  | listDirectory (path : ByteString)
  | createDirectory (path : ByteString)
  | checkRemoveFile (path : ByteString)
  | checkRemoveDirectory (path : ByteString)
  | removeFile (path : ByteString)
  | removeDirectory (path : ByteString)
  | moveEntry (args : MoveEntryArgs)
  | openHandle (args : OpenHandleArgs)
  | closeHandle (handle : FileHandle)
  | readHandle (args : ReadHandleArgs)
  | writeHandle (handle : FileHandle) (offset : UInt64) (data : Payload)
  | truncateHandle (args : TruncateHandleArgs)
  | setFileTime (args : SetFileTimeArgs)
  | getDiskStats
  deriving DecidableEq

namespace Request

def type : Request → RequestType
  | .statFile _ => .statFile
  | .listDirectory _ => .listDirectory
  | .createDirectory _ => .createDirectory
  | .checkRemoveFile _ => .checkRemoveFile
  | .checkRemoveDirectory _ => .checkRemoveDirectory
  | .removeFile _ => .removeFile
  | .removeDirectory _ => .removeDirectory
  | .moveEntry _ => .moveEntry
  | .openHandle _ => .openHandle
  | .closeHandle _ => .closeHandle
  | .readHandle _ => .readHandle
  | .writeHandle _ _ _ => .writeHandle
  | .truncateHandle _ => .truncateHandle
  | .setFileTime _ => .setFileTime
  | .getDiskStats => .getDiskStats

/-- The header of a write. -/
def writeArgs (handle : FileHandle) (offset : UInt64) (data : Payload) : WriteHandleInitArgs :=
  { handle, offset, dataLen := data.dataLen }

/-- What follows the type byte. -/
def argBytes : Request → List UInt8
  | .statFile path => stringBytes path
  | .listDirectory path => stringBytes path
  | .createDirectory path => stringBytes path
  | .checkRemoveFile path => stringBytes path
  | .checkRemoveDirectory path => stringBytes path
  | .removeFile path => stringBytes path
  | .removeDirectory path => stringBytes path
  | .moveEntry args => args.bytes
  | .openHandle args => args.bytes
  | .closeHandle handle => u32Bytes handle
  | .readHandle args => args.bytes
  | .writeHandle handle offset data =>
      (writeArgs handle offset data).bytes ++ data.1.take (intLength data.dataLen)
  | .truncateHandle args => args.bytes
  | .setFileTime args => args.bytes
  | .getDiskStats => []

/-- The wire format of a request. -/
def bytes (q : Request) : List UInt8 :=
  q.type.toByte :: q.argBytes

/-- The strings of a request, in the order in which they are written. -/
def strings : Request → List ByteString
  | .statFile path => [path]
  | .listDirectory path => [path]
  | .createDirectory path => [path]
  | .checkRemoveFile path => [path]
  | .checkRemoveDirectory path => [path]
  | .removeFile path => [path]
  | .removeDirectory path => [path]
  | .moveEntry args => [args.fromPath, args.toPath]
  | .openHandle args => [args.path]
  | .setFileTime args => [args.path]
  | _ => []

/-- The paths of the request can be written. -/
def Fits (q : Request) : Prop :=
  ∀ s ∈ q.strings, NandroidFS.Fits s

instance (q : Request) : Decidable q.Fits := inferInstanceAs (Decidable (∀ _ ∈ _, _))

/-- The lengths of the request are below `2 ^ 31`. -/
def Sized : Request → Prop
  | .readHandle args => args.dataLen.toNat < 2 ^ 31
  | .writeHandle _ _ data => data.1.length < 2 ^ 31
  | _ => True

/-- The request is a write. -/
def IsWrite : Request → Prop
  | .writeHandle _ _ _ => True
  | _ => False

section Write

variable {E : Type} {R : E → Type} (h : Host)

/-- What the client's methods write after the type byte. -/
def writeRest : Request → StreamM E R Exn Unit
  | .statFile path => writeUtf8String h path
  | .listDirectory path => writeUtf8String h path
  | .createDirectory path => writeUtf8String h path
  | .checkRemoveFile path => writeUtf8String h path
  | .checkRemoveDirectory path => writeUtf8String h path
  | .removeFile path => writeUtf8String h path
  | .removeDirectory path => writeUtf8String h path
  | .moveEntry args => args.write h
  | .openHandle args => args.write h
  | .closeHandle handle => writeU32 h handle
  | .readHandle args => args.write h
  | .writeHandle handle offset data => do
      (writeArgs handle offset data).write h
      StreamM.writeExact (data.1.take (intLength data.dataLen))
  | .truncateHandle args => args.write h
  | .setFileTime args => args.write h
  | .getDiskStats => return ()

/-- The serialisation of a request: the type byte, then the arguments. -/
def write (q : Request) : StreamM E R Exn Unit := do
  writeByte q.type.toByte
  q.writeRest h

theorem writes {q : Request} (hq : q.Fits) :
    (q.write h : StreamM E R Exn Unit).Writes q.bytes () := by
  have key : ∀ {bs : List UInt8} {p : StreamM E R Exn Unit}, p.Writes bs () →
      (do writeByte q.type.toByte; p : StreamM E R Exn Unit).Writes (q.type.toByte :: bs) () :=
    fun hp => (writes_byte _).bind hp
  cases q with
  | statFile path => exact key (writes_string h (hq _ (List.mem_singleton_self _)))
  | listDirectory path => exact key (writes_string h (hq _ (List.mem_singleton_self _)))
  | createDirectory path => exact key (writes_string h (hq _ (List.mem_singleton_self _)))
  | checkRemoveFile path => exact key (writes_string h (hq _ (List.mem_singleton_self _)))
  | checkRemoveDirectory path => exact key (writes_string h (hq _ (List.mem_singleton_self _)))
  | removeFile path => exact key (writes_string h (hq _ (List.mem_singleton_self _)))
  | removeDirectory path => exact key (writes_string h (hq _ (List.mem_singleton_self _)))
  | moveEntry args =>
    exact key (MoveEntryArgs.writes h (hq _ (by simp [strings])) (hq _ (by simp [strings])))
  | openHandle args => exact key (OpenHandleArgs.writes h (hq _ (List.mem_singleton_self _)))
  | closeHandle handle => exact key (writes_u32 h _)
  | readHandle args => exact key (ReadHandleArgs.writes h args)
  | writeHandle handle offset data =>
    exact key ((WriteHandleInitArgs.writes h _).bind (StreamM.writes_writeExact _))
  | truncateHandle args => exact key (TruncateHandleArgs.writes h args)
  | setFileTime args => exact key (SetFileTimeArgs.writes h (hq _ (List.mem_singleton_self _)))
  | getDiskStats => exact writes_byte _

theorem onlyWrites_write (q : Request) : (q.write h : StreamM E R Exn Unit).OnlyWrites := by
  refine (onlyWrites_writeByte _).bind fun _ => ?_
  cases q with
  | moveEntry args => exact MessageType.moveEntryArgs.onlyWrites_write h args
  | openHandle args => exact MessageType.openHandleArgs.onlyWrites_write h args
  | closeHandle handle => exact onlyWrites_writeU32 h _
  | readHandle args => exact MessageType.readHandleArgs.onlyWrites_write h args
  | writeHandle handle offset data =>
    exact (MessageType.writeHandleInitArgs.onlyWrites_write h _).bind fun _ =>
      StreamM.onlyWrites_writeExact _
  | truncateHandle args => exact MessageType.truncateHandleArgs.onlyWrites_write h args
  | setFileTime args => exact MessageType.setFileTimeArgs.onlyWrites_write h args
  | getDiskStats => trivial
  | _ => exact onlyWrites_writeUtf8String h _

end Write

end Request

/-! ## Responses -/

/-- One item of a listing: the status of an entry that could not be inspected, or the name and the
stat of an entry.  A status here is never mistaken for one of the two that have a meaning of their
own. -/
inductive ListItem where
  | skipped (status : ResponseStatus) (h : status ≠ .success ∧ status ≠ .noMoreEntries)
  | entry (name : EntryName) (stat : FileStat)
  deriving DecidableEq

def ListItem.bytes : ListItem → List UInt8
  | .skipped status _ => [status.toByte]
  | .entry name stat => ResponseStatus.success.toByte :: (stringBytes name.1 ++ stat.bytes)

/-- What a handler sends. -/
inductive Response where
  | status (status : ResponseStatus)
  | stat (stat : FileStat)
  | listing (items : List ListItem)
  | opened (handle : FileHandle)
  | data (bytes : List UInt8)
  | disk (stats : DiskStats)
  deriving DecidableEq

/-- What a method of the client obtains. -/
inductive Reply where
  | status (status : ResponseStatus)
  | stat (stat : FileStat)
  | listing (entries : List (ByteString × FileStat))
  | opened (handle : FileHandle)
  | data (bytes : List UInt8)
  | disk (stats : DiskStats)
  deriving DecidableEq

/-- The name and the stat of an item that has them. -/
def ListItem.entry? : ListItem → Option (ByteString × FileStat)
  | .skipped _ _ => none
  | .entry name stat => some (name.1, stat)

namespace Response

/-- The payload of a response, after its status. -/
def payload : Response → List UInt8
  | .status _ => []
  | .stat st => st.bytes
  | .listing items => items.flatMap ListItem.bytes ++ [ResponseStatus.noMoreEntries.toByte]
  | .opened fd => u32Bytes fd
  | .data bs =>
      u32Bytes (UInt32.ofNat bs.length) ++ bs.take (intLength (UInt32.ofNat bs.length))
  | .disk stats => stats.bytes

/-- The status a response starts with. -/
def code : Response → ResponseStatus
  | .status s => s
  | _ => .success

/-- The wire format of a response. -/
def bytes (r : Response) : List UInt8 :=
  r.code.toByte :: r.payload

theorem bytes_ne_nil (r : Response) : r.bytes ≠ [] := List.cons_ne_nil _ _

/-- What the client's method obtains: entries that the daemon could not inspect are passed over. -/
def reply : Response → Reply
  | .status s => .status s
  | .stat st => .stat st
  | .listing items => .listing (items.filterMap ListItem.entry?)
  | .opened fd => .opened fd
  | .data bs => .data bs
  | .disk stats => .disk stats

/-- The response is one for the given request: its kind is the one the client expects, and without
a payload where one is expected it is not a success. -/
def Answers : Request → Response → Prop
  | .statFile _, .stat _ => True
  | .listDirectory _, .listing _ => True
  | .openHandle _, .opened _ => True
  | .readHandle args, .data bs => bs.length ≤ args.dataLen.toNat
  | .getDiskStats, .disk _ => True
  | .statFile _, .status s => s ≠ .success
  | .listDirectory _, .status s => s ≠ .success
  | .openHandle _, .status s => s ≠ .success
  | .readHandle _, .status s => s ≠ .success
  | .getDiskStats, .status s => s ≠ .success
  | _, .status _ => True
  | _, _ => False

end Response

end NandroidFS
