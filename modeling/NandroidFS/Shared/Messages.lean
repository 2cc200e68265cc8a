import NandroidFS.Shared.Primitives

/-!
# The messages of the protocol

The argument records of `requests.hpp` and the payload records of `responses.hpp`, each with the
`write` method and the reading constructor that the source gives it.  Every record also has its
`bytes`, the string that `write` emits; `writes` and `reads` say that encoder and decoder are about
that same string, whatever hosts run them.

* `RequestType`, `OpenMode`, `ResponseStatus`: the enumerations, with their numbers.  The decoders
  cast any byte to an enumeration, so the last two have a constructor for bytes without a name.
* `MessageType`: the eight record types in one family, for statements about all of them.
-/

namespace NandroidFS

/-! ## Enumerations -/

/-- `RequestType`, in the order of its declaration. -/
inductive RequestType where
  | statFile
  | listDirectory
  | createDirectory
  | checkRemoveFile
  | checkRemoveDirectory
  | removeFile
  | removeDirectory
  | moveEntry
  | openHandle
  | closeHandle
  | readHandle
  | writeHandle
  | truncateHandle
  | setFileTime
  | getDiskStats
  deriving DecidableEq, Repr

namespace RequestType

def toByte : RequestType → UInt8
  | .statFile => 0
  | .listDirectory => 1
  | .createDirectory => 2
  | .checkRemoveFile => 3
  | .checkRemoveDirectory => 4
  | .removeFile => 5
  | .removeDirectory => 6
  | .moveEntry => 7
  | .openHandle => 8
  | .closeHandle => 9
  | .readHandle => 10
  | .writeHandle => 11
  | .truncateHandle => 12
  | .setFileTime => 13
  | .getDiskStats => 14

/-- The request type with the given number, if there is one. -/
def ofByte? (b : UInt8) : Option RequestType :=
  match b.toNat with
  | 0 => some .statFile
  | 1 => some .listDirectory
  | 2 => some .createDirectory
  | 3 => some .checkRemoveFile
  | 4 => some .checkRemoveDirectory
  | 5 => some .removeFile
  | 6 => some .removeDirectory
  | 7 => some .moveEntry
  | 8 => some .openHandle
  | 9 => some .closeHandle
  | 10 => some .readHandle
  | 11 => some .writeHandle
  | 12 => some .truncateHandle
  | 13 => some .setFileTime
  | 14 => some .getDiskStats
  | _ => none

@[simp] theorem ofByte?_toByte (t : RequestType) : ofByte? t.toByte = some t := by
  cases t <;> rfl

/-- The bytes that are no request type are those above `GetDiskStats`. -/
theorem ofByte?_eq_none_iff (b : UInt8) : ofByte? b = none ↔ getDiskStats.toByte < b := by
  rw [UInt8.lt_iff_toNat_lt]
  show _ ↔ 14 < b.toNat
  rw [ofByte?]
  split <;> simp_all
  omega

end RequestType

/-- `OpenMode`.  The decoder casts the low six bits of a byte, so five named modes are not all. -/
inductive OpenMode where
  | openOnly
  | createIfNotExist
  | truncate
  | createOrTruncate
  | createAlways
  | unnamed (b : UInt8) (h : 5 ≤ b ∧ b < 64)
  deriving DecidableEq, Repr

namespace OpenMode

def toByte : OpenMode → UInt8
  | .openOnly => 0
  | .createIfNotExist => 1
  | .truncate => 2
  | .createOrTruncate => 3
  | .createAlways => 4
  | .unnamed b _ => b

/-- The cast of a six-bit value. -/
def ofBits (b : UInt8) (h : b < 64) : OpenMode :=
  if h5 : 5 ≤ b then .unnamed b ⟨h5, h⟩
  else match b.toNat with
    | 0 => .openOnly
    | 1 => .createIfNotExist
    | 2 => .truncate
    | 3 => .createOrTruncate
    | _ => .createAlways

theorem toByte_lt (m : OpenMode) : m.toByte < 64 := by
  cases m with
  | unnamed b h => exact h.2
  | _ => decide

@[simp] theorem ofBits_toByte (m : OpenMode) (h : m.toByte < 64) : ofBits m.toByte h = m := by
  cases m with
  | unnamed b hb => exact dif_pos hb.1
  | _ => rfl

/-- The modes that may bring a new file into being. -/
def Creates (m : OpenMode) : Prop :=
  m = .createAlways ∨ m = .createIfNotExist ∨ m = .createOrTruncate

instance (m : OpenMode) : Decidable m.Creates := inferInstanceAs (Decidable (_ ∨ _))

/-- The modes that empty an existing file. -/
def Truncates (m : OpenMode) : Prop :=
  m = .truncate ∨ m = .createOrTruncate

instance (m : OpenMode) : Decidable m.Truncates := inferInstanceAs (Decidable (_ ∨ _))

end OpenMode

/-- `ResponseStatus`.  The client casts whatever byte it reads. -/
inductive ResponseStatus where
  | success
  | genericFailure
  | accessDenied
  | notADirectory
  | notAFile
  | fileNotFound
  | fileExists
  | directoryNotEmpty
  | noMoreEntries
  | unnamed (b : UInt8) (h : 9 ≤ b)
  deriving DecidableEq, Repr

namespace ResponseStatus

def toByte : ResponseStatus → UInt8
  | .success => 0
  | .genericFailure => 1
  | .accessDenied => 2
  | .notADirectory => 3
  | .notAFile => 4
  | .fileNotFound => 5
  | .fileExists => 6
  | .directoryNotEmpty => 7
  | .noMoreEntries => 8
  | .unnamed b _ => b

/-- The cast of a byte. -/
def ofByte (b : UInt8) : ResponseStatus :=
  if h : 9 ≤ b then .unnamed b h
  else match b.toNat with
    | 0 => .success
    | 1 => .genericFailure
    | 2 => .accessDenied
    | 3 => .notADirectory
    | 4 => .notAFile
    | 5 => .fileNotFound
    | 6 => .fileExists
    | 7 => .directoryNotEmpty
    | _ => .noMoreEntries

@[simp] theorem ofByte_toByte (s : ResponseStatus) : ofByte s.toByte = s := by
  cases s with
  | unnamed b h => exact dif_pos h
  | _ => rfl

end ResponseStatus

/-! ## Records -/

/-- `FILE_HANDLE`. -/
abbrev FileHandle := UInt32

structure OpenHandleArgs where
  path : ByteString
  mode : OpenMode
  readAccess : Bool
  writeAccess : Bool
  deriving DecidableEq, Repr

structure ReadHandleArgs where
  handle : FileHandle
  dataLen : UInt32
  offset : UInt64
  deriving DecidableEq, Repr

structure WriteHandleInitArgs where
  handle : FileHandle
  offset : UInt64
  dataLen : UInt32
  deriving DecidableEq, Repr

structure MoveEntryArgs where
  fromPath : ByteString
  toPath : ByteString
  overwrite : Bool
  deriving DecidableEq, Repr

structure TruncateHandleArgs where
  handle : FileHandle
  newLength : UInt64
  deriving DecidableEq, Repr

/-- Times are signed; `-1` leaves a time as it is. -/
structure SetFileTimeArgs where
  path : ByteString
  accessTime : Int64
  writeTime : Int64
  deriving DecidableEq

structure FileStat where
  mode : UInt16
  size : UInt64
  accessTime : UInt64
  writeTime : UInt64
  deriving DecidableEq, Repr

structure DiskStats where
  freeBytes : UInt64
  availableBytes : UInt64
  totalBytes : UInt64
  deriving DecidableEq, Repr

section Messages

variable {E : Type} {R : E → Type}

namespace OpenHandleArgs

/-- The mode in the low six bits, with the access flags above it. -/
def modeAndPerms (a : OpenHandleArgs) : UInt8 :=
  a.mode.toByte ||| (if a.readAccess then 0b10000000 else 0) |||
    (if a.writeAccess then 0b01000000 else 0)

theorem and_lt (b : UInt8) : b &&& 0b00111111 < 64 := by
  rw [UInt8.lt_iff_toNat_lt, UInt8.toNat_and]
  exact Nat.lt_succ_of_le Nat.and_le_right

def write (h : Host) (a : OpenHandleArgs) : StreamM E R Exn Unit := do
  writeUtf8String h a.path
  writeByte a.modeAndPerms

def read (h : Host) : StreamM E R Exn OpenHandleArgs := do
  let path ← readUtf8String h
  let modeAndPerms ← readByte
  return {
    path
    readAccess := modeAndPerms &&& 0b10000000 != 0
    writeAccess := modeAndPerms &&& 0b01000000 != 0
    mode := OpenMode.ofBits (modeAndPerms &&& 0b00111111) (and_lt _) }

def bytes (a : OpenHandleArgs) : List UInt8 :=
  stringBytes a.path ++ [a.modeAndPerms]

/-- The three fields of the packed byte do not overlap. -/
theorem unpack (m : UInt8) (hm : m < 64) (r w : Bool) :
    let b := m ||| (if r then 0b10000000 else 0) ||| (if w then 0b01000000 else 0)
    (b &&& 0b10000000 != 0) = r ∧ (b &&& 0b01000000 != 0) = w ∧ b &&& 0b00111111 = m := by
  have key : ∀ n : ℕ, n < 64 → ∀ r w : Bool,
      let b := UInt8.ofNat n ||| (if r then 0b10000000 else 0) ||| (if w then 0b01000000 else 0)
      (b &&& 0b10000000 != 0) = r ∧ (b &&& 0b01000000 != 0) = w ∧
        b &&& 0b00111111 = UInt8.ofNat n := by
    decide
  have := key m.toNat (UInt8.lt_iff_toNat_lt.mp hm) r w
  rwa [UInt8.ofNat_toNat] at this

theorem writes (h : Host) {a : OpenHandleArgs} (ha : Fits a.path) :
    (a.write h : StreamM E R Exn Unit).Writes a.bytes () :=
  (writes_string h ha).bind (writes_byte _)

theorem reads (h : Host) {a : OpenHandleArgs} (ha : Fits a.path) :
    (read h : StreamM E R Exn OpenHandleArgs).Reads a.bytes a := by
  refine (reads_string h ha).bind ((reads_byte a.modeAndPerms).bind_ret ?_)
  obtain ⟨hr, hw, hm⟩ := unpack a.mode.toByte a.mode.toByte_lt a.readAccess a.writeAccess
  refine congrArg Prog.ret ?_
  obtain ⟨path, mode, r, w⟩ := a
  simp only [modeAndPerms, mk.injEq, true_and]
  refine ⟨?_, hr, hw⟩
  simp only [hm, OpenMode.ofBits_toByte]

end OpenHandleArgs

namespace ReadHandleArgs

def write (h : Host) (a : ReadHandleArgs) : StreamM E R Exn Unit := do
  writeU32 h a.handle
  writeU32 h a.dataLen
  writeU64 h a.offset

def read (h : Host) : StreamM E R Exn ReadHandleArgs := do
  let handle ← readU32 h
  let dataLen ← readU32 h
  let offset ← readU64 h
  return { handle, dataLen, offset }

def bytes (a : ReadHandleArgs) : List UInt8 :=
  u32Bytes a.handle ++ (u32Bytes a.dataLen ++ u64Bytes a.offset)

theorem writes (h : Host) (a : ReadHandleArgs) :
    (a.write h : StreamM E R Exn Unit).Writes a.bytes () :=
  (writes_u32 h _).bind ((writes_u32 h _).bind (writes_u64 h _))

theorem reads (h : Host) (a : ReadHandleArgs) :
    (read h : StreamM E R Exn ReadHandleArgs).Reads a.bytes a :=
  (reads_u32 h _).bind ((reads_u32 h _).bind ((reads_u64 h _).bind_ret rfl))

end ReadHandleArgs

namespace WriteHandleInitArgs

def write (h : Host) (a : WriteHandleInitArgs) : StreamM E R Exn Unit := do
  writeU32 h a.handle
  writeU64 h a.offset
  writeU32 h a.dataLen

def read (h : Host) : StreamM E R Exn WriteHandleInitArgs := do
  let handle ← readU32 h
  let offset ← readU64 h
  let dataLen ← readU32 h
  return { handle, offset, dataLen }

def bytes (a : WriteHandleInitArgs) : List UInt8 :=
  u32Bytes a.handle ++ (u64Bytes a.offset ++ u32Bytes a.dataLen)

theorem writes (h : Host) (a : WriteHandleInitArgs) :
    (a.write h : StreamM E R Exn Unit).Writes a.bytes () :=
  (writes_u32 h _).bind ((writes_u64 h _).bind (writes_u32 h _))

theorem reads (h : Host) (a : WriteHandleInitArgs) :
    (read h : StreamM E R Exn WriteHandleInitArgs).Reads a.bytes a :=
  (reads_u32 h _).bind ((reads_u64 h _).bind ((reads_u32 h _).bind_ret rfl))

end WriteHandleInitArgs

namespace MoveEntryArgs

def write (h : Host) (a : MoveEntryArgs) : StreamM E R Exn Unit := do
  writeUtf8String h a.fromPath
  writeUtf8String h a.toPath
  writeByte (if a.overwrite then 1 else 0)

def read (h : Host) : StreamM E R Exn MoveEntryArgs := do
  let fromPath ← readUtf8String h
  let toPath ← readUtf8String h
  let overwrite ← readByte
  return { fromPath, toPath, overwrite := overwrite != 0 }

def bytes (a : MoveEntryArgs) : List UInt8 :=
  stringBytes a.fromPath ++ (stringBytes a.toPath ++ [if a.overwrite then 1 else 0])

theorem writes (h : Host) {a : MoveEntryArgs} (hf : Fits a.fromPath) (ht : Fits a.toPath) :
    (a.write h : StreamM E R Exn Unit).Writes a.bytes () :=
  (writes_string h hf).bind ((writes_string h ht).bind (writes_byte _))

theorem reads (h : Host) {a : MoveEntryArgs} (hf : Fits a.fromPath) (ht : Fits a.toPath) :
    (read h : StreamM E R Exn MoveEntryArgs).Reads a.bytes a := by
  refine (reads_string h hf).bind ((reads_string h ht).bind ((reads_byte _).bind_ret ?_))
  obtain ⟨fromPath, toPath, overwrite⟩ := a
  cases overwrite <;> rfl

end MoveEntryArgs

namespace TruncateHandleArgs

def write (h : Host) (a : TruncateHandleArgs) : StreamM E R Exn Unit := do
  writeU32 h a.handle
  writeU64 h a.newLength

def read (h : Host) : StreamM E R Exn TruncateHandleArgs := do
  let handle ← readU32 h
  let newLength ← readU64 h
  return { handle, newLength }

def bytes (a : TruncateHandleArgs) : List UInt8 :=
  u32Bytes a.handle ++ u64Bytes a.newLength

theorem writes (h : Host) (a : TruncateHandleArgs) :
    (a.write h : StreamM E R Exn Unit).Writes a.bytes () :=
  (writes_u32 h _).bind (writes_u64 h _)

theorem reads (h : Host) (a : TruncateHandleArgs) :
    (read h : StreamM E R Exn TruncateHandleArgs).Reads a.bytes a :=
  (reads_u32 h _).bind ((reads_u64 h _).bind_ret rfl)

end TruncateHandleArgs

namespace SetFileTimeArgs

/-- The signed times pass through `write_u64` and `read_u64` by implicit conversions. -/
def write (h : Host) (a : SetFileTimeArgs) : StreamM E R Exn Unit := do
  writeUtf8String h a.path
  writeU64 h a.accessTime.toUInt64
  writeU64 h a.writeTime.toUInt64

def read (h : Host) : StreamM E R Exn SetFileTimeArgs := do
  let path ← readUtf8String h
  let accessTime ← readU64 h
  let writeTime ← readU64 h
  return { path, accessTime := accessTime.toInt64, writeTime := writeTime.toInt64 }

def bytes (a : SetFileTimeArgs) : List UInt8 :=
  stringBytes a.path ++ (u64Bytes a.accessTime.toUInt64 ++ u64Bytes a.writeTime.toUInt64)

theorem writes (h : Host) {a : SetFileTimeArgs} (ha : Fits a.path) :
    (a.write h : StreamM E R Exn Unit).Writes a.bytes () :=
  (writes_string h ha).bind ((writes_u64 h _).bind (writes_u64 h _))

theorem reads (h : Host) {a : SetFileTimeArgs} (ha : Fits a.path) :
    (read h : StreamM E R Exn SetFileTimeArgs).Reads a.bytes a :=
  (reads_string h ha).bind ((reads_u64 h _).bind ((reads_u64 h _).bind_ret rfl))

end SetFileTimeArgs

namespace FileStat

def write (h : Host) (a : FileStat) : StreamM E R Exn Unit := do
  writeU16 h a.mode
  writeU64 h a.size
  writeU64 h a.accessTime
  writeU64 h a.writeTime

def read (h : Host) : StreamM E R Exn FileStat := do
  let mode ← readU16 h
  let size ← readU64 h
  let accessTime ← readU64 h
  let writeTime ← readU64 h
  return { mode, size, accessTime, writeTime }

def bytes (a : FileStat) : List UInt8 :=
  u16Bytes a.mode ++ (u64Bytes a.size ++ (u64Bytes a.accessTime ++ u64Bytes a.writeTime))

theorem writes (h : Host) (a : FileStat) :
    (a.write h : StreamM E R Exn Unit).Writes a.bytes () :=
  (writes_u16 h _).bind ((writes_u64 h _).bind ((writes_u64 h _).bind (writes_u64 h _)))

theorem reads (h : Host) (a : FileStat) :
    (read h : StreamM E R Exn FileStat).Reads a.bytes a :=
  (reads_u16 h _).bind ((reads_u64 h _).bind ((reads_u64 h _).bind
    ((reads_u64 h _).bind_ret rfl)))

end FileStat

namespace DiskStats

def write (h : Host) (a : DiskStats) : StreamM E R Exn Unit := do
  writeU64 h a.freeBytes
  writeU64 h a.availableBytes
  writeU64 h a.totalBytes

def read (h : Host) : StreamM E R Exn DiskStats := do
  let freeBytes ← readU64 h
  let availableBytes ← readU64 h
  let totalBytes ← readU64 h
  return { freeBytes, availableBytes, totalBytes }

def bytes (a : DiskStats) : List UInt8 :=
  u64Bytes a.freeBytes ++ (u64Bytes a.availableBytes ++ u64Bytes a.totalBytes)

theorem writes (h : Host) (a : DiskStats) :
    (a.write h : StreamM E R Exn Unit).Writes a.bytes () :=
  (writes_u64 h _).bind ((writes_u64 h _).bind (writes_u64 h _))

theorem reads (h : Host) (a : DiskStats) :
    (read h : StreamM E R Exn DiskStats).Reads a.bytes a :=
  (reads_u64 h _).bind ((reads_u64 h _).bind ((reads_u64 h _).bind_ret rfl))

end DiskStats

/-! ## The eight record types as one family -/

/-- The record types that cross the wire. -/
inductive MessageType where
  | openHandleArgs
  | readHandleArgs
  | writeHandleInitArgs
  | moveEntryArgs
  | truncateHandleArgs
  | setFileTimeArgs
  | fileStat
  | diskStats
  deriving DecidableEq, Repr

namespace MessageType

@[reducible] def Value : MessageType → Type
  | .openHandleArgs => OpenHandleArgs
  | .readHandleArgs => ReadHandleArgs
  | .writeHandleInitArgs => WriteHandleInitArgs
  | .moveEntryArgs => MoveEntryArgs
  | .truncateHandleArgs => TruncateHandleArgs
  | .setFileTimeArgs => SetFileTimeArgs
  | .fileStat => FileStat
  | .diskStats => DiskStats

/-- The `write` method of each type. -/
def write (h : Host) : (t : MessageType) → t.Value → StreamM E R Exn Unit
  | .openHandleArgs, a => a.write h
  | .readHandleArgs, a => a.write h
  | .writeHandleInitArgs, a => a.write h
  | .moveEntryArgs, a => a.write h
  | .truncateHandleArgs, a => a.write h
  | .setFileTimeArgs, a => a.write h
  | .fileStat, a => a.write h
  | .diskStats, a => a.write h

/-- The reading constructor of each type. -/
def read (h : Host) : (t : MessageType) → StreamM E R Exn t.Value
  | .openHandleArgs => OpenHandleArgs.read h
  | .readHandleArgs => ReadHandleArgs.read h
  | .writeHandleInitArgs => WriteHandleInitArgs.read h
  | .moveEntryArgs => MoveEntryArgs.read h
  | .truncateHandleArgs => TruncateHandleArgs.read h
  | .setFileTimeArgs => SetFileTimeArgs.read h
  | .fileStat => FileStat.read h
  | .diskStats => DiskStats.read h

def bytes : (t : MessageType) → t.Value → List UInt8
  | .openHandleArgs, a => a.bytes
  | .readHandleArgs, a => a.bytes
  | .writeHandleInitArgs, a => a.bytes
  | .moveEntryArgs, a => a.bytes
  | .truncateHandleArgs, a => a.bytes
  | .setFileTimeArgs, a => a.bytes
  | .fileStat, a => a.bytes
  | .diskStats, a => a.bytes

/-- The strings of a record. -/
def strings : (t : MessageType) → t.Value → List ByteString
  | .openHandleArgs, a => [a.path]
  | .moveEntryArgs, a => [a.fromPath, a.toPath]
  | .setFileTimeArgs, a => [a.path]
  | _, _ => []

theorem writes (h : Host) (t : MessageType) (v : t.Value) (hv : ∀ s ∈ t.strings v, Fits s) :
    (t.write h v : StreamM E R Exn Unit).Writes (t.bytes v) () := by
  cases t with
  | openHandleArgs => exact OpenHandleArgs.writes h (hv _ (by simp [strings]))
  | readHandleArgs => exact ReadHandleArgs.writes h v
  | writeHandleInitArgs => exact WriteHandleInitArgs.writes h v
  | moveEntryArgs =>
    exact MoveEntryArgs.writes h (hv _ (by simp [strings])) (hv _ (by simp [strings]))
  | truncateHandleArgs => exact TruncateHandleArgs.writes h v
  | setFileTimeArgs => exact SetFileTimeArgs.writes h (hv _ (by simp [strings]))
  | fileStat => exact FileStat.writes h v
  | diskStats => exact DiskStats.writes h v

theorem reads (h : Host) (t : MessageType) (v : t.Value) (hv : ∀ s ∈ t.strings v, Fits s) :
    (t.read h : StreamM E R Exn t.Value).Reads (t.bytes v) v := by
  cases t with
  | openHandleArgs => exact OpenHandleArgs.reads h (hv _ (by simp [strings]))
  | readHandleArgs => exact ReadHandleArgs.reads h v
  | writeHandleInitArgs => exact WriteHandleInitArgs.reads h v
  | moveEntryArgs =>
    exact MoveEntryArgs.reads h (hv _ (by simp [strings])) (hv _ (by simp [strings]))
  | truncateHandleArgs => exact TruncateHandleArgs.reads h v
  | setFileTimeArgs => exact SetFileTimeArgs.reads h (hv _ (by simp [strings]))
  | fileStat => exact FileStat.reads h v
  | diskStats => exact DiskStats.reads h v

theorem onlyReads_read (h : Host) (t : MessageType) :
    (t.read h : StreamM E R Exn t.Value).OnlyReads := by
  have str := onlyReads_readUtf8String (E := E) (R := R) h
  have u32 := onlyReads_readU32 (E := E) (R := R) h
  have u64 := onlyReads_readU64 (E := E) (R := R) h
  cases t with
  | openHandleArgs => exact str.bind fun _ => onlyReads_readByte.bind fun _ => trivial
  | readHandleArgs => exact u32.bind fun _ => u32.bind fun _ => u64.bind fun _ => trivial
  | writeHandleInitArgs => exact u32.bind fun _ => u64.bind fun _ => u32.bind fun _ => trivial
  | moveEntryArgs =>
    exact str.bind fun _ => str.bind fun _ => onlyReads_readByte.bind fun _ => trivial
  | truncateHandleArgs => exact u32.bind fun _ => u64.bind fun _ => trivial
  | setFileTimeArgs => exact str.bind fun _ => u64.bind fun _ => u64.bind fun _ => trivial
  | fileStat =>
    exact (onlyReads_readU16 h).bind fun _ => u64.bind fun _ => u64.bind fun _ =>
      u64.bind fun _ => trivial
  | diskStats => exact u64.bind fun _ => u64.bind fun _ => u64.bind fun _ => trivial

theorem onlyWrites_write (h : Host) (t : MessageType) (v : t.Value) :
    (t.write h v : StreamM E R Exn Unit).OnlyWrites := by
  have str := onlyWrites_writeUtf8String (E := E) (R := R) h
  have u32 := onlyWrites_writeU32 (E := E) (R := R) h
  have u64 := onlyWrites_writeU64 (E := E) (R := R) h
  cases t with
  | openHandleArgs => exact (str _).bind fun _ => onlyWrites_writeByte _
  | readHandleArgs => exact (u32 _).bind fun _ => (u32 _).bind fun _ => u64 _
  | writeHandleInitArgs => exact (u32 _).bind fun _ => (u64 _).bind fun _ => u32 _
  | moveEntryArgs => exact (str _).bind fun _ => (str _).bind fun _ => onlyWrites_writeByte _
  | truncateHandleArgs => exact (u32 _).bind fun _ => u64 _
  | setFileTimeArgs => exact (str _).bind fun _ => (u64 _).bind fun _ => u64 _
  | fileStat =>
    exact (onlyWrites_writeU16 h _).bind fun _ => (u64 _).bind fun _ => (u64 _).bind fun _ => u64 _
  | diskStats => exact (u64 _).bind fun _ => (u64 _).bind fun _ => u64 _

theorem raises_read {P : Exn → Prop} (hP : P .eof) (h : Host) (t : MessageType) :
    (t.read h : StreamM E R Exn t.Value).Raises P := by
  have str := raises_readUtf8String (E := E) (R := R) hP h
  have u32 := raises_readU32 (E := E) (R := R) hP h
  have u64 := raises_readU64 (E := E) (R := R) hP h
  cases t with
  | openHandleArgs => exact str.bind fun _ => (raises_readByte hP).bind fun _ => trivial
  | readHandleArgs => exact u32.bind fun _ => u32.bind fun _ => u64.bind fun _ => trivial
  | writeHandleInitArgs => exact u32.bind fun _ => u64.bind fun _ => u32.bind fun _ => trivial
  | moveEntryArgs =>
    exact str.bind fun _ => str.bind fun _ => (raises_readByte hP).bind fun _ => trivial
  | truncateHandleArgs => exact u32.bind fun _ => u64.bind fun _ => trivial
  | setFileTimeArgs => exact str.bind fun _ => u64.bind fun _ => u64.bind fun _ => trivial
  | fileStat =>
    exact (raises_readU16 hP h).bind fun _ => u64.bind fun _ => u64.bind fun _ =>
      u64.bind fun _ => trivial
  | diskStats => exact u64.bind fun _ => u64.bind fun _ => u64.bind fun _ => trivial

/-- **Every message is read back as it was written.**  Whatever hosts write and read, the bytes
that `write` emits, followed by anything, are read back as an equal value and what followed is
left.  The integers among them go out most significant byte first on every host. -/
theorem read_write (t : MessageType) (v : t.Value) (hv : ∀ s ∈ t.strings v, Fits s)
    (hw hr : Host) {W : Type} (world : (e : E) → W → R e × W) (closed : Bool) (out inn : View W)
    (rest : List UInt8) :
    (∃ bs, StreamM.run world closed (t.write hw v) out =
        (.done (), { out with outflow := out.outflow ++ bs, settled := false }) ∧
      (inn.inflow = bs ++ rest →
        StreamM.run world closed (t.read hr) inn = (.done v, { inn with inflow := rest })) ∧
      bs = t.bytes v) ∧
    (∀ x : UInt16, (writeU16 hw x : StreamM E R Exn Unit).Writes
      [(x >>> 8).toUInt8, x.toUInt8] ()) ∧
    (∀ x : UInt32, (writeU32 hw x : StreamM E R Exn Unit).Writes
      [(x >>> 24).toUInt8, (x >>> 16).toUInt8, (x >>> 8).toUInt8, x.toUInt8] ()) ∧
    (∀ x : UInt64, (writeU64 hw x : StreamM E R Exn Unit).Writes
      [(x >>> 56).toUInt8, (x >>> 48).toUInt8, (x >>> 40).toUInt8, (x >>> 32).toUInt8,
        (x >>> 24).toUInt8, (x >>> 16).toUInt8, (x >>> 8).toUInt8, x.toUInt8] ()) := by
  refine ⟨⟨t.bytes v, writes hw t v hv _ world closed out, ?_, rfl⟩, ?_, ?_, ?_⟩
  · intro hinn
    exact reads hr t v hv _ world closed inn rest hinn
  · intro x
    rw [← u16Bytes_eq]
    exact writes_u16 hw x
  · intro x
    rw [← u32Bytes_eq]
    exact writes_u32 hw x
  · intro x
    rw [← u64Bytes_eq]
    exact writes_u64 hw x

end MessageType

end Messages

/-- A move with a path of two bytes and an empty one, written on Windows and read on the device:
the theorem applies, and the bytes are the two length-prefixed strings and the flag. -/
theorem MessageType.read_write_moveEntry :
    (∀ s ∈ MessageType.moveEntryArgs.strings ⟨[47, 97], [], true⟩, Fits s) ∧
      StreamM.run (fun e _ => nomatch e) false
        (MessageType.moveEntryArgs.read (.unix .little) : StreamM Empty (fun _ => Unit) Exn _)
        ⟨[0, 2, 47, 97, 0, 0, 1] ++ [9], [], true, ()⟩ =
        (.done (⟨[47, 97], [], true⟩ : MoveEntryArgs), ⟨[9], [], true, ()⟩) := by
  have hfits : ∀ s ∈ MessageType.moveEntryArgs.strings ⟨[47, 97], [], true⟩, Fits s := by decide
  refine ⟨hfits, ?_⟩
  obtain ⟨⟨bs, -, hread, hbs⟩, -⟩ := MessageType.read_write (E := Empty) (R := fun _ => Unit)
    .moveEntryArgs ⟨[47, 97], [], true⟩ hfits .windows (.unix .little) (fun e _ => nomatch e)
    false ⟨[], [], true, ()⟩ ⟨[0, 2, 47, 97, 0, 0, 1] ++ [9], [], true, ()⟩ [9]
  refine hread ?_
  rw [hbs]
  decide

end NandroidFS
