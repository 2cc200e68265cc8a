import NandroidFS.Shared.Messages

/-!
# The system calls of the daemon

The calls that `ClientHandler.cpp` makes on the device, with the answers the handlers tell apart.
A call answers with an error number or with what the handler goes on to use; the bounds that POSIX
puts on an answer are part of its type.

A `Kernel` answers calls from a state of its own.  Nothing is assumed of it here, so a statement
about every kernel and every state is a statement about every outcome of every call.
-/

namespace NandroidFS

/-- The error numbers that `get_status_from_errno` tells apart, and the rest. -/
inductive Errno where
  | eacces
  | enoent
  | eexist
  | enotdir
  | eisdir
  | enotempty
  | other (code : ℕ)
  deriving DecidableEq, Repr

def getStatusFromErrno : Errno → ResponseStatus
  | .eacces => .accessDenied
  | .enoent => .fileNotFound
  | .eexist => .fileExists
  | .enotdir => .notADirectory
  | .eisdir => .notAFile
  | .enotempty => .directoryNotEmpty
  | .other _ => .genericFailure

theorem getStatusFromErrno_ne_success (e : Errno) : getStatusFromErrno e ≠ .success := by
  cases e <;> simp [getStatusFromErrno]

theorem getStatusFromErrno_ne_noMoreEntries (e : Errno) :
    getStatusFromErrno e ≠ .noMoreEntries := by
  cases e <;> simp [getStatusFromErrno]

/-- The fields of `struct stat` that are used, with the widths of the device. -/
structure PosixStat where
  stMode : UInt32
  stSize : Int64
  stAtime : Int64
  stMtime : Int64
  deriving DecidableEq

/-- The fields of `struct statvfs` that are used. -/
structure PosixStatvfs where
  fBsize : UInt64
  fBfree : UInt64
  fFavail : UInt64
  fBlocks : UInt64
  deriving DecidableEq

/-- `O_RDONLY`, `O_WRONLY` and `O_RDWR`. -/
inductive AccessFlag where
  | rdonly
  | wronly
  | rdwr
  deriving DecidableEq, Repr

/-- The flags of `open`. -/
structure OpenFlags where
  access : AccessFlag
  creat : Bool
  trunc : Bool
  excl : Bool
  deriving DecidableEq, Repr

/-- A `timespec`: `UTIME_OMIT`, or whole seconds. -/
inductive Timespec where
  | omit
  | seconds (tvSec : Int64)
  deriving DecidableEq

/-- A file descriptor as `open` returns it. -/
abbrev Fd := { fd : Int32 // 0 ≤ fd }

theorem Fd.toNat_lt (fd : Fd) : fd.1.toUInt32.toNat < 2 ^ 31 := by
  have h : (0 : Int32).toInt ≤ fd.1.toInt := Int32.le_iff_toInt_le.mp fd.2
  have hzero : (0 : Int32).toInt = 0 := rfl
  rw [hzero] at h
  have hcond : fd.1.toInt = _ := BitVec.toInt_eq_toNat_cond fd.1.toBitVec
  have hlt := fd.1.toBitVec.isLt
  show fd.1.toBitVec.toNat < 2 ^ 31
  split at hcond <;> omega

/-- The name in a `dirent`: at most 255 bytes before the terminator. -/
abbrev EntryName := { name : ByteString // name.length ≤ 255 ∧ 0 ∉ name }

/-- The system calls. -/
inductive Syscall where
  | stat (path : ByteString)
  /-- `opendir`, answered with the names that `readdir` gives until it returns no entry. -/
  | opendir (path : ByteString)
  | rename (fromPath toPath : ByteString)
  | unlink (path : ByteString)
  | rmdir (path : ByteString)
  | mkdir (path : ByteString) (mode : ℕ)
  | openFile (path : ByteString) (flags : OpenFlags) (mode : ℕ)
  | close (fd : Int32)
  /-- `lseek` with `SEEK_SET`. -/
  | lseek (fd : Int32) (offset : Int64)
  | read (fd : Int32) (count : ℕ)
  | write (fd : Int32) (buf : List UInt8)
  | ftruncate (fd : Int32) (length : Int64)
  | utimensat (path : ByteString) (access modification : Timespec)
  | statvfs (path : ByteString)
  /-- `access` with `R_OK | W_OK | X_OK`. -/
  | access (path : ByteString)
  deriving DecidableEq

/-- The answers.  `read` gives at most what was asked for, nothing at the end of the file;
`write` takes at least one byte of a buffer that is not empty. -/
@[reducible] def Syscall.Res : Syscall → Type
  | .stat _ => Except Errno PosixStat
  | .opendir _ => Except Errno (List EntryName)
  | .rename _ _ => Except Errno Unit
  | .unlink _ => Except Errno Unit
  | .rmdir _ => Except Errno Unit
  | .mkdir _ _ => Except Errno Unit
  | .openFile _ _ _ => Except Errno Fd
  | .close _ => Except Errno Unit
  | .lseek _ _ => Except Errno Unit
  | .read _ count => Except Errno { bs : List UInt8 // bs.length ≤ count }
  | .write _ buf => Except Errno { n : ℕ // n ≤ buf.length ∧ (buf ≠ [] → 0 < n) }
  | .ftruncate _ _ => Except Errno Unit
  | .utimensat _ _ _ => Except Errno Unit
  | .statvfs _ => Except Errno PosixStatvfs
  | .access _ => Except Errno Unit

/-- A kernel with states `K`. -/
abbrev Kernel (K : Type) := (e : Syscall) → K → e.Res × K

/-- The kernel on which every call fails. -/
def Kernel.failing (error : Errno) : Kernel Unit := fun e k =>
  (match e with
    | .stat _ => .error error
    | .opendir _ => .error error
    | .rename _ _ => .error error
    | .unlink _ => .error error
    | .rmdir _ => .error error
    | .mkdir _ _ => .error error
    | .openFile _ _ _ => .error error
    | .close _ => .error error
    | .lseek _ _ => .error error
    | .read _ _ => .error error
    | .write _ _ => .error error
    | .ftruncate _ _ => .error error
    | .utimensat _ _ _ => .error error
    | .statvfs _ => .error error
    | .access _ => .error error, k)

/-- Every directory has the files `a` and `b`, of which the second may not be looked at.  One file
at a time can be open, it takes all that is written, and it is full of sevens.  The state says
whether it is open. -/
def Kernel.twoFiles : Kernel Bool
  | .opendir _ => fun k => (.ok [⟨[97], by decide⟩, ⟨[98], by decide⟩], k)
  | .stat path => fun k =>
      (if path = [47, 98] then .error .eacces else .ok ⟨0x81A4, 5, 0, 7⟩, k)
  | .openFile _ _ _ => fun k => if k then (.error .eacces, k) else (.ok ⟨3, by decide⟩, true)
  | .close fd => fun k => (.ok (), k && fd ≠ 3)
  | .lseek _ _ => fun k => (.ok (), k)
  | .read _ count => fun k =>
      (.ok ⟨List.replicate count 7, by rw [List.length_replicate]⟩, k)
  | .write _ buf => fun k => (.ok ⟨buf.length, le_rfl, List.length_pos_iff.mpr⟩, k)
  | e => fun k => ((Kernel.failing .enoent e ()).1, k)

/-- What a call sees of a `std::string` passed as `c_str()`. -/
def cStr (s : ByteString) : ByteString :=
  s.takeWhile (· ≠ 0)

/-- The programs of the daemon. -/
abbrev DaemonM := StreamM Syscall Syscall.Res Exn

/-- A length passed as `int`, as the loops `while (length > 0)` see it: from `2 ^ 31` on it is
negative and they do nothing. -/
def intLength (length : UInt32) : ℕ :=
  length.toInt32.toInt.toNat

theorem toInt_toInt32 (length : UInt32) :
    length.toInt32.toInt = (length.toNat : ℤ).bmod (2 ^ 32) := by
  show BitVec.toInt length.toBitVec = _
  rw [BitVec.toInt_eq_toNat_bmod]
  rfl

theorem intLength_of_lt {length : UInt32} (h : length.toNat < 2 ^ 31) :
    intLength length = length.toNat := by
  rw [intLength, toInt_toInt32, Int.bmod_def]
  omega

theorem intLength_of_le {length : UInt32} (h : 2 ^ 31 ≤ length.toNat) : intLength length = 0 := by
  have := length.toNat_lt
  rw [intLength, toInt_toInt32, Int.bmod_def]
  omega

end NandroidFS
