import NandroidFS.Streams.ByteStream
import NandroidFS.Shared.ByteOrder

/-!
# Bytes, integers and strings on the stream

`DataReader::read_byte` to `read_utf8_string` and `DataWriter::write_byte` to `write_utf8_string`.
Integers pass through the memory of the host; `writeU16_eq` and its siblings put them in the one
form that the rest of the development uses, in which the host no longer occurs.
-/

namespace NandroidFS

/-- The strings of the program are strings of bytes. -/
abbrev ByteString := List UInt8

/-- The exceptions the modelled code raises. -/
inductive Exn where
  /-- `EOFException`. -/
  | eof
  /-- `write_utf8_string` on a string whose length does not fit 16 bits. -/
  | stringTooLong
  /-- `handle_messages` on a byte that is no request type. -/
  | unknownRequest
  /-- `std::range_error` of `wstring_convert::from_bytes`. -/
  | badConversion
  /-- Not of the source: the bound given to a loop was too small. -/
  | outOfRounds
  deriving DecidableEq, Repr

section Primitives

variable {E : Type} {R : E → Type}

def readByte : StreamM E R Exn UInt8 := do
  let result ← StreamM.readExact .eof 1
  return result.headD 0

def readU16 (h : Host) : StreamM E R Exn UInt16 := do
  let result ← StreamM.readExact .eof 2
  return ntohs h (UInt16.ofNat (ofMemory h.order result))

def readU32 (h : Host) : StreamM E R Exn UInt32 := do
  let result ← StreamM.readExact .eof 4
  return ntohl h (UInt32.ofNat (ofMemory h.order result))

def readU64 (h : Host) : StreamM E R Exn UInt64 := do
  let result ← StreamM.readExact .eof 8
  return ntohll h (UInt64.ofNat (ofMemory h.order result))

/-- A string, prefixed with a 2 byte length. -/
def readUtf8String (h : Host) : StreamM E R Exn ByteString := do
  let length ← readU16 h
  StreamM.readExact .eof length.toNat

def writeByte (data : UInt8) : StreamM E R Exn Unit :=
  StreamM.writeExact [data]

def writeU16 (h : Host) (data : UInt16) : StreamM E R Exn Unit :=
  StreamM.writeExact (memory h.order 2 (htons h data).toNat)

def writeU32 (h : Host) (data : UInt32) : StreamM E R Exn Unit :=
  StreamM.writeExact (memory h.order 4 (htonl h data).toNat)

def writeU64 (h : Host) (data : UInt64) : StreamM E R Exn Unit :=
  StreamM.writeExact (memory h.order 8 (htonll h data).toNat)

def writeUtf8String (h : Host) (data : ByteString) : StreamM E R Exn Unit :=
  if data.length > 65535 then .fail .stringTooLong
  else do
    writeU16 h (UInt16.ofNat data.length)
    StreamM.writeExact data

/-! ### The bytes of each primitive -/

def u16Bytes (v : UInt16) : List UInt8 := beBytes 2 v.toNat

def u32Bytes (v : UInt32) : List UInt8 := beBytes 4 v.toNat

def u64Bytes (v : UInt64) : List UInt8 := beBytes 8 v.toNat

def stringBytes (s : ByteString) : List UInt8 := beBytes 2 s.length ++ s

theorem u16Bytes_eq (v : UInt16) : u16Bytes v = [(v >>> 8).toUInt8, v.toUInt8] := by
  simp [u16Bytes, beBytes, leBytes, ← UInt8.toNat_inj, Nat.shiftRight_eq_div_pow]

theorem u32Bytes_eq (v : UInt32) :
    u32Bytes v = [(v >>> 24).toUInt8, (v >>> 16).toUInt8, (v >>> 8).toUInt8, v.toUInt8] := by
  simp [u32Bytes, beBytes, leBytes, ← UInt8.toNat_inj, Nat.shiftRight_eq_div_pow,
    Nat.div_div_eq_div_mul]

theorem u64Bytes_eq (v : UInt64) :
    u64Bytes v = [(v >>> 56).toUInt8, (v >>> 48).toUInt8, (v >>> 40).toUInt8, (v >>> 32).toUInt8,
      (v >>> 24).toUInt8, (v >>> 16).toUInt8, (v >>> 8).toUInt8, v.toUInt8] := by
  simp [u64Bytes, beBytes, leBytes, ← UInt8.toNat_inj, Nat.shiftRight_eq_div_pow,
    Nat.div_div_eq_div_mul]

/-- The string can be written: its length fits 16 bits. -/
def Fits (s : ByteString) : Prop := s.length ≤ 65535

instance (s : ByteString) : Decidable (Fits s) := inferInstanceAs (Decidable (_ ≤ _))

theorem writeU16_eq (h : Host) (v : UInt16) :
    (writeU16 h v : StreamM E R Exn Unit) = StreamM.writeExact (u16Bytes v) := by
  rw [writeU16, memory_htons, u16Bytes]

theorem writeU32_eq (h : Host) (v : UInt32) :
    (writeU32 h v : StreamM E R Exn Unit) = StreamM.writeExact (u32Bytes v) := by
  rw [writeU32, memory_htonl, u32Bytes]

theorem writeU64_eq (h : Host) (v : UInt64) :
    (writeU64 h v : StreamM E R Exn Unit) = StreamM.writeExact (u64Bytes v) := by
  rw [writeU64, memory_htonll, u64Bytes]

theorem writes_byte (b : UInt8) : (writeByte b : StreamM E R Exn Unit).Writes [b] () :=
  StreamM.writes_writeExact [b]

theorem writes_u16 (h : Host) (v : UInt16) :
    (writeU16 h v : StreamM E R Exn Unit).Writes (u16Bytes v) () := by
  rw [writeU16_eq]
  exact StreamM.writes_writeExact _

theorem writes_u32 (h : Host) (v : UInt32) :
    (writeU32 h v : StreamM E R Exn Unit).Writes (u32Bytes v) () := by
  rw [writeU32_eq]
  exact StreamM.writes_writeExact _

theorem writes_u64 (h : Host) (v : UInt64) :
    (writeU64 h v : StreamM E R Exn Unit).Writes (u64Bytes v) () := by
  rw [writeU64_eq]
  exact StreamM.writes_writeExact _

theorem toNat_ofNat_length {s : ByteString} (hs : Fits s) :
    (UInt16.ofNat s.length).toNat = s.length := by
  rw [UInt16.toNat_ofNat']
  exact Nat.mod_eq_of_lt (Nat.lt_succ_of_le hs)

theorem writes_string (h : Host) {s : ByteString} (hs : Fits s) :
    (writeUtf8String h s : StreamM E R Exn Unit).Writes (stringBytes s) () := by
  have hlen : u16Bytes (UInt16.ofNat s.length) = beBytes 2 s.length := by
    rw [u16Bytes, toNat_ofNat_length hs]
  rw [writeUtf8String, if_neg (Nat.not_lt.mpr hs), stringBytes, ← hlen]
  exact (writes_u16 h _).bind (StreamM.writes_writeExact s)

theorem reads_byte (b : UInt8) : (readByte : StreamM E R Exn UInt8).Reads [b] b :=
  (StreamM.reads_readExact Exn.eof [b] rfl).bind_ret rfl

theorem reads_u16 (h : Host) (v : UInt16) :
    (readU16 h : StreamM E R Exn UInt16).Reads (u16Bytes v) v := by
  refine (StreamM.reads_readExact Exn.eof (u16Bytes v) (length_beBytes _ _).symm).bind_ret ?_
  refine congrArg Prog.ret (UInt16.toNat_inj.mp ?_)
  rw [u16Bytes, toNat_ntohs_ofMemory h (length_beBytes _ _), ofBe_beBytes_of_lt v.toNat_lt]

theorem reads_u32 (h : Host) (v : UInt32) :
    (readU32 h : StreamM E R Exn UInt32).Reads (u32Bytes v) v := by
  refine (StreamM.reads_readExact Exn.eof (u32Bytes v) (length_beBytes _ _).symm).bind_ret ?_
  refine congrArg Prog.ret (UInt32.toNat_inj.mp ?_)
  rw [u32Bytes, toNat_ntohl_ofMemory h (length_beBytes _ _), ofBe_beBytes_of_lt v.toNat_lt]

theorem reads_u64 (h : Host) (v : UInt64) :
    (readU64 h : StreamM E R Exn UInt64).Reads (u64Bytes v) v := by
  refine (StreamM.reads_readExact Exn.eof (u64Bytes v) (length_beBytes _ _).symm).bind_ret ?_
  refine congrArg Prog.ret (UInt64.toNat_inj.mp ?_)
  rw [u64Bytes, toNat_ntohll_ofMemory h (length_beBytes _ _), ofBe_beBytes_of_lt v.toNat_lt]

theorem reads_string (h : Host) {s : ByteString} (hs : Fits s) :
    (readUtf8String h : StreamM E R Exn ByteString).Reads (stringBytes s) s := by
  have hlen : u16Bytes (UInt16.ofNat s.length) = beBytes 2 s.length := by
    rw [u16Bytes, toNat_ofNat_length hs]
  rw [stringBytes, ← hlen]
  exact (reads_u16 h _).bind (StreamM.reads_readExact Exn.eof s (toNat_ofNat_length hs))

/-- A string that does not fit is refused before anything of it is written. -/
theorem writeUtf8String_of_not_fits (h : Host) {s : ByteString} (hs : ¬Fits s) :
    (writeUtf8String h s : StreamM E R Exn Unit) = .fail .stringTooLong := by
  rw [writeUtf8String, if_pos (Nat.lt_of_not_le hs)]

/-! ### Readers do not write, writers do not read -/

theorem onlyReads_readByte : (readByte : StreamM E R Exn UInt8).OnlyReads :=
  (StreamM.onlyReads_readExact _ _).bind fun _ => trivial

theorem onlyReads_readU16 (h : Host) : (readU16 h : StreamM E R Exn UInt16).OnlyReads :=
  (StreamM.onlyReads_readExact _ _).bind fun _ => trivial

theorem onlyReads_readU32 (h : Host) : (readU32 h : StreamM E R Exn UInt32).OnlyReads :=
  (StreamM.onlyReads_readExact _ _).bind fun _ => trivial

theorem onlyReads_readU64 (h : Host) : (readU64 h : StreamM E R Exn UInt64).OnlyReads :=
  (StreamM.onlyReads_readExact _ _).bind fun _ => trivial

theorem onlyReads_readUtf8String (h : Host) :
    (readUtf8String h : StreamM E R Exn ByteString).OnlyReads :=
  (onlyReads_readU16 h).bind fun _ => StreamM.onlyReads_readExact _ _

theorem onlyWrites_writeByte (b : UInt8) : (writeByte b : StreamM E R Exn Unit).OnlyWrites :=
  StreamM.onlyWrites_writeExact _

theorem onlyWrites_writeU16 (h : Host) (v : UInt16) :
    (writeU16 h v : StreamM E R Exn Unit).OnlyWrites :=
  StreamM.onlyWrites_writeExact _

theorem onlyWrites_writeU32 (h : Host) (v : UInt32) :
    (writeU32 h v : StreamM E R Exn Unit).OnlyWrites :=
  StreamM.onlyWrites_writeExact _

theorem onlyWrites_writeU64 (h : Host) (v : UInt64) :
    (writeU64 h v : StreamM E R Exn Unit).OnlyWrites :=
  StreamM.onlyWrites_writeExact _

theorem onlyWrites_writeUtf8String (h : Host) (s : ByteString) :
    (writeUtf8String h s : StreamM E R Exn Unit).OnlyWrites := by
  rw [writeUtf8String]
  split
  · trivial
  · exact (onlyWrites_writeU16 h _).bind fun _ => StreamM.onlyWrites_writeExact _

/-! ### Readers raise the end of the stream, writers nothing -/

variable {P : Exn → Prop}

theorem raises_readByte (hP : P .eof) : (readByte : StreamM E R Exn UInt8).Raises P :=
  (StreamM.raises_readExact hP 1).bind fun _ => trivial

theorem raises_readU16 (hP : P .eof) (h : Host) : (readU16 h : StreamM E R Exn UInt16).Raises P :=
  (StreamM.raises_readExact hP 2).bind fun _ => trivial

theorem raises_readU32 (hP : P .eof) (h : Host) : (readU32 h : StreamM E R Exn UInt32).Raises P :=
  (StreamM.raises_readExact hP 4).bind fun _ => trivial

theorem raises_readU64 (hP : P .eof) (h : Host) : (readU64 h : StreamM E R Exn UInt64).Raises P :=
  (StreamM.raises_readExact hP 8).bind fun _ => trivial

theorem raises_readUtf8String (hP : P .eof) (h : Host) :
    (readUtf8String h : StreamM E R Exn ByteString).Raises P :=
  (raises_readU16 hP h).bind fun _ => StreamM.raises_readExact hP _

theorem raises_writeUtf8String (h : Host) {s : ByteString} (hs : Fits s) :
    (writeUtf8String h s : StreamM E R Exn Unit).Raises P := by
  rw [writeUtf8String, if_neg (Nat.not_lt.mpr hs)]
  exact (StreamM.raises_writeExact _).bind fun _ => StreamM.raises_writeExact _

end Primitives

end NandroidFS
