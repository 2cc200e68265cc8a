import NandroidFS.Shared.Messages
import NandroidFS.Streams.Parsing

/-!
# What the decoders accept

`MessageType.read_write` is about strings that an encoder has made.  The decoders check nothing, so
what they make of any other string is a question of its own.  Here each gets its language: the
integers are in it with all their bytes, and strings with all their lengths.

* `MessageType.parses`: a decoder takes what the encoder of its type emits and nothing else, up to
  the flag of a move, for which every byte but `0` says the same.
-/

namespace NandroidFS

variable {E : Type} {R : E → Type} {W : Type}

/-! ## Primitives -/

theorem parses_readByte :
    (readByte : StreamM E R Exn UInt8).Parses .eof fun bs b => bs = [b] := by
  refine ((StreamM.parses_readExact Exn.eof 1).map fun _ => rfl).congr fun bs b => ?_
  constructor
  · rintro ⟨a, ⟨hlen, rfl⟩, rfl⟩
    obtain ⟨c, rfl⟩ := List.length_eq_one_iff.mp hlen
    rfl
  · rintro rfl
    exact ⟨[b], ⟨rfl, rfl⟩, rfl⟩

theorem parses_readU16 (h : Host) :
    (readU16 h : StreamM E R Exn UInt16).Parses .eof fun bs v => bs = u16Bytes v := by
  refine ((StreamM.parses_readExact Exn.eof 2).map fun _ => rfl).congr fun bs v => ?_
  constructor
  · rintro ⟨a, ⟨hlen, rfl⟩, rfl⟩
    rw [u16Bytes, toNat_ntohs_ofMemory h hlen, beBytes_ofBe_of_length hlen]
  · rintro rfl
    refine ⟨u16Bytes v, ⟨length_beBytes _ _, rfl⟩, UInt16.toNat_inj.mp ?_⟩
    rw [u16Bytes, toNat_ntohs_ofMemory h (length_beBytes _ _), ofBe_beBytes_of_lt v.toNat_lt]

theorem parses_readU32 (h : Host) :
    (readU32 h : StreamM E R Exn UInt32).Parses .eof fun bs v => bs = u32Bytes v := by
  refine ((StreamM.parses_readExact Exn.eof 4).map fun _ => rfl).congr fun bs v => ?_
  constructor
  · rintro ⟨a, ⟨hlen, rfl⟩, rfl⟩
    rw [u32Bytes, toNat_ntohl_ofMemory h hlen, beBytes_ofBe_of_length hlen]
  · rintro rfl
    refine ⟨u32Bytes v, ⟨length_beBytes _ _, rfl⟩, UInt32.toNat_inj.mp ?_⟩
    rw [u32Bytes, toNat_ntohl_ofMemory h (length_beBytes _ _), ofBe_beBytes_of_lt v.toNat_lt]

theorem parses_readU64 (h : Host) :
    (readU64 h : StreamM E R Exn UInt64).Parses .eof fun bs v => bs = u64Bytes v := by
  refine ((StreamM.parses_readExact Exn.eof 8).map fun _ => rfl).congr fun bs v => ?_
  constructor
  · rintro ⟨a, ⟨hlen, rfl⟩, rfl⟩
    rw [u64Bytes, toNat_ntohll_ofMemory h hlen, beBytes_ofBe_of_length hlen]
  · rintro rfl
    refine ⟨u64Bytes v, ⟨length_beBytes _ _, rfl⟩, UInt64.toNat_inj.mp ?_⟩
    rw [u64Bytes, toNat_ntohll_ofMemory h (length_beBytes _ _), ofBe_beBytes_of_lt v.toNat_lt]

theorem parses_readUtf8String (h : Host) :
    (readUtf8String h : StreamM E R Exn ByteString).Parses .eof
      fun bs s => Fits s ∧ bs = stringBytes s := by
  refine ((parses_readU16 h).bind fun length =>
    StreamM.parses_readExact Exn.eof length.toNat).congr fun bs s => ?_
  constructor
  · rintro ⟨_, _, length, rfl, rfl, hlen, rfl⟩
    refine ⟨hlen.trans_le (Nat.le_of_lt_succ length.toNat_lt), ?_⟩
    rw [stringBytes, u16Bytes, hlen]
  · rintro ⟨hs, rfl⟩
    refine ⟨_, s, UInt16.ofNat s.length, ?_, rfl, (toNat_ofNat_length hs).symm, rfl⟩
    rw [stringBytes, u16Bytes, toNat_ofNat_length hs]

/-! ## Messages -/

theorem OpenMode.toByte_ofBits {b : UInt8} (h : b < 64) : (OpenMode.ofBits b h).toByte = b := by
  rw [OpenMode.ofBits]
  split
  · rfl
  · rename_i h5
    have hlt : b.toNat < 5 := by
      rw [UInt8.le_iff_toNat_le] at h5
      exact Nat.lt_of_not_le h5
    split
    · exact UInt8.toNat_inj.mp (Eq.symm ‹_›)
    · exact UInt8.toNat_inj.mp (Eq.symm ‹_›)
    · exact UInt8.toNat_inj.mp (Eq.symm ‹_›)
    · exact UInt8.toNat_inj.mp (Eq.symm ‹_›)
    · rename_i h0 h1 h2 h3
      have h4 : b.toNat = 4 := by
        change ¬b.toNat = 0 at h0
        change ¬b.toNat = 1 at h1
        change ¬b.toNat = 2 at h2
        change ¬b.toNat = 3 at h3
        omega
      exact UInt8.toNat_inj.mp h4.symm

/-- The three fields make up the whole of the packed byte. -/
theorem OpenHandleArgs.repack (b : UInt8) :
    (b &&& 0b00111111) ||| (if (b &&& 0b10000000 != 0) = true then 0b10000000 else 0) |||
      (if (b &&& 0b01000000 != 0) = true then 0b01000000 else 0) = b := by
  have key : ∀ n : ℕ, n < 256 →
      (UInt8.ofNat n &&& 0b00111111) |||
        (if (UInt8.ofNat n &&& 0b10000000 != 0) = true then 0b10000000 else 0) |||
        (if (UInt8.ofNat n &&& 0b01000000 != 0) = true then 0b01000000 else 0) =
          UInt8.ofNat n := by
    decide +kernel
  have := key b.toNat b.toNat_lt
  rwa [UInt8.ofNat_toNat] at this

namespace MessageType

/-- The strings that a decoder takes for a value: what the encoder emits, but that a move may say
with any byte but `0` that it overwrites. -/
def Spells : (t : MessageType) → t.Value → List UInt8 → Prop
  | .moveEntryArgs, a, bs =>
      ∃ b : UInt8, (b != 0) = a.overwrite ∧
        bs = stringBytes a.fromPath ++ (stringBytes a.toPath ++ [b])
  | t, a, bs => bs = t.bytes a

theorem spells_bytes (t : MessageType) (v : t.Value) : t.Spells v (t.bytes v) := by
  cases t with
  | moveEntryArgs =>
    obtain ⟨fromPath, toPath, overwrite⟩ := v
    refine ⟨if overwrite then 1 else 0, ?_, rfl⟩
    cases overwrite <;> rfl
  | _ => rfl

/-- **A decoder takes what the encoder emits and nothing else**: what does not begin with an encoded
value is the beginning of one, and the decoder meets the end of the stream on it. -/
theorem parses (h : Host) (t : MessageType) :
    (t.read h : StreamM E R Exn t.Value).Parses .eof
      fun bs v => (∀ s ∈ t.strings v, Fits s) ∧ t.Spells v bs := by
  have str := parses_readUtf8String (E := E) (R := R) h
  have u32 := parses_readU32 (E := E) (R := R) h
  have u64 := parses_readU64 (E := E) (R := R) h
  cases t with
  | openHandleArgs =>
    refine (str.bind fun _ => parses_readByte.map fun _ => rfl).congr fun bs v => ?_
    constructor
    · rintro ⟨_, _, path, rfl, ⟨hpath, rfl⟩, b, rfl, rfl⟩
      refine ⟨by simpa [strings] using hpath, ?_⟩
      simp only [Spells, bytes, OpenHandleArgs.bytes, OpenHandleArgs.modeAndPerms,
        OpenMode.toByte_ofBits]
      rw [OpenHandleArgs.repack]
    · rintro ⟨hv, rfl⟩
      have hpath : Fits v.path := hv _ (by simp [strings])
      refine ⟨_, _, v.path, rfl, ⟨hpath, rfl⟩, v.modeAndPerms, rfl, ?_⟩
      obtain ⟨path, mode, r, w⟩ := v
      obtain ⟨hr, hw, hm⟩ := OpenHandleArgs.unpack mode.toByte mode.toByte_lt r w
      simp only [OpenHandleArgs.modeAndPerms, OpenHandleArgs.mk.injEq, true_and]
      exact ⟨by simp only [hm, OpenMode.ofBits_toByte], hr.symm, hw.symm⟩
  | readHandleArgs =>
    refine (u32.bind fun _ => u32.bind fun _ => u64.map fun _ => rfl).congr fun bs v => ?_
    constructor
    · rintro ⟨_, _, handle, rfl, rfl, _, _, dataLen, rfl, rfl, offset, rfl, rfl⟩
      exact ⟨by simp [strings], rfl⟩
    · rintro ⟨-, rfl⟩
      exact ⟨_, _, v.handle, rfl, rfl, _, _, v.dataLen, rfl, rfl, v.offset, rfl, rfl⟩
  | writeHandleInitArgs =>
    refine (u32.bind fun _ => u64.bind fun _ => u32.map fun _ => rfl).congr fun bs v => ?_
    constructor
    · rintro ⟨_, _, handle, rfl, rfl, _, _, offset, rfl, rfl, dataLen, rfl, rfl⟩
      exact ⟨by simp [strings], rfl⟩
    · rintro ⟨-, rfl⟩
      exact ⟨_, _, v.handle, rfl, rfl, _, _, v.offset, rfl, rfl, v.dataLen, rfl, rfl⟩
  | moveEntryArgs =>
    refine (str.bind fun _ => str.bind fun _ => parses_readByte.map fun _ => rfl).congr
      fun bs v => ?_
    constructor
    · rintro ⟨_, _, fromPath, rfl, ⟨hf, rfl⟩, _, _, toPath, rfl, ⟨ht, rfl⟩, b, rfl, rfl⟩
      exact ⟨by simpa [strings] using ⟨hf, ht⟩, b, rfl, rfl⟩
    · rintro ⟨hv, b, hb, rfl⟩
      have hf : Fits v.fromPath := hv _ (by simp [strings])
      have ht : Fits v.toPath := hv _ (by simp [strings])
      obtain ⟨fromPath, toPath, overwrite⟩ := v
      obtain rfl : (b != 0) = overwrite := hb
      exact ⟨_, _, fromPath, rfl, ⟨hf, rfl⟩, _, _, toPath, rfl, ⟨ht, rfl⟩, b, rfl, rfl⟩
  | truncateHandleArgs =>
    refine (u32.bind fun _ => u64.map fun _ => rfl).congr fun bs v => ?_
    constructor
    · rintro ⟨_, _, handle, rfl, rfl, newLength, rfl, rfl⟩
      exact ⟨by simp [strings], rfl⟩
    · rintro ⟨-, rfl⟩
      exact ⟨_, _, v.handle, rfl, rfl, v.newLength, rfl, rfl⟩
  | setFileTimeArgs =>
    refine (str.bind fun _ => u64.bind fun _ => u64.map fun _ => rfl).congr fun bs v => ?_
    constructor
    · rintro ⟨_, _, path, rfl, ⟨hpath, rfl⟩, _, _, accessTime, rfl, rfl, writeTime, rfl, rfl⟩
      exact ⟨by simpa [strings] using hpath, rfl⟩
    · rintro ⟨hv, rfl⟩
      have hpath : Fits v.path := hv _ (by simp [strings])
      exact ⟨_, _, v.path, rfl, ⟨hpath, rfl⟩, _, _, v.accessTime.toUInt64, rfl, rfl,
        v.writeTime.toUInt64, rfl, rfl⟩
  | fileStat =>
    refine ((parses_readU16 h).bind fun _ => u64.bind fun _ => u64.bind fun _ =>
      u64.map fun _ => rfl).congr fun bs v => ?_
    constructor
    · rintro ⟨_, _, mode, rfl, rfl, _, _, size, rfl, rfl, _, _, accessTime, rfl, rfl, writeTime,
        rfl, rfl⟩
      exact ⟨by simp [strings], rfl⟩
    · rintro ⟨-, rfl⟩
      exact ⟨_, _, v.mode, rfl, rfl, _, _, v.size, rfl, rfl, _, _, v.accessTime, rfl, rfl,
        v.writeTime, rfl, rfl⟩
  | diskStats =>
    refine (u64.bind fun _ => u64.bind fun _ => u64.map fun _ => rfl).congr fun bs v => ?_
    constructor
    · rintro ⟨_, _, freeBytes, rfl, rfl, _, _, availableBytes, rfl, rfl, totalBytes, rfl, rfl⟩
      exact ⟨by simp [strings], rfl⟩
    · rintro ⟨-, rfl⟩
      exact ⟨_, _, v.freeBytes, rfl, rfl, _, _, v.availableBytes, rfl, rfl, v.totalBytes, rfl, rfl⟩

end MessageType

end NandroidFS
