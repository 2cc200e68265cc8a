import NandroidFS.Streams.Bytes

/-!
# Network byte order

Multi-byte integers are written to the stream through a pointer to their memory, after a call of
`htons`, `htonl` or `htonll`, and read back the other way round.  What reaches the wire therefore
depends on the byte order of the host and on which `htonll` was compiled in: Winsock's on Windows,
one of the two of `serialization.cpp` elsewhere.

`memory_htons`, `memory_htonl` and `memory_htonll` say that none of this can be seen: whatever the
host, the bytes are those of the value, most significant first.
-/

namespace NandroidFS

/-- The byte order of a machine. -/
inductive Endian where
  | little
  | big
  deriving DecidableEq, Repr

/-- The platforms the serialization code is compiled for.  Windows brings its own `htonll`;
elsewhere `serialization.cpp` defines one, by the byte order of the target. -/
inductive Host where
  | windows
  | unix (order : Endian)
  deriving DecidableEq, Repr

/-- Windows runs on little-endian machines only. -/
def Host.order : Host → Endian
  | .windows => .little
  | .unix order => order

/-- The `n` bytes of memory that hold the value `v`. -/
def memory (order : Endian) (n v : ℕ) : List UInt8 :=
  match order with
  | .little => leBytes n v
  | .big => (leBytes n v).reverse

/-- The value held by the given bytes of memory. -/
def ofMemory (order : Endian) (bs : List UInt8) : ℕ :=
  match order with
  | .little => ofLe bs
  | .big => ofLe bs.reverse

/-- The bytes of `v`, most significant first. -/
def beBytes (n v : ℕ) : List UInt8 :=
  (leBytes n v).reverse

/-- The value with the given bytes, most significant first. -/
def ofBe (bs : List UInt8) : ℕ :=
  ofLe bs.reverse

@[simp] theorem length_beBytes (n v : ℕ) : (beBytes n v).length = n := by
  rw [beBytes, List.length_reverse, length_leBytes]

theorem ofBe_beBytes_of_lt {n v : ℕ} (h : v < 256 ^ n) : ofBe (beBytes n v) = v := by
  rw [ofBe, beBytes, List.reverse_reverse, ofLe_leBytes_of_lt h]

theorem beBytes_ofBe_of_length {n : ℕ} {bs : List UInt8} (h : bs.length = n) :
    beBytes n (ofBe bs) = bs := by
  rw [beBytes, ofBe, leBytes_ofLe_of_length (by rw [List.length_reverse, h]), List.reverse_reverse]

theorem ofBe_lt {n : ℕ} {bs : List UInt8} (h : bs.length = n) : ofBe bs < 256 ^ n := by
  have := ofLe_lt bs.reverse
  rwa [List.length_reverse, h] at this

theorem ofMemory_lt {n : ℕ} (order : Endian) {bs : List UInt8} (h : bs.length = n) :
    ofMemory order bs < 256 ^ n := by
  cases order with
  | little =>
    rw [← h]
    exact ofLe_lt bs
  | big => exact ofBe_lt h

/-- The value whose `n` bytes are those of `v` in the opposite order. -/
def byteSwap (n v : ℕ) : ℕ :=
  ofLe (leBytes n v).reverse

theorem leBytes_byteSwap (n v : ℕ) : leBytes n (byteSwap n v) = beBytes n v := by
  rw [byteSwap, leBytes_ofLe_of_length (by simp), beBytes]

theorem byteSwap_lt (n v : ℕ) : byteSwap n v < 256 ^ n := by
  have := ofLe_lt (leBytes n v).reverse
  rwa [List.length_reverse, length_leBytes] at this

/-- The library's conversions to network order swap the bytes of a little-endian host and do
nothing on a big-endian one. -/
def hton (order : Endian) (n v : ℕ) : ℕ :=
  match order with
  | .little => byteSwap n v
  | .big => v

theorem memory_hton (order : Endian) (n v : ℕ) : memory order n (hton order n v) = beBytes n v := by
  cases order with
  | little => exact leBytes_byteSwap n v
  | big => rfl

def htons (h : Host) (v : UInt16) : UInt16 :=
  UInt16.ofNat (hton h.order 2 v.toNat)

def htonl (h : Host) (v : UInt32) : UInt32 :=
  UInt32.ofNat (hton h.order 4 v.toNat)

/-- `htonll` as each platform has it: Winsock's, the two 32-bit swaps of `serialization.cpp` on a
little-endian target, and the identity on a big-endian one.  The argument of `htonl` is 32 bits
wide, so passing it `v` keeps the low half. -/
def htonll (h : Host) (v : UInt64) : UInt64 :=
  match h with
  | .windows => UInt64.ofNat (hton .little 8 v.toNat)
  | .unix .little =>
      ((htonl h v.toUInt32).toUInt64 <<< 32) ||| (htonl h (v >>> 32).toUInt32).toUInt64
  | .unix .big => v

def ntohs (h : Host) (v : UInt16) : UInt16 :=
  htons h v

def ntohl (h : Host) (v : UInt32) : UInt32 :=
  htonl h v

def ntohll (h : Host) (v : UInt64) : UInt64 :=
  htonll h v

theorem hton_lt {n v : ℕ} (order : Endian) (h : v < 256 ^ n) : hton order n v < 256 ^ n := by
  cases order with
  | little => exact byteSwap_lt n v
  | big => exact h

theorem toNat_htons (h : Host) (v : UInt16) : (htons h v).toNat = hton h.order 2 v.toNat := by
  have hlt := hton_lt (n := 2) h.order v.toNat_lt
  rw [htons, UInt16.toNat_ofNat']
  exact Nat.mod_eq_of_lt hlt

theorem toNat_htonl (h : Host) (v : UInt32) : (htonl h v).toNat = hton h.order 4 v.toNat := by
  have hlt := hton_lt (n := 4) h.order v.toNat_lt
  rw [htonl, UInt32.toNat_ofNat']
  exact Nat.mod_eq_of_lt hlt

/-- The swap by halves puts the swapped low half on top of the swapped high half. -/
theorem toNat_htonll_little (v : UInt64) :
    (htonll (.unix .little) v).toNat =
      byteSwap 4 (v.toNat / 2 ^ 32) + 256 ^ 4 * byteSwap 4 (v.toNat % 2 ^ 32) := by
  have hlo : (htonl (.unix .little) v.toUInt32).toNat = byteSwap 4 (v.toNat % 2 ^ 32) := by
    rw [toNat_htonl, UInt64.toNat_toUInt32]
    rfl
  have hhi : (htonl (.unix .little) (v >>> 32).toUInt32).toNat = byteSwap 4 (v.toNat / 2 ^ 32) := by
    have hv := v.toNat_lt
    rw [toNat_htonl, UInt64.toNat_toUInt32, UInt64.toNat_shiftRight, Nat.shiftRight_eq_div_pow]
    show byteSwap 4 (v.toNat / 2 ^ 32 % 2 ^ 32) = _
    rw [Nat.mod_eq_of_lt (by omega)]
  have h1 := byteSwap_lt 4 (v.toNat % 2 ^ 32)
  have h2 := byteSwap_lt 4 (v.toNat / 2 ^ 32)
  rw [htonll, UInt64.toNat_or, UInt64.toNat_shiftLeft, UInt32.toNat_toUInt64,
    UInt32.toNat_toUInt64, hlo, hhi]
  show byteSwap 4 (v.toNat % 2 ^ 32) <<< 32 % 2 ^ 64 ||| _ = _
  rw [Nat.mod_eq_of_lt (by rw [Nat.shiftLeft_eq]; omega),
    ← Nat.shiftLeft_add_eq_or_of_lt (by omega), Nat.shiftLeft_eq]
  omega

/-- **`htons` emits the most significant byte first.** -/
theorem memory_htons (h : Host) (v : UInt16) :
    memory h.order 2 (htons h v).toNat = beBytes 2 v.toNat := by
  rw [toNat_htons, memory_hton]

/-- **`htonl` emits the most significant byte first.** -/
theorem memory_htonl (h : Host) (v : UInt32) :
    memory h.order 4 (htonl h v).toNat = beBytes 4 v.toNat := by
  rw [toNat_htonl, memory_hton]

/-- **`htonll` emits the most significant byte first**, whichever of the three it is. -/
theorem memory_htonll (h : Host) (v : UInt64) :
    memory h.order 8 (htonll h v).toNat = beBytes 8 v.toNat := by
  match h with
  | .windows =>
    have hlt := hton_lt (n := 8) .little v.toNat_lt
    have : (htonll .windows v).toNat = hton .little 8 v.toNat := by
      rw [htonll, UInt64.toNat_ofNat']
      exact Nat.mod_eq_of_lt hlt
    rw [this]
    exact memory_hton .little 8 v.toNat
  | .unix .big => rfl
  | .unix .little =>
    have hsplit : v.toNat = v.toNat % 2 ^ 32 + 256 ^ 4 * (v.toNat / 2 ^ 32) := by
      have := Nat.mod_add_div v.toNat (2 ^ 32)
      omega
    calc memory .little 8 (htonll (.unix .little) v).toNat
        = leBytes (4 + 4) (byteSwap 4 (v.toNat / 2 ^ 32) +
            256 ^ 4 * byteSwap 4 (v.toNat % 2 ^ 32)) := by rw [toNat_htonll_little]; rfl
      _ = beBytes 4 (v.toNat / 2 ^ 32) ++ beBytes 4 (v.toNat % 2 ^ 32) := by
          rw [leBytes_add _ _ _ _ (byteSwap_lt 4 _), leBytes_byteSwap, leBytes_byteSwap]
      _ = (leBytes 4 (v.toNat % 2 ^ 32) ++ leBytes 4 (v.toNat / 2 ^ 32)).reverse := by
          rw [List.reverse_append]; rfl
      _ = beBytes 8 v.toNat := by
          rw [← leBytes_add _ _ _ _ (by omega), ← hsplit]; rfl

/-- What a conversion from network order computes from the bytes of memory: the value they spell,
most significant first. -/
theorem eq_ofBe_of_memory (order : Endian) {n v : ℕ} {bs : List UInt8} (hv : v < 256 ^ n)
    (hbs : bs.length = n) (h : memory order n v = beBytes n (ofMemory order bs)) :
    v = ofBe bs := by
  cases order with
  | little =>
    have hrev : leBytes n v = bs.reverse := by
      rw [show leBytes n v = memory .little n v from rfl, h, beBytes]
      exact congrArg List.reverse (leBytes_ofLe_of_length hbs)
    rw [ofBe, ← hrev, ofLe_leBytes_of_lt hv]
  | big =>
    have hrev : beBytes n v = bs := by
      rw [show beBytes n v = memory .big n v from rfl, h]
      exact beBytes_ofBe_of_length hbs
    rw [← hrev, ofBe_beBytes_of_lt hv]

theorem toNat_ntohs_ofMemory (h : Host) {bs : List UInt8} (hbs : bs.length = 2) :
    (ntohs h (UInt16.ofNat (ofMemory h.order bs))).toNat = ofBe bs := by
  refine eq_ofBe_of_memory h.order (n := 2) (UInt16.toNat_lt _) hbs ?_
  have hlt : ofMemory h.order bs < 2 ^ 16 := ofMemory_lt h.order hbs
  rw [ntohs, memory_htons, UInt16.toNat_ofNat', Nat.mod_eq_of_lt hlt]

theorem toNat_ntohl_ofMemory (h : Host) {bs : List UInt8} (hbs : bs.length = 4) :
    (ntohl h (UInt32.ofNat (ofMemory h.order bs))).toNat = ofBe bs := by
  refine eq_ofBe_of_memory h.order (n := 4) (UInt32.toNat_lt _) hbs ?_
  have hlt : ofMemory h.order bs < 2 ^ 32 := ofMemory_lt h.order hbs
  rw [ntohl, memory_htonl, UInt32.toNat_ofNat', Nat.mod_eq_of_lt hlt]

theorem toNat_ntohll_ofMemory (h : Host) {bs : List UInt8} (hbs : bs.length = 8) :
    (ntohll h (UInt64.ofNat (ofMemory h.order bs))).toNat = ofBe bs := by
  refine eq_ofBe_of_memory h.order (n := 8) (UInt64.toNat_lt _) hbs ?_
  have hlt : ofMemory h.order bs < 2 ^ 64 := ofMemory_lt h.order hbs
  rw [ntohll, memory_htonll, UInt64.toNat_ofNat', Nat.mod_eq_of_lt hlt]

end NandroidFS
