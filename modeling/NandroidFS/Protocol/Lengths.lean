import NandroidFS.Daemon.Serve
import NandroidFS.Protocol.Exchange

/-!
# Lengths

The length of a write or a read is a number of 32 bits without a sign.  On its way it becomes an
`int` four times: `write_exact` and `read_exact` take one, and so do the counters of the loops.
From `2 ^ 31` on it is negative there, and loops that run while a length is positive do nothing.

`logging` is a kernel that also notes the pieces that are moved.  What has been noted is what was
stored or read, and the lengths of its beginnings are the values of the counters.

* `writeAgrees_iff`: the lengths of a write agree on both sides exactly if it is shorter than
  `2 ^ 31` bytes and its seek succeeds.
* `readAgrees_iff`: the lengths of a read agree exactly if its calls of `read` bring fewer than
  `2 ^ 31` bytes, which a shorter read never exceeds.
-/

namespace NandroidFS

open ClientHandler

/-! ## The pieces that are moved -/

section Logging

variable {K : Type} (call : Kernel K)

/-- The bytes that a call has moved. -/
def moved : (e : Syscall) → e.Res → List (List UInt8)
  | .write _ buf, .ok n => [buf.take n.1]
  | .read _ _, .ok bs => [bs.1]
  | _, _ => []

/-- The kernel, with a log of the pieces that have been moved. -/
def logging : Kernel (K × List (List UInt8)) := fun e s =>
  ((call e s.1).1, (call e s.1).2, s.2 ++ moved e (call e s.1).1)

/-- The values that a counter of the moved bytes has had are below `2 ^ 31`. -/
def CountersFit (log : List (List UInt8)) : Prop :=
  ∀ before, before <+: log → before.flatten.length < 2 ^ 31

theorem countersFit_of_flatten {log : List (List UInt8)} (h : log.flatten.length < 2 ^ 31) :
    CountersFit log := by
  rintro before ⟨after, rfl⟩
  rw [List.flatten_append, List.length_append] at h
  omega

/-- What `writeAll` moves is a beginning of the data, and all of it if it succeeds. -/
theorem writeAll_logging (fd : Int32) (rounds : ℕ) (data : List UInt8) (k : K)
    (log : List (List UInt8)) : ∃ pieces,
      (writeAll (logging call) fd rounds data (k, log)).2.2 = log ++ pieces ∧
      pieces.flatten <+: data ∧
      (data.length ≤ rounds → (writeAll (logging call) fd rounds data (k, log)).1 = .ok () →
        pieces.flatten = data) := by
  induction rounds generalizing data k log with
  | zero =>
    refine ⟨[], (List.append_nil log).symm, List.nil_prefix, fun hlen _ => ?_⟩
    exact (List.length_eq_zero_iff.mp (Nat.le_zero.mp hlen)).symm
  | succ rounds ih =>
    rw [writeAll]
    by_cases hdata : data = []
    · rw [if_pos hdata]
      exact ⟨[], (List.append_nil log).symm, List.nil_prefix, fun _ _ => hdata.symm⟩
    · rw [if_neg hdata]
      simp only [logging]
      rcases hwrite : (call (.write fd data) k).1 with e | n
      · refine ⟨[], rfl, List.nil_prefix, fun _ h => ?_⟩
        cases h
      · obtain ⟨pieces, hlog, hprefix, hall⟩ :=
          ih (data.drop n.1) (call (.write fd data) k).2 (log ++ [data.take n.1])
        have hpos := n.2.2 hdata
        refine ⟨data.take n.1 :: pieces, ?_, ?_, fun hlen hok => ?_⟩
        · rw [List.append_cons]
          exact hlog
        · rw [List.flatten_cons]
          conv_rhs => rw [← List.take_append_drop n.1 data]
          exact (List.prefix_append_right_inj _).mpr hprefix
        · rw [List.flatten_cons, hall ?_ hok, List.take_append_drop]
          rw [List.length_drop]
          omega

/-- The bytes that `read` brings when it is called until `left` bytes are there, the file ends or
a call fails. -/
def brought (fd : Int32) : (calls left : ℕ) → K → List UInt8
  | 0, _, _ => []
  | calls + 1, left, k =>
      match (call (.read fd left) k).1 with
      | .error _ => []
      | .ok bs =>
          if bs.1 = [] then []
          else bs.1 ++ brought fd calls (left - bs.1.length) (call (.read fd left) k).2

/-- The number of bytes that the calls of `read` bring for a read, none if its seek fails. -/
def bytesBrought (args : ReadHandleArgs) (k : K) : ℕ :=
  match (call (.lseek args.handle.toInt32 args.offset.toInt64) k).1 with
  | .error _ => 0
  | .ok () =>
      (brought call args.handle.toInt32 (args.dataLen.toNat + 1) args.dataLen.toNat
        (call (.lseek args.handle.toInt32 args.offset.toInt64) k).2).length

theorem length_brought_le (fd : Int32) (calls left : ℕ) (k : K) :
    (brought call fd calls left k).length ≤ left := by
  induction calls generalizing left k with
  | zero => exact Nat.zero_le left
  | succ calls ih =>
    rw [brought]
    rcases (call (.read fd left) k).1 with e | ⟨chunk, hchunk⟩
    · exact Nat.zero_le left
    · by_cases hempty : chunk = []
      · simp only [if_pos hempty]
        exact Nat.zero_le left
      · simp only [if_neg hempty, List.length_append]
        have hrest := ih (left - chunk.length) (call (.read fd left) k).2
        omega

/-- No read brings more than was asked for. -/
theorem bytesBrought_le (args : ReadHandleArgs) (k : K) :
    bytesBrought call args k ≤ args.dataLen.toNat := by
  rw [bytesBrought]
  split
  · exact Nat.zero_le _
  · exact length_brought_le call _ _ _ _

theorem brought_zero (fd : Int32) (calls : ℕ) (k : K) : brought call fd calls 0 k = [] :=
  List.length_eq_zero_iff.mp (Nat.le_zero.mp (length_brought_le call fd calls 0 k))

/-- What `readAll` moves is what the calls bring, and what it returns if it returns anything. -/
theorem readAll_logging (fd : Int32) (rounds left : ℕ) (k : K) (log : List (List UInt8)) :
    ∃ pieces, (readAll (logging call) fd rounds left (k, log)).2.2 = log ++ pieces ∧
      pieces.flatten = brought call fd rounds left k ∧
      ∀ bs, (readAll (logging call) fd rounds left (k, log)).1 = .ok bs → pieces.flatten = bs := by
  have stop (log : List (List UInt8)) : ∃ pieces : List (List UInt8),
      log = log ++ pieces ∧ pieces.flatten = [] ∧
      ∀ bs, (Except.ok [] : Except Errno (List UInt8)) = .ok bs → pieces.flatten = bs :=
    ⟨[], (List.append_nil log).symm, rfl, fun bs h => Except.ok.inj h⟩
  induction rounds generalizing left k log with
  | zero => exact stop log
  | succ rounds ih =>
    rw [readAll]
    by_cases hleft : left = 0
    · rw [if_pos hleft, hleft, brought_zero]
      exact stop log
    · rw [if_neg hleft, brought]
      simp only [logging]
      rcases hread : (call (.read fd left) k).1 with e | ⟨chunk, hchunk⟩
      · refine ⟨[], rfl, rfl, fun bs h => ?_⟩
        cases h
      · by_cases hempty : chunk = []
        · subst hempty
          exact ⟨[[]], rfl, rfl, fun bs h => Except.ok.inj h⟩
        · simp only [if_neg hempty, if_neg (mt List.length_eq_zero_iff.mp hempty)]
          obtain ⟨pieces, hlog, hpieces, hall⟩ :=
            ih (left - chunk.length) (call (.read fd left) k).2 (log ++ [chunk])
          refine ⟨chunk :: pieces, ?_, ?_, fun bs hbs => ?_⟩
          · rw [List.append_cons]
            exact hlog
          · rw [List.flatten_cons, hpieces]
          · replace hbs : (readAll (logging call) fd rounds (left - chunk.length)
              ((call (.read fd left) k).2, log ++ [chunk])).1.map (chunk ++ ·) = .ok bs := hbs
            rcases hrest : (readAll (logging call) fd rounds (left - chunk.length)
              ((call (.read fd left) k).2, log ++ [chunk])).1 with e | more
            · rw [hrest] at hbs
              cases hbs
            · rw [hrest] at hbs
              rw [List.flatten_cons, hall more hrest]
              exact Except.ok.inj hbs

end Logging

/-- A length is a positive `int` below `2 ^ 31`, and no other is itself as an `int`. -/
theorem toInt_toInt32_iff (length : UInt32) :
    length.toInt32.toInt = length.toNat ↔ length.toNat < 2 ^ 31 := by
  have hlt := length.toNat_lt
  rw [toInt_toInt32, Int.bmod_def]
  omega

/-! ## Writes -/

section Write

variable {K : Type} (call : Kernel K) (h h' : Host) (handle : FileHandle) (offset : UInt64)
  (data : Payload) (k : K)

/-- **The lengths of a write agree.**  `h` is the client's machine and `h'` the daemon's. -/
structure WriteAgrees : Prop where
  /-- What the client sends after the header is as long as the header says. -/
  sent : ∃ payload, ((Request.writeHandle handle offset data).write h : ConnM Unit).Writes
    (RequestType.writeHandle.toByte :: ((Request.writeArgs handle offset data).bytes ++ payload))
      () ∧ payload.length = (Request.writeArgs handle offset data).dataLen.toNat
  /-- The daemon takes as much off the stream, and if it answers with success it has stored just
  that.  Its counter stays in range. -/
  taken : ∀ rwBuffer closed (v : View (K × List (List UInt8))) rest,
    v.inflow = (Request.writeArgs handle offset data).bytes ++ (data.1 ++ rest) →
    v.world = (k, []) → ∃ rwBuffer' status settled k' log,
      StreamM.run (logging call) closed (handleWriteFile h' rwBuffer) v =
        (.done rwBuffer',
          ⟨rest, v.outflow ++ [ResponseStatus.toByte status], settled, (k', log)⟩) ∧
      (status = .success → log.flatten = data.1) ∧ CountersFit log
  /-- The `int` that is passed to `write_exact` and to `read_exact`. -/
  length : data.dataLen.toInt32.toInt = data.dataLen.toNat

variable {call h h' handle offset data k}

variable (call handle offset data k) in
/-- What the daemon stores of a write is a beginning of it, and all of it if it says so. -/
theorem serve_logging_write : ∃ status k' log,
    serve (logging call) (.writeHandle handle offset data) (k, []) =
      (.status status, (k', log)) ∧
    log.flatten <+: data.1 ∧ (status = .success → log.flatten = data.1) := by
  simp only [serve]
  rcases hseek : (logging call (.lseek handle.toInt32 offset.toInt64) (k, [])).1 with e | ⟨⟩
  · refine ⟨_, _, [], rfl, List.nil_prefix, fun h => ?_⟩
    exact (getStatusFromErrno_ne_success e h).elim
  · obtain ⟨log, hlog, hprefix, hall⟩ := writeAll_logging call handle.toInt32 data.1.length
      data.1 (call (.lseek handle.toInt32 offset.toInt64) k).2 []
    refine ⟨_, _, log, Prod.ext rfl (Prod.ext rfl hlog), hprefix, fun h => ?_⟩
    refine hall le_rfl ?_
    rcases hwrite : (writeAll (logging call) handle.toInt32 data.1.length data.1
      ((call (.lseek handle.toInt32 offset.toInt64) k).2, [])).1 with e | ⟨⟩
    · have hstatus : statusOf (.error e) = .success := hwrite ▸ h
      exact (getStatusFromErrno_ne_success e hstatus).elim
    · rfl

theorem writeAgrees_of_lt (hlen : data.1.length < 2 ^ 31)
    (hseek : (call (.lseek handle.toInt32 offset.toInt64) k).1 = .ok () ∨ data.1 = []) :
    WriteAgrees call h h' handle offset data k := by
  have hnat : data.dataLen.toNat < 2 ^ 31 := by rwa [Payload.toNat_dataLen]
  have hint : intLength data.dataLen = data.1.length := by
    rw [intLength_of_lt hnat, Payload.toNat_dataLen]
  have hargs : (Request.writeHandle handle offset data).argBytes =
      (Request.writeArgs handle offset data).bytes ++ data.1 := by
    rw [Request.argBytes, hint, List.take_length]
  refine ⟨⟨data.1, ?_, (Payload.toNat_dataLen data).symm⟩, ?_, (toInt_toInt32_iff _).mpr hnat⟩
  · have hwrites := Request.writes (E := ConnAct) (R := ConnAct.Res) h
      (q := .writeHandle handle offset data) (fun s hs => absurd hs List.not_mem_nil)
    rw [Request.bytes, hargs] at hwrites
    exact hwrites
  · intro rwBuffer closed v rest hin hw
    obtain ⟨rwBuffer', hdoes⟩ := @does_handleWriteFile _ (logging call) h' handle offset data hlen
      rwBuffer (k, []) hseek
    rw [hargs] at hdoes
    obtain ⟨settled, hrun⟩ := hdoes closed v rest (by rw [hin, List.append_assoc]) hw
    obtain ⟨status, k', log, hserve, hprefix, hall⟩ :=
      serve_logging_write call handle offset data k
    rw [hserve] at hrun
    refine ⟨rwBuffer', status, settled, k', log, hrun, hall, countersFit_of_flatten ?_⟩
    exact lt_of_le_of_lt hprefix.length_le hlen

/-- A write whose seek fails is answered with its payload still on the stream. -/
theorem seek_of_writeAgrees (hagrees : WriteAgrees call h h' handle offset data k) :
    (call (.lseek handle.toInt32 offset.toInt64) k).1 = .ok () ∨ data.1 = [] := by
  rcases hseek : (call (.lseek handle.toInt32 offset.toInt64) k).1 with e | ⟨⟩
  · right
    let v : View (K × List (List UInt8)) :=
      ⟨(Request.writeArgs handle offset data).bytes ++ (data.1 ++ []), [], true, (k, [])⟩
    obtain ⟨rwBuffer', status, settled, k', log, hrun, -⟩ := hagrees.taken [] true v [] rfl rfl
    obtain ⟨settled', hfailed⟩ := @does_handleWriteFile_of_seek_failed _ (logging call) h' _ _ data
      (k, []) _ hseek [] true v (data.1 ++ []) rfl rfl
    rw [hfailed] at hrun
    have hleft : data.1 ++ [] = [] := congrArg (View.inflow ∘ Prod.snd) hrun
    rwa [List.append_nil] at hleft
  · exact .inl rfl

variable (call h h' handle offset data k) in
/-- **The lengths of a write agree** exactly if it is shorter than `2 ^ 31` bytes and its seek
succeeds, or there is nothing to write. -/
theorem writeAgrees_iff : WriteAgrees call h h' handle offset data k ↔
    data.dataLen.toNat < 2 ^ 31 ∧
      ((call (.lseek handle.toInt32 offset.toInt64) k).1 = .ok () ∨ data.1 = []) := by
  constructor
  · intro hagrees
    exact ⟨(toInt_toInt32_iff _).mp hagrees.length, seek_of_writeAgrees hagrees⟩
  · rintro ⟨hlen, hseek⟩
    rw [Payload.toNat_dataLen] at hlen
    exact writeAgrees_of_lt hlen hseek

end Write

/-! ## Reads -/

section Read

variable {K : Type} (call : Kernel K) (h : Host) (args : ReadHandleArgs) (k : K)

/-- **The lengths of a read agree.**  The daemon's counter stays in range, and where it answers with
a count and data, the count is that of the data, the data is what was read, and the client's `int`
is the count. -/
def ReadAgrees : Prop :=
  ∀ rwBuffer closed (v : View (K × List (List UInt8))) rest, v.inflow = args.bytes ++ rest →
    v.world = (k, []) → ∃ rwBuffer' out settled k' log,
      StreamM.run (logging call) closed (handleReadFile h rwBuffer) v =
        (.done rwBuffer', ⟨rest, v.outflow ++ out, settled, (k', log)⟩) ∧
      CountersFit log ∧
      ∀ count payload, out = ResponseStatus.success.toByte :: (u32Bytes count ++ payload) →
        payload.length = count.toNat ∧ payload = log.flatten ∧
          count.toInt32.toInt = count.toNat

/-- What the daemon answers to a read is what its calls have brought, or a status. -/
theorem serve_logging_read : ∃ response k' log,
    serve (logging call) (.readHandle args) (k, []) = (response, (k', log)) ∧
    log.flatten.length = bytesBrought call args k ∧
    ((∃ status, response = .status status) ∨ response = .data log.flatten) := by
  simp only [serve, bytesBrought]
  rcases hseek : (call (.lseek args.handle.toInt32 args.offset.toInt64) k).1 with e | ⟨⟩
  · simp only [logging, hseek]
    exact ⟨_, _, [], rfl, rfl, .inl ⟨_, rfl⟩⟩
  · obtain ⟨log, hlog, hlen, hall⟩ := readAll_logging call args.handle.toInt32
      (args.dataLen.toNat + 1) args.dataLen.toNat
      (call (.lseek args.handle.toInt32 args.offset.toInt64) k).2 []
    have hsought : logging call (.lseek args.handle.toInt32 args.offset.toInt64) (k, []) =
        (.ok (), (call (.lseek args.handle.toInt32 args.offset.toInt64) k).2, []) :=
      Prod.ext hseek rfl
    simp only [hsought]
    refine ⟨_, _, log, Prod.ext rfl (Prod.ext rfl hlog), congrArg List.length hlen, ?_⟩
    split
    · exact .inl ⟨_, rfl⟩
    · next bs hbs =>
      rw [hall bs hbs]
      exact .inr rfl

theorem u32Bytes_inj {a b : UInt32} (hab : u32Bytes a = u32Bytes b) : a = b := by
  have hlt (c : UInt32) : c.toNat < 256 ^ 4 := c.toNat_lt
  rw [← UInt32.toNat_inj, ← ofBe_beBytes_of_lt (hlt a), ← ofBe_beBytes_of_lt (hlt b)]
  exact congrArg ofBe hab

theorem readAgrees_of_lt (hlen : bytesBrought call args k < 2 ^ 31) :
    ReadAgrees call h args k := by
  intro rwBuffer closed v rest hin hw
  obtain ⟨rwBuffer', hdoes⟩ := @does_handleReadFile _ (logging call) h args rwBuffer (k, [])
  obtain ⟨settled, hrun⟩ := hdoes closed v rest hin hw
  obtain ⟨response, k', log, hserve, hread, hcase⟩ := serve_logging_read call args k
  rw [hserve] at hrun
  have hlog : log.flatten.length < 2 ^ 31 := hread ▸ hlen
  refine ⟨rwBuffer', response.bytes, settled, k', log, hrun, countersFit_of_flatten hlog, ?_⟩
  intro count payload hout
  rcases hcase with ⟨status, rfl⟩ | rfl
  · have hcut := congrArg List.length hout
    simp [Response.bytes, Response.payload, u32Bytes] at hcut
  · have hnat : (UInt32.ofNat log.flatten.length).toNat = log.flatten.length := by
      rw [UInt32.toNat_ofNat']
      omega
    have hint : intLength (UInt32.ofNat log.flatten.length) = log.flatten.length := by
      rw [intLength_of_lt (by omega), hnat]
    rw [Response.bytes, Response.payload, hint, List.take_length] at hout
    have htail := (List.cons.inj hout).2
    obtain ⟨hcount, rfl⟩ := List.append_inj htail (by simp [u32Bytes])
    obtain rfl := u32Bytes_inj hcount
    exact ⟨hnat.symm, rfl, (toInt_toInt32_iff _).mpr (by omega)⟩

/-- A counter that stays in range has counted fewer than `2 ^ 31` bytes in the end. -/
theorem lt_of_readAgrees (hagrees : ReadAgrees call h args k) :
    bytesBrought call args k < 2 ^ 31 := by
  let v : View (K × List (List UInt8)) := ⟨args.bytes ++ [], [], true, (k, [])⟩
  obtain ⟨rwBuffer', out, settled, k', log, hrun, hfit, -⟩ := hagrees [] true v [] rfl rfl
  obtain ⟨rwBuffer'', hdoes⟩ := @does_handleReadFile _ (logging call) h args [] (k, [])
  obtain ⟨settled', hrun'⟩ := hdoes true v [] rfl rfl
  obtain ⟨response, k'', log', hserve, hread, -⟩ := serve_logging_read call args k
  rw [hrun, hserve] at hrun'
  have hlog : log = log' := congrArg (Prod.snd ∘ View.world ∘ Prod.snd) hrun'
  rw [← hread, ← hlog]
  exact hfit log List.prefix_rfl

/-- **The lengths of a read agree** exactly if its calls of `read` bring fewer than `2 ^ 31`
bytes. -/
theorem readAgrees_iff : ReadAgrees call h args k ↔ bytesBrought call args k < 2 ^ 31 :=
  ⟨lt_of_readAgrees call h args k, readAgrees_of_lt call h args k⟩

end Read

/-- A device on which every file is full of zeros, without an end. -/
def Kernel.zeros : Kernel Unit
  | .lseek _ _ => fun k => (.ok (), k)
  | .read _ count => fun k => (.ok ⟨List.replicate count 0, by rw [List.length_replicate]⟩, k)
  | e => Kernel.failing .eacces e

/-- Such a device brings all that is asked for. -/
theorem bytesBrought_zeros (args : ReadHandleArgs) :
    bytesBrought Kernel.zeros args () = args.dataLen.toNat := by
  simp only [bytesBrought, Kernel.zeros, brought]
  by_cases hlen : args.dataLen.toNat = 0
  · rw [hlen]
    rfl
  · rw [if_neg (by simpa using hlen), List.length_replicate, Nat.sub_self, brought_zero,
      List.append_nil, List.length_replicate]

/-- The lengths of the reads of a given length agree on every device exactly if it is below
`2 ^ 31`. -/
theorem forall_readAgrees_iff (h : Host) (dataLen : UInt32) :
    (∀ (K : Type) (call : Kernel K) (k : K) handle offset,
      ReadAgrees call h ⟨handle, dataLen, offset⟩ k) ↔ dataLen.toNat < 2 ^ 31 := by
  constructor
  · intro hagrees
    have hlt := (readAgrees_iff Kernel.zeros h _ ()).mp (hagrees Unit Kernel.zeros () 0 0)
    rwa [bytesBrought_zeros] at hlt
  · intro hlen K call k handle offset
    exact readAgrees_of_lt call h _ k (lt_of_le_of_lt (bytesBrought_le call _ k) hlen)

/-! ## Both -/

/-- **The lengths on the wire, in the counters and in the parameters agree** for a write exactly if
it is shorter than `2 ^ 31` bytes and its seek succeeds (or there is nothing to write), and for a
read exactly if its calls of `read` bring fewer than `2 ^ 31` bytes.  On every device they do for a
read that asks for fewer, and for no other. -/
theorem lengths_agree_iff (h h' : Host) :
    (∀ (K : Type) (call : Kernel K) (k : K) (handle : FileHandle) (offset : UInt64)
      (data : Payload), WriteAgrees call h h' handle offset data k ↔
        data.dataLen.toNat < 2 ^ 31 ∧
          ((call (.lseek handle.toInt32 offset.toInt64) k).1 = .ok () ∨ data.1 = [])) ∧
    (∀ (K : Type) (call : Kernel K) (k : K) (args : ReadHandleArgs),
      ReadAgrees call h' args k ↔ bytesBrought call args k < 2 ^ 31) ∧
    ∀ dataLen : UInt32, (∀ (K : Type) (call : Kernel K) (k : K) handle offset,
      ReadAgrees call h' ⟨handle, dataLen, offset⟩ k) ↔ dataLen.toNat < 2 ^ 31 :=
  ⟨fun _ call k handle offset data => writeAgrees_iff call h h' handle offset data k,
    fun _ call k args => readAgrees_iff call h' args k, forall_readAgrees_iff h'⟩

/-- Two gigabytes of zeros. -/
def twoGigabytes : Payload :=
  ⟨List.replicate (2 ^ 31) 0, by rw [List.length_replicate]; decide⟩

/-- Nothing is sent of them, although the header says that they follow. -/
theorem not_writeAgrees_twoGigabytes :
    ¬ WriteAgrees Kernel.zeros .windows (.unix .little) 3 0 twoGigabytes () ∧
      twoGigabytes.dataLen.toNat = 2 ^ 31 ∧
      (Request.writeHandle 3 0 twoGigabytes).bytes = RequestType.writeHandle.toByte ::
        (Request.writeArgs 3 0 twoGigabytes).bytes := by
  have hlen : twoGigabytes.dataLen.toNat = 2 ^ 31 := by
    rw [Payload.toNat_dataLen, twoGigabytes, List.length_replicate]
  refine ⟨fun hagrees => ?_, hlen, ?_⟩
  · have hlt := (toInt_toInt32_iff _).mp hagrees.length
    omega
  · rw [Request.bytes, Request.argBytes, intLength_of_le (by omega), List.take_zero,
      List.append_nil]
    rfl

end NandroidFS
