import NandroidFS.Shared.Endpoint
import NandroidFS.Daemon.Serve
import NandroidFS.Protocol.Exchange

/-!
# Where the two sides fall out of step

The protocol has no lengths and no message ids, so whoever leaves a message half read or half
written shifts everything that follows.  Three places of the source do so, one on the daemon's side
and two on the client's, and this file says exactly when.

* `answersWrite_iff`: a write whose seek fails is answered before its payload has been read.  What
  is left of it is taken for the next request (`run_handleMessage_of_seek_failed`).
* `consumesListing_iff`: a listing is abandoned at the first name that is not UTF-8.
* `sendsAfter_iff`: a request with a path that is too long is abandoned after its type byte, which
  stays in the writer's buffer and goes out before the next request.
-/

namespace NandroidFS

open ClientHandler Connection

/-! ## The payload of a write -/

section Write

variable {K : Type} (call : Kernel K) (h : Host)

/-- **The daemon answers a write cleanly**: it takes exactly the bytes of the request off the
stream, header and payload, whatever follows them, and answers with exactly one status byte. -/
def AnswersWrite (handle : FileHandle) (offset : UInt64) (data : Payload) (k : K) : Prop :=
  ∀ (rwBuffer : List UInt8) (closed : Bool) (v : View K) (rest : List UInt8),
    v.inflow = (Request.writeHandle handle offset data).bytes ++ rest → v.world = k →
      ∃ rwBuffer' status k', StreamM.run call closed (handleMessage h rwBuffer) v =
        (.done (some rwBuffer'), ⟨rest, v.outflow ++ [ResponseStatus.toByte status], true, k'⟩)

variable {call}

/-- A write whose seek fails leaves its payload on the stream, where the next round begins. -/
theorem run_handleMessage_of_seek_failed {handle : FileHandle} {offset : UInt64} {data : Payload}
    (hs : data.1.length < 2 ^ 31) {k : K} {e : Errno}
    (hseek : (call (.lseek handle.toInt32 offset.toInt64) k).1 = .error e) (rwBuffer : List UInt8)
    (closed : Bool) {v : View K} {rest : List UInt8}
    (hin : v.inflow = (Request.writeHandle handle offset data).bytes ++ rest) (hw : v.world = k) :
    StreamM.run call closed (handleMessage h rwBuffer) v =
      (.done (some rwBuffer), ⟨data.1 ++ rest, v.outflow ++ [(getStatusFromErrno e).toByte], true,
        (call (.lseek handle.toInt32 offset.toInt64) k).2⟩) := by
  refine run_handleMessage_of_does h .writeHandle
    (does_handleWriteFile_of_seek_failed h data hseek rwBuffer) closed ?_ hw
  have hint : intLength data.dataLen = data.1.length := by
    rw [intLength_of_lt (by rwa [Payload.toNat_dataLen]), Payload.toNat_dataLen]
  rw [hin, Request.bytes, Request.argBytes, hint, List.take_length, List.cons_append,
    List.append_assoc]
  rfl

variable (call) in
/-- **Exactly the writes that can seek, and the empty ones, are answered cleanly.** -/
theorem answersWrite_iff (handle : FileHandle) (offset : UInt64) (data : Payload)
    (hs : data.1.length < 2 ^ 31) (k : K) :
    AnswersWrite call h handle offset data k ↔
      (call (.lseek handle.toInt32 offset.toInt64) k).1 = .ok () ∨ data.1 = [] := by
  constructor
  · intro hans
    by_contra hcon
    obtain ⟨hseek, hdata⟩ := not_or.mp hcon
    rcases hres : (call (.lseek handle.toInt32 offset.toInt64) k).1 with e | ⟨⟩
    · let v : View K := ⟨(Request.writeHandle handle offset data).bytes ++ [], [], true, k⟩
      obtain ⟨rwBuffer', status, k', hrun⟩ := hans [] false v [] rfl rfl
      rw [run_handleMessage_of_seek_failed h hs hres [] false rfl rfl] at hrun
      have hleft : data.1 ++ [] = [] := congrArg (View.inflow ∘ Prod.snd) hrun
      exact hdata (by rwa [List.append_nil] at hleft)
    · exact hseek hres
  · intro hdrains rwBuffer closed v rest hin hw
    have hfits : (Request.writeHandle handle offset data).Fits := by
      intro s hs
      cases hs
    obtain ⟨rwBuffer', hrun⟩ := run_handleMessage h hfits hs rwBuffer hdrains closed hin hw
    obtain ⟨status, hstatus⟩ := Response.exists_status_of_answers
      (serve_answers call (.writeHandle handle offset data) k) trivial
    refine ⟨rwBuffer', status, (serve call (.writeHandle handle offset data) k).2, ?_⟩
    rw [hrun, hstatus]
    rfl

/-- One byte to a handle that is not open is left on the stream, and is the type of the next
request. -/
theorem not_answersWrite_closed_handle :
    ¬AnswersWrite (Kernel.failing (.other 9)) (.unix .little) 7 0 ⟨[3], by decide⟩ () := by
  intro hans
  let v : View Unit :=
    ⟨(Request.writeHandle 7 0 ⟨[3], by decide⟩).bytes ++ [], [], true, ()⟩
  obtain ⟨rwBuffer', status, k', hrun⟩ := hans [] false v [] rfl rfl
  rw [run_handleMessage_of_seek_failed _ (by decide) rfl [] false rfl rfl] at hrun
  have hleft : ([3] : List UInt8) = [] := congrArg (View.inflow ∘ Prod.snd) hrun
  cases hleft

/-- Two bytes to a file that is open are taken, stored and answered. -/
theorem answersWrite_iff_twoBytes :
    AnswersWrite Kernel.twoFiles (.unix .little) 3 1 ⟨[8, 9], by decide⟩ true :=
  (answersWrite_iff _ _ 3 1 ⟨[8, 9], by decide⟩ (by decide) true).mpr (Or.inl rfl)

end Write

/-! ## The names in a listing -/

section Listing

variable {W : Type} (world : (e : ConnAct) → W → e.Res × W) (h : Host)

/-- The items of a listing. -/
def Response.items : Response → List ListItem
  | .listing items => items
  | _ => []

/-- **The client takes the whole response to a listing**: however the method ends, by return or by
exception, exactly the bytes of the response are gone from the stream. -/
def ConsumesListing (rounds : ℕ) (path : WString) (r : Response) : Prop :=
  ∀ (W : Type) (world : (e : ConnAct) → W → e.Res × W) (closed : Bool) (v : View W)
    (rest : List UInt8), v.inflow = r.bytes ++ rest →
      ∃ out v', StreamM.run world closed ((Call.listFileStats path).locked h rounds) v = (out, v') ∧
        out ≠ .starved ∧ v'.inflow = rest

/-- The loop over the entries stops at the first name that does not convert, with at least the last
byte of the response still to be read. -/
theorem run_readEntries_of_not_converts (dir : ByteString) {items : List ListItem}
    (hbad : ∃ item ∈ items, ¬item.Converts) {rounds : ℕ} (hlen : items.length < rounds)
    (closed : Bool) {v : View W} {rest : List UInt8}
    (hin : v.inflow = items.flatMap ListItem.bytes ++
      (ResponseStatus.noMoreEntries.toByte :: rest)) :
    ∃ v' left,
      StreamM.run world closed (readEntries h dir rounds) v = (.failed .badConversion, v') ∧
      v'.inflow = left ++ (ResponseStatus.noMoreEntries.toByte :: rest) := by
  induction items generalizing rounds v with
  | nil =>
    obtain ⟨item, hitem, -⟩ := hbad
    cases hitem
  | cons item items ih =>
    obtain ⟨rounds, rfl⟩ := Nat.exists_eq_succ_of_ne_zero (Nat.ne_of_gt (Nat.zero_lt_of_lt hlen))
    have hlen' : items.length < rounds := Nat.lt_of_succ_lt_succ hlen
    have htail (hitem : item.Converts) : ∃ item ∈ items, ¬item.Converts := by
      obtain ⟨i, hi, hi'⟩ := hbad
      rcases List.mem_cons.mp hi with rfl | hmem
      · exact absurd hitem hi'
      · exact ⟨i, hmem, hi'⟩
    rw [List.flatMap_cons, List.append_assoc] at hin
    rw [readEntries]
    cases item with
    | skipped status hs =>
      rw [StreamM.run_bind_done _ _ (reads_status status _ world closed v _ hin), if_neg hs.2,
        if_neg hs.1]
      exact ih (htail trivial) hlen' rfl
    | entry name stat =>
      rw [ListItem.bytes, List.cons_append, List.append_assoc] at hin
      have hname := reads_string (E := ConnAct) (R := ConnAct.Res) h (name.2.1.trans (by decide))
      have hstat := stat.reads (E := ConnAct) (R := ConnAct.Res) h
      rw [StreamM.run_bind_done _ _ (reads_status .success _ world closed v _ hin),
        if_neg (by decide), if_pos rfl,
        StreamM.run_bind_done _ _ (hname _ world closed _ _ rfl),
        StreamM.run_bind_done _ _ (hstat _ world closed _ _ rfl)]
      rw [conn, StreamM.run_call_bind]
      rcases hconv : unixPathToWin32 name.1 with _ | fileName
      · exact ⟨_, _, rfl, rfl⟩
      · have hitem : (ListItem.entry name stat).Converts := by
          show (unixPathToWin32 name.1).isSome
          rw [hconv]
          rfl
        let v₁ : View W := ⟨items.flatMap ListItem.bytes ++
          (ResponseStatus.noMoreEntries.toByte :: rest), v.outflow, v.settled,
          (world (.consumeStat stat fileName)
            (world (.putStat (getFullPath dir name.1) stat) v.world).2).2⟩
        have hv₁ : v₁.inflow = items.flatMap ListItem.bytes ++
            (ResponseStatus.noMoreEntries.toByte :: rest) := rfl
        obtain ⟨v', left, hrun, hleft⟩ := ih (htail hitem) hlen' hv₁
        refine ⟨v', left, ?_, hleft⟩
        show StreamM.run world closed (conn (.consumeStat stat fileName) >>= _) _ = _
        rw [conn, StreamM.run_call_bind]
        exact StreamM.run_bind_failed _ _ hrun

/-- The method throws on a name that does not convert, before the end of the response. -/
theorem run_locked_of_not_converts {path : WString} (hfits : Fits (win32PathToUnix path))
    {items : List ListItem} (hbad : ∃ item ∈ items, ¬item.Converts) {rounds : ℕ}
    (hlen : items.length < rounds) (closed : Bool) {v : View W} {rest : List UInt8}
    (hin : v.inflow = (Response.listing items).bytes ++ rest) :
    ∃ v' left, StreamM.run world closed ((Call.listFileStats path).locked h rounds) v =
        (.failed .badConversion, v') ∧
      v'.inflow = left ++ (ResponseStatus.noMoreEntries.toByte :: rest) := by
  have hwrites : (Request.write h (.listDirectory (win32PathToUnix path)) : ConnM Unit).Writes
      (Request.listDirectory (win32PathToUnix path)).bytes () := by
    refine Request.writes h fun s hs => ?_
    rw [List.mem_singleton.mp hs]
    exact hfits
  rw [Response.bytes, Response.payload, List.cons_append, List.append_assoc] at hin
  let sent : View W :=
    ⟨v.inflow, v.outflow ++ (Request.listDirectory (win32PathToUnix path)).bytes, true, v.world⟩
  have hstatus := reads_status .success _ world closed sent _ hin
  obtain ⟨v', left, hrun, hleft⟩ := run_readEntries_of_not_converts world h
    (win32PathToUnix path) hbad hlen closed (v := { sent with inflow := _ }) rfl
  refine ⟨v', left, ?_, hleft⟩
  show StreamM.run world closed (Request.write h _ >>= _) v = _
  rw [StreamM.run_bind_done _ _ (hwrites _ world closed v), StreamM.run_flush_bind]
  show StreamM.run world closed (receiveListing h rounds _) sent = _
  rw [receiveListing, StreamM.run_bind_done _ _ hstatus, if_neg (not_not.mpr rfl)]
  exact StreamM.run_bind_failed _ _ hrun

/-- A listing with a name that does not convert is not taken to its end. -/
theorem not_consumesListing {path : WString} (hfits : Fits (win32PathToUnix path))
    {items : List ListItem} (hbad : ∃ item ∈ items, ¬item.Converts) {rounds : ℕ}
    (hlen : items.length < rounds) : ¬ConsumesListing h rounds path (.listing items) := by
  intro hcons
  let v : View Unit := ⟨(Response.listing items).bytes ++ [], [], true, ()⟩
  obtain ⟨out, v', hrun, -, hempty⟩ := hcons Unit uncached true v [] rfl
  obtain ⟨v'', left, hrun', hleft⟩ :=
    run_locked_of_not_converts uncached h hfits hbad hlen true (v := v) rfl
  obtain rfl : v' = v'' := (Prod.mk.inj (hrun.symm.trans hrun')).2
  rw [hempty] at hleft
  exact List.cons_ne_nil _ _ (List.append_eq_nil_iff.mp hleft.symm).2

variable {K : Type}

/-- **Exactly the listings whose names are all UTF-8 are taken from the stream to their end.** -/
theorem consumesListing_iff (call : Kernel K) (k : K) {path : WString}
    (hfits : Fits (win32PathToUnix path)) {rounds : ℕ}
    (hrounds : (serve call (.listDirectory (win32PathToUnix path)) k).1.items.length < rounds) :
    ConsumesListing h rounds path (serve call (.listDirectory (win32PathToUnix path)) k).1 ↔
      ∀ name stat, ListItem.entry name stat ∈
        (serve call (.listDirectory (win32PathToUnix path)) k).1.items →
          (utf8Decode? name.1).isSome := by
  set r := (serve call (.listDirectory (win32PathToUnix path)) k).1 with hr
  have hans : r.Answers (.listDirectory (win32PathToUnix path)) := serve_answers call _ k
  have hq : (Call.listFileStats path).request.Fits := by
    intro s hs
    rw [List.mem_singleton.mp hs]
    exact hfits
  constructor
  · intro hcons name stat hmem
    by_contra hname
    cases hr' : r with
    | listing items =>
      rw [hr'] at hcons hmem hrounds
      have hbad : ∃ item ∈ items, ¬item.Converts := by
        refine ⟨.entry name stat, hmem, ?_⟩
        rwa [ListItem.converts_entry]
      exact not_consumesListing h hfits hbad hrounds hcons
    | _ =>
      rw [hr'] at hmem
      cases hmem
  · intro hnames W world closed v rest hin
    have hleg : r.Legible rounds := by
      cases hr' : r with
      | listing items =>
        rw [hr'] at hnames hrounds
        refine ⟨hrounds, fun item hitem => ?_⟩
        cases item with
        | skipped status hs => trivial
        | entry name stat => exact ListItem.converts_entry.mpr (hnames name stat hitem)
      | _ => trivial
    have hquiet : ¬(Call.listFileStats path).Quiet world v.world := id
    obtain ⟨w', hex⟩ := (Call.listFileStats path).exchanges_locked h hquiet hq trivial hans hleg
    refine ⟨_, _, hex closed v rest hin rfl, ?_, rfl⟩
    rintro ⟨⟩

/-- A directory with the given names, all of them of empty files. -/
def Kernel.directory (names : List EntryName) : Kernel Unit := fun e k =>
  match e with
  | .opendir _ => (.ok names, k)
  | .stat _ => (.ok ⟨0, 0, 0, 0⟩, k)
  | e => Kernel.failing .enoent e k

/-- The directory `/` with one file, whose name is the byte `0xFF`. -/
theorem not_consumesListing_ff : ¬ConsumesListing .windows 2 [47]
    (serve (Kernel.directory [⟨[0xFF], by decide⟩]) (.listDirectory (win32PathToUnix [47]))
      ()).1 := by
  have hbad : ∃ item ∈ [ListItem.entry ⟨[0xFF], by decide⟩ ⟨0, 0, 0, 0⟩], ¬item.Converts := by
    refine ⟨_, List.mem_singleton_self _, ?_⟩
    rw [ListItem.converts_entry]
    decide
  exact not_consumesListing .windows (by decide) hbad (by decide)

/-- A directory with the one file `a` is listed to its end. -/
theorem consumesListing_iff_ascii : ConsumesListing .windows 2 [47]
    (serve (Kernel.directory [⟨[97], by decide⟩])
      (.listDirectory (win32PathToUnix [47])) ()).1 := by
  refine (consumesListing_iff _ _ () (by decide) (by decide)).mpr ?_
  intro name stat hmem
  obtain ⟨rfl, -⟩ := ListItem.entry.inj (List.mem_singleton.mp hmem)
  decide

end Listing

/-! ## A request that is given up -/

section Aborted

variable {W : Type} (world : (e : ConnAct) → W → e.Res × W) (h : Host)

/-- Two calls one after the other on the same connection, whatever becomes of the first. -/
def inTurn (c next : Call) (rounds rounds' : ℕ) (endpoint : Endpoint) :
    SocketM ConnAct ConnAct.Res (Except Exn Reply × Except Exn Reply) := do
  let first ← StreamM.compile (c.locked h rounds) endpoint
  let second ← StreamM.compile (next.locked h rounds') first.2
  return (first.1, second.1)

/-- **A call that is given up while it is serialised leaves nothing behind**: from idle buffers,
whichever call comes next, nothing reaches the daemon but the bytes of that call. -/
def AbortsCleanly (c : Call) (w : W) : Prop :=
  ∀ (next : Call) (rounds rounds' : ℕ) (endpoint : Endpoint) (input : List UInt8),
    next.request.Fits → endpoint.Idle →
      SocketM.Safe world true
        (fun x _ _ sent => x.1 = .error .stringTooLong → sent = [] ∨ sent = next.request.bytes)
        (inTurn h c next rounds rounds' endpoint) w input []

variable {world}

/-- Giving up at the first string leaves the type byte. -/
theorem run_write_of_fail {q : Request} {f : Unit → ConnM Unit} {s : ByteString}
    (hrest : q.writeRest h = (writeUtf8String h s >>= f)) (hs : ¬Fits s) (closed : Bool)
    (v : View W) : StreamM.run world closed (q.write h) v =
      (.failed .stringTooLong,
        { v with outflow := v.outflow ++ [q.type.toByte], settled := false }) := by
  rw [Request.write, hrest, writeUtf8String_of_not_fits h hs]
  rfl

/-- **A request with a path that does not fit is given up with some of it already written.** -/
theorem run_write_of_not_fits {q : Request} (hq : ¬q.Fits) (closed : Bool) (v : View W) :
    ∃ junk, junk ≠ [] ∧ StreamM.run world closed (q.write h) v =
      (.failed .stringTooLong, { v with outflow := v.outflow ++ junk, settled := false }) := by
  have single {s : ByteString} (hq : ¬∀ t ∈ [s], Fits t) : ¬Fits s := by
    intro hs
    refine hq fun t ht => ?_
    rwa [List.mem_singleton.mp ht]
  have first {s : ByteString} {f : Unit → ConnM Unit} (hs : ¬Fits s)
      (hrest : q.writeRest h = (writeUtf8String h s >>= f)) :
      ∃ junk, junk ≠ [] ∧ StreamM.run world closed (q.write h) v =
        (.failed .stringTooLong, { v with outflow := v.outflow ++ junk, settled := false }) :=
    ⟨_, List.cons_ne_nil _ _, run_write_of_fail h hrest hs closed v⟩
  cases q with
  | statFile s => exact first (single hq) (Prog.bind_ret _).symm
  | listDirectory s => exact first (single hq) (Prog.bind_ret _).symm
  | createDirectory s => exact first (single hq) (Prog.bind_ret _).symm
  | checkRemoveFile s => exact first (single hq) (Prog.bind_ret _).symm
  | checkRemoveDirectory s => exact first (single hq) (Prog.bind_ret _).symm
  | removeFile s => exact first (single hq) (Prog.bind_ret _).symm
  | removeDirectory s => exact first (single hq) (Prog.bind_ret _).symm
  | openHandle args => exact first (single hq) rfl
  | setFileTime args => exact first (single hq) rfl
  | moveEntry args =>
    by_cases hfrom : Fits args.fromPath
    · -- the first path has been written too
      have hto : ¬Fits args.toPath := by
        intro hto
        refine hq fun t ht => ?_
        rcases List.mem_cons.mp ht with rfl | ht
        · exact hfrom
        · rwa [List.mem_singleton.mp ht]
      refine ⟨(Request.moveEntry args).type.toByte :: stringBytes args.fromPath,
        List.cons_ne_nil _ _, ?_⟩
      have hwrites : (do writeByte (Request.moveEntry args).type.toByte
                         writeUtf8String h args.fromPath : ConnM Unit).Writes
          ([(Request.moveEntry args).type.toByte] ++ stringBytes args.fromPath) () :=
        (writes_byte _).bind (writes_string h hfrom)
      have hsplit : ((Request.moveEntry args).write h : ConnM Unit) =
          (do writeByte (Request.moveEntry args).type.toByte
              writeUtf8String h args.fromPath : ConnM Unit) >>= fun _ => .fail .stringTooLong := by
        rw [bind_assoc, Request.write, Request.writeRest, MoveEntryArgs.write,
          writeUtf8String_of_not_fits h hto]
        rfl
      rw [hsplit, StreamM.run_bind_done _ _ (hwrites _ world closed v)]
      rfl
    · exact first hfrom rfl
  | closeHandle handle => exact (hq fun t ht => nomatch ht).elim
  | readHandle args => exact (hq fun t ht => nomatch ht).elim
  | writeHandle handle offset data => exact (hq fun t ht => nomatch ht).elim
  | truncateHandle args => exact (hq fun t ht => nomatch ht).elim
  | getDiskStats => exact (hq fun t ht => nomatch ht).elim

/-! ### What comes after the request is sent -/

/-- The exception is not that of a string too long. -/
abbrev OtherExn (e : Exn) : Prop := e ≠ .stringTooLong

theorem otherExn_eof : OtherExn .eof :=
  fun h => Exn.noConfusion h

theorem raises_conn (e : ConnAct) : (conn e).Raises OtherExn :=
  fun _ => trivial

theorem raises_readStatus : readStatus.Raises OtherExn :=
  (raises_readByte otherExn_eof).bind fun _ => trivial

theorem raises_readEntries (dir : ByteString) (rounds : ℕ) :
    (readEntries h dir rounds).Raises OtherExn := by
  induction rounds with
  | zero => exact fun h => Exn.noConfusion h
  | succ rounds ih =>
    rw [readEntries]
    refine raises_readStatus.bind fun entryStatus => ?_
    split
    · trivial
    · split
      · refine (raises_readUtf8String otherExn_eof h).bind fun name => ?_
        refine (MessageType.fileStat.raises_read otherExn_eof h).bind fun stat => ?_
        refine (raises_conn _).bind fun _ => ?_
        rcases unixPathToWin32 name with _ | fileName
        · exact fun h => Exn.noConfusion h
        · exact (raises_conn _).bind fun _ => ih.bind fun _ => trivial
      · exact ih

theorem raises_invalidateParentDir (path : ByteString) :
    (invalidateParentDir path).Raises OtherExn := by
  rw [invalidateParentDir]
  rcases getParentPath path with _ | parent
  · trivial
  · refine (raises_conn _).bind fun b => ?_
    cases b
    · trivial
    · exact raises_conn _

/-- Calls to the caches come and go without a trace on the stream. -/
theorem run_silent_bind {p : ConnM Unit} {w w' : W} (hp : StreamM.Receives world p w [] () w')
    (f : ConnM Reply) (closed : Bool) {v : View W} (hv : v.world = w) :
    StreamM.run world closed (p >>= fun _ => f) v =
      StreamM.run world closed f { v with world := w' } :=
  StreamM.run_bind_done _ _ (hp closed v v.inflow rfl hv)

variable (world) in
/-- After calls to its caches, the method serialises its request and flushes it, and whatever it
raises from there on is not about the request. -/
def Call.Sends (c : Call) (w : W) (rounds : ℕ) : Prop :=
  ∃ (w' : W) (receive : ConnM Reply), receive.Raises OtherExn ∧ ∀ (closed : Bool) (v : View W),
    v.world = w → StreamM.run world closed (c.locked h rounds) v =
      StreamM.run world closed (do c.request.write h; StreamM.flush; receive)
        { v with world := w' }

/-- **A method that asks the daemon sends its request.** -/
theorem Call.sends_of_not_quiet {c : Call} {w : W} (hquiet : ¬c.Quiet world w) (rounds : ℕ) :
    c.Sends world h w rounds := by
  have hstatus : (do return .status (← readStatus) : ConnM Reply).Raises OtherExn :=
    raises_readStatus.bind fun _ => trivial
  have plain (receive : ConnM Reply) (hreceive : receive.Raises OtherExn)
      (heq : c.locked h rounds = (do c.request.write h; StreamM.flush; receive)) :
      c.Sends world h w rounds := by
    refine ⟨w, receive, hreceive, ?_⟩
    rintro closed v rfl
    rw [heq]
  have entry (path : ByteString) (heq : c.locked h rounds = (do
      invalidateStat path; invalidateParentDir path; exchangeStatus h c.request)) :
      c.Sends world h w rounds := by
    obtain ⟨w₁, h₁⟩ := receives_invalidateStat world path w
    obtain ⟨w₂, h₂⟩ := receives_invalidateParentDir world path w₁
    refine ⟨w₂, _, hstatus, fun closed v hv => ?_⟩
    rw [heq, run_silent_bind h₁ _ closed hv, run_silent_bind h₂ _ closed rfl]
    rfl
  cases c with
  | statFile path =>
    obtain ⟨hmiss, hini⟩ := not_or.mp hquiet
    rw [Option.not_isSome_iff_eq_none] at hmiss
    refine ⟨(world (.getStat (win32PathToUnix path)) w).2, receiveStat h (win32PathToUnix path),
      ?_, ?_⟩
    · refine raises_readStatus.bind fun status => ?_
      split
      · trivial
      · exact (MessageType.fileStat.raises_read otherExn_eof h).bind fun _ =>
          (raises_conn _).bind fun _ => trivial
    · rintro closed v rfl
      show StreamM.run world closed (conn (.getStat (win32PathToUnix path)) >>= _) v = _
      rw [conn, StreamM.run_call_bind, hmiss]
      simp only [if_neg hini]
      rfl
  | listFileStats path =>
    refine plain (receiveListing h rounds (win32PathToUnix path)) ?_ rfl
    refine raises_readStatus.bind fun status => ?_
    split
    · trivial
    · exact (raises_readEntries h _ _).bind fun _ => (raises_conn _).bind fun _ => trivial
  | moveEntry fromPath toPath replaceIfExists =>
    obtain ⟨w₁, h₁⟩ := receives_invalidateStat world (win32PathToUnix fromPath) w
    obtain ⟨w₂, h₂⟩ := receives_invalidateParentDir world (win32PathToUnix fromPath) w₁
    obtain ⟨w₃, h₃⟩ := receives_invalidateStat world (win32PathToUnix toPath) w₂
    obtain ⟨w₄, h₄⟩ := receives_invalidateParentDir world (win32PathToUnix toPath) w₃
    refine ⟨w₄, _, hstatus, fun closed v hv => ?_⟩
    show StreamM.run world closed (invalidateStat (win32PathToUnix fromPath) >>= _) v = _
    rw [run_silent_bind h₁ _ closed hv, run_silent_bind h₂ _ closed rfl,
      run_silent_bind h₃ _ closed rfl, run_silent_bind h₄ _ closed rfl]
    rfl
  | removeFile path => exact entry _ rfl
  | canRemoveFile path => exact plain _ hstatus rfl
  | removeDirectory path => exact entry _ rfl
  | canRemoveDirectory path => exact plain _ hstatus rfl
  | createDirectory path => exact entry _ rfl
  | openFile path mode readAccess writeAccess =>
    have hini : ¬endsWithDesktopIni (win32PathToUnix path) = true := hquiet
    refine plain (do
      let reply ← receiveHandle h
      if mode.Creates then
        invalidateParentDir (win32PathToUnix path)
        return reply
      else return reply) ?_ ?_
    · refine Prog.Raises.bind (raises_readStatus.bind fun status => ?_) fun reply => ?_
      · split
        · exact (raises_readU32 otherExn_eof h).bind fun _ => trivial
        · trivial
      · split
        · exact (raises_invalidateParentDir _).bind fun _ => trivial
        · trivial
    · simp only [Call.locked, reqOpenFile]
      rw [if_neg hini]
      rfl
  | closeFile fileHandle => exact plain _ hstatus rfl
  | writeToFile fileHandle fileOffset data => exact plain _ hstatus rfl
  | readFromFile fileHandle fileOffset bufferLen =>
    refine plain (receiveData h) (raises_readStatus.bind fun status => ?_) rfl
    split
    · exact (raises_readU32 otherExn_eof h).bind fun _ =>
        (StreamM.raises_readExact otherExn_eof _).bind fun _ => trivial
    · trivial
  | setFileLen fileHandle fileLen => exact plain _ hstatus rfl
  | setFileTime path accessTime writeTime =>
    obtain ⟨w₁, h₁⟩ := receives_invalidateStat world (win32PathToUnix path) w
    refine ⟨w₁, _, hstatus, fun closed v hv => ?_⟩
    show StreamM.run world closed (invalidateStat (win32PathToUnix path) >>= _) v = _
    rw [run_silent_bind h₁ _ closed hv]
    rfl
  | getDiskStats =>
    refine plain (receiveDiskStats h) (raises_readStatus.bind fun status => ?_) rfl
    split
    · exact (MessageType.diskStats.raises_read otherExn_eof h).bind fun _ => trivial
    · trivial

/-! ### When it is given up -/

/-- A call whose paths fit is not given up while it is serialised. -/
theorem Call.run_locked_of_fits {c : Call} {w : W} (hc : c.Quiet world w ∨ c.request.Fits)
    (rounds : ℕ) (closed : Bool) (v : View W) (hv : v.world = w) :
    (StreamM.run world closed (c.locked h rounds) v).1 ≠ .failed .stringTooLong := by
  intro hfail
  have hrun : StreamM.run world closed (c.locked h rounds) v = (.failed .stringTooLong, _) :=
    Prod.ext hfail rfl
  by_cases hquiet : c.Quiet world w
  · obtain ⟨reply, w', hrecv⟩ := c.receives_of_quiet h hquiet rounds
    rw [hrecv closed v v.inflow rfl hv] at hrun
    cases (Prod.mk.inj hrun).1
  · obtain ⟨w', receive, hraises, hsend⟩ := Call.sends_of_not_quiet h hquiet rounds
    have hwrites : (c.request.write h : ConnM Unit).Writes c.request.bytes () :=
      Request.writes h (hc.resolve_left hquiet)
    rw [hsend closed v hv, StreamM.run_bind_done _ _ (hwrites _ world closed _),
      StreamM.run_flush_bind] at hrun
    exact StreamM.raises_of_run _ _ hraises hrun rfl

/-- Any other call that asks the daemon is, and some of it is left in the writer. -/
theorem Call.run_locked_of_not_fits {c : Call} {w : W} (hquiet : ¬c.Quiet world w)
    (hq : ¬c.request.Fits) (rounds : ℕ) (closed : Bool) {v : View W} (hv : v.world = w) :
    ∃ junk w', junk ≠ [] ∧ StreamM.run world closed (c.locked h rounds) v =
      (.failed .stringTooLong, ⟨v.inflow, v.outflow ++ junk, false, w'⟩) := by
  obtain ⟨w', receive, -, hsend⟩ := Call.sends_of_not_quiet h hquiet rounds
  obtain ⟨junk, hjunk, hrun⟩ := run_write_of_not_fits h hq closed { v with world := w' }
  refine ⟨junk, w', hjunk, ?_⟩
  rw [hsend closed v hv, StreamM.run_bind_failed _ _ hrun]

/-- On a closed stream every run comes to an end. -/
theorem run_closed_ne_starved {α : Type} (p : ConnM α) (v : View W) :
    (StreamM.run world true p v).1 ≠ .starved := by
  induction p generalizing v with
  | ret a => rintro ⟨⟩
  | fail e => rintro ⟨⟩
  | act e k ih =>
    cases e with
    | readExact n =>
      rw [StreamM.run_readExact_act]
      split
      · exact ih _ _
      · exact ih _ _
    | writeExact bs => exact ih _ _
    | flush => exact ih _ _
    | call e => exact ih _ _

/-- The first of two calls ends as it does on whole streams, and the second starts from there. -/
theorem safe_inTurn (c next : Call) (rounds rounds' : ℕ) (endpoint : Endpoint) (w : W)
    (input : List UInt8) {Q : Outcome Exn Reply → Outcome Exn Reply → View W → Prop}
    (hQ : let first := StreamM.run world true (c.locked h rounds) (endpoint.view w input [])
      let second := StreamM.run world true (next.locked h rounds') first.2
      Q first.1 second.1 second.2) :
    SocketM.Safe world true
      (fun x w' i o => ∃ (s : Endpoint) (v : View W), s.Shows w' i o v ∧
        Q (Outcome.ofExcept x.1) (Outcome.ofExcept x.2) v)
      (inTurn h c next rounds rounds' endpoint) w input [] := by
  rw [inTurn, SocketM.safe_bind]
  refine (StreamM.safe_compile _ (endpoint.shows_view w input []) rfl
    (run_closed_ne_starved _ _)).mono ?_
  rintro x w₁ i o ⟨hx, hshows⟩
  rw [SocketM.safe_bind]
  refine (StreamM.safe_compile _ hshows rfl (run_closed_ne_starved _ _)).mono ?_
  rintro y w₂ i₂ o₂ ⟨hy, hshows₂⟩
  refine ⟨y.2, _, hshows₂, ?_⟩
  rw [← hx, ← hy]
  exact hQ

/-- A call that is given up shows in whatever is asked next. -/
theorem not_abortsCleanly {c : Call} {w : W} (hquiet : ¬c.Quiet world w) (hq : ¬c.request.Fits) :
    ¬AbortsCleanly world h c w := by
  intro hclean
  let endpoint := Endpoint.new 16 (by decide)
  have hsafe := hclean .getDiskStats 0 0 endpoint [] (fun t ht => nomatch ht)
    (Endpoint.idle_new _ _)
  obtain ⟨junk, w', hjunk, hrun⟩ := Call.run_locked_of_not_fits h hquiet hq 0 true
    (v := endpoint.view w [] []) rfl
  have hsafe' := safe_inTurn h c .getDiskStats 0 0 endpoint w []
    (Q := fun first _ v => first = .failed .stringTooLong ∧ v.settled = true ∧
      v.outflow = junk ++ Request.getDiskStats.bytes) (by rw [hrun]; exact ⟨rfl, rfl, rfl⟩)
  obtain ⟨x, w₁, i, o, hpost, s, v, hshows, hfirst, hset, hout⟩ := (hsafe.and hsafe').exists_post
  have hsent : o = junk ++ Request.getDiskStats.bytes := by
    rw [← hout, hshows.outflow, hshows.settled hset, List.append_nil]
  have herr : x.1 = .error .stringTooLong := by
    rcases hx : x.1 with e | reply
    · rw [hx] at hfirst
      rw [Outcome.failed.inj hfirst]
    · rw [hx] at hfirst
      cases hfirst
  rcases hpost herr with hnil | hbytes
  · rw [hsent] at hnil
    exact hjunk (List.append_eq_nil_iff.mp hnil).1
  · rw [hsent] at hbytes
    exact hjunk (List.append_left_eq_self.mp hbytes)

variable (world) in
/-- **Exactly the calls whose paths can be written, or that need no daemon, leave nothing
behind.** -/
theorem abortsCleanly_iff (c : Call) (w : W) :
    AbortsCleanly world h c w ↔ c.Quiet world w ∨ c.request.Fits := by
  constructor
  · intro hclean
    by_contra hcon
    obtain ⟨hquiet, hq⟩ := not_or.mp hcon
    exact not_abortsCleanly h hquiet hq hclean
  · intro hc next rounds rounds' endpoint input hnext hidle
    refine (safe_inTurn h c next rounds rounds' endpoint w input
      (Q := fun first _ _ => first ≠ .failed .stringTooLong) ?_).mono ?_
    · exact Call.run_locked_of_fits h hc rounds true _ rfl
    · rintro x w₁ i o ⟨s, v, -, hfirst⟩ herr
      rw [herr] at hfirst
      exact (hfirst rfl).elim

/-- A path of `n` characters that take three bytes each. -/
theorem not_fits_replicate {n : ℕ} (hn : 65536 < 3 * n) :
    ¬Fits (win32PathToUnix (List.replicate n 0x4E00)) := by
  have hunits : (List.replicate n (0x4E00 : UInt16)).takeWhile (· ≠ 0) =
      List.replicate n 0x4E00 := by
    rw [List.takeWhile_replicate]
    rfl
  have hchars : utf16Decode (List.replicate n 0x4E00) = List.replicate n (charOfUnit 0x4E00) := by
    clear hn hunits
    induction n with
    | zero => rfl
    | succ n ih =>
      rw [List.replicate_succ, utf16Decode_cons (by decide), ih, List.replicate_succ]
  have hbytes : (utf8Encode (List.replicate n (charOfUnit 0x4E00))).length = 3 * n := by
    have hchar : (String.utf8EncodeChar (charOfUnit 0x4E00)).length = 3 := by decide
    rw [utf8Encode, List.length_flatMap, List.map_replicate, hchar, List.sum_replicate_nat,
      Nat.mul_comm]
  intro hfits
  unfold win32PathToUnix Fits at hfits
  simp only [hunits, hchars] at hfits
  split at hfits
  · rw [List.length_dropLast, List.length_map, hbytes] at hfits
    omega
  · rw [List.length_map, hbytes] at hfits
    omega

/-- A file whose path has 22000 characters, of three bytes each, is to be removed. -/
theorem not_abortsCleanly_removeFile :
    ¬AbortsCleanly uncached .windows (.removeFile (List.replicate 22000 0x4E00)) () :=
  not_abortsCleanly .windows id fun hfits =>
    not_fits_replicate (by decide) (hfits _ (List.mem_singleton_self _))

end Aborted

end NandroidFS
