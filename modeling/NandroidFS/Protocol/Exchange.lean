import NandroidFS.Client.Connection

/-!
# What a method of the client exchanges

Every method that goes to the daemon does the same: it calls its caches, sends the bytes of its
request, and reads the bytes of the response.  `exchanges_locked` says so for all fifteen, for
every response that answers the request, and whatever the caches say.

* `Call.Quiet`: the calls that are answered without asking the daemon.
* `Response.Legible`: the responses that the client can read to the end.  A listing is read to the
  end if the names of its entries are UTF-8.
* `locked_writesThenReads`: a method sends the whole of its request before it reads.
-/

namespace NandroidFS

open Connection

section Receiving

variable {W : Type} (world : (e : ConnAct) → W → e.Res × W)

/-- The call is answered under the mutex without asking the daemon. -/
def Call.Quiet (w : W) : Call → Prop
  | .statFile path =>
      (world (.getStat (win32PathToUnix path)) w).1.isSome ∨
        endsWithDesktopIni (win32PathToUnix path) = true
  | .openFile path _ _ _ => endsWithDesktopIni (win32PathToUnix path) = true
  | _ => False

instance (w : W) (c : Call) : Decidable (c.Quiet world w) := by
  cases c <;> unfold Call.Quiet <;> infer_instance

/-- The name of the entry can be shown to Windows. -/
def ListItem.Converts : ListItem → Prop
  | .skipped _ _ => True
  | .entry name _ => (unixPathToWin32 name.1).isSome

theorem ListItem.converts_entry {name : EntryName} {stat : FileStat} :
    (ListItem.entry name stat).Converts ↔ (utf8Decode? name.1).isSome := by
  show (unixPathToWin32 name.1).isSome ↔ _
  rw [unixPathToWin32, wstringFromString, Option.isSome_map, Option.isSome_map]

/-- The client reads the response to its end within the given bound. -/
def Response.Legible (rounds : ℕ) : Response → Prop
  | .listing items => items.length < rounds ∧ ∀ item ∈ items, item.Converts
  | _ => True

/-- Only the answer to a listing can be illegible. -/
theorem Response.legible_of_answers {q : Request} (hq : ∀ path, q ≠ .listDirectory path)
    {r : Response} (hr : r.Answers q) (rounds : ℕ) : r.Legible rounds := by
  cases r with
  | listing items =>
    cases q with
    | listDirectory path => exact (hq path rfl).elim
    | _ => exact hr.elim
  | _ => trivial

variable {world}

theorem reads_status (s : ResponseStatus) : readStatus.Reads [s.toByte] s :=
  (reads_byte _).bind_ret (congrArg Prog.ret (ResponseStatus.ofByte_toByte s))

/-- Reading the status and what it announces. -/
theorem receives_readStatus {β : Type} {f : ResponseStatus → ConnM β} {r : Response} {b : β}
    {w w' : W} (hf : StreamM.Receives world (f r.code) w r.payload b w') :
    StreamM.Receives world (readStatus >>= f) w r.bytes b w' :=
  (reads_status r.code).then_receives hf

variable (world) in
theorem receives_invalidateStat (path : ByteString) (w : W) :
    ∃ w', StreamM.Receives world (invalidateStat path) w [] () w' := by
  rcases hhas : (world (.hasStat path) w).1 with _ | _
  · refine ⟨(world (.hasStat path) w).2, StreamM.Receives.call_bind ?_⟩
    rw [hhas]
    exact StreamM.Receives.ret _ _
  · refine ⟨(world (.eraseStat path) (world (.hasStat path) w).2).2,
      StreamM.Receives.call_bind ?_⟩
    rw [hhas]
    exact StreamM.receives_call _ _

variable (world) in
theorem receives_invalidateList (path : ByteString) (w : W) :
    ∃ w', StreamM.Receives world (invalidateList path) w [] () w' := by
  rcases hhas : (world (.hasList path) w).1 with _ | _
  · refine ⟨(world (.hasList path) w).2, StreamM.Receives.call_bind ?_⟩
    rw [hhas]
    exact StreamM.Receives.ret _ _
  · refine ⟨(world (.eraseList path) (world (.hasList path) w).2).2,
      StreamM.Receives.call_bind ?_⟩
    rw [hhas]
    exact StreamM.receives_call _ _

variable (world) in
theorem receives_invalidateParentDir (path : ByteString) (w : W) :
    ∃ w', StreamM.Receives world (invalidateParentDir path) w [] () w' := by
  rw [invalidateParentDir]
  rcases getParentPath path with _ | parent
  · exact ⟨w, StreamM.Receives.ret _ _⟩
  · exact receives_invalidateList world parent w

variable (h : Host)

variable (world) in
/-- A listing is read item by item. -/
theorem receives_readEntries (dir : ByteString) (items : List ListItem) {rounds : ℕ}
    (hlen : items.length < rounds) (hconv : ∀ item ∈ items, item.Converts) (w : W) :
    ∃ w', StreamM.Receives world (readEntries h dir rounds) w
      (items.flatMap ListItem.bytes ++ [ResponseStatus.noMoreEntries.toByte])
      (items.filterMap ListItem.entry?) w' := by
  induction items generalizing rounds w with
  | nil =>
    obtain ⟨rounds, rfl⟩ := Nat.exists_eq_succ_of_ne_zero (Nat.ne_of_gt hlen)
    exact ⟨w, (reads_status .noMoreEntries).then_receives (StreamM.Receives.ret _ _)⟩
  | cons item items ih =>
    obtain ⟨rounds, rfl⟩ := Nat.exists_eq_succ_of_ne_zero (Nat.ne_of_gt (Nat.zero_lt_of_lt hlen))
    have hlen' : items.length < rounds := Nat.lt_of_succ_lt_succ hlen
    have hconv' : ∀ item ∈ items, item.Converts := fun i hi => hconv i (List.mem_cons_of_mem _ hi)
    have hitem := hconv item List.mem_cons_self
    rw [List.flatMap_cons, List.append_assoc, readEntries]
    cases item with
    | skipped status hs =>
      obtain ⟨w', hw'⟩ := ih hlen' hconv' w
      refine ⟨w', (reads_status status).then_receives ?_⟩
      rw [if_neg hs.2, if_neg hs.1]
      exact hw'
    | entry name stat =>
      obtain ⟨fileName, hname⟩ := Option.isSome_iff_exists.mp hitem
      obtain ⟨w', hw'⟩ := ih hlen' hconv'
        (world (.consumeStat stat fileName)
          (world (.putStat (getFullPath dir name.1) stat) w).2).2
      rw [ListItem.bytes, List.cons_append, List.append_assoc]
      refine ⟨w', (reads_status .success).then_receives ?_⟩
      rw [if_neg (by decide), if_pos rfl]
      refine (reads_string h (name.2.1.trans (by decide))).then_receives
        ((stat.reads h).then_receives (StreamM.Receives.call_bind ?_))
      simp only [hname]
      exact StreamM.Receives.call_bind (hw'.bind_ret rfl)

/-! ## Method by method -/

theorem exchanges_exchangeStatus {q : Request} (hq : q.Fits) (s : ResponseStatus) (w : W) :
    StreamM.Exchanges world (exchangeStatus h q) w q.bytes (Response.status s).bytes
      (.status s) w :=
  (Request.writes h hq).then_receives (((reads_status s).receives w).bind_ret rfl)

variable (world) in
theorem receives_receiveStat {path : ByteString} {r : Response} (hr : r.Answers (.statFile path))
    (w : W) : ∃ w', StreamM.Receives world (receiveStat h path) w r.bytes r.reply w' := by
  cases r with
  | status s =>
    refine ⟨w, receives_readStatus ?_⟩
    have hne : (Response.status s).code ≠ .success := hr
    rw [if_pos hne]
    exact StreamM.Receives.ret _ _
  | stat st =>
    refine ⟨(world (.putStat path st) w).2, receives_readStatus ?_⟩
    have hok : (Response.stat st).code = .success := rfl
    rw [if_neg (not_not.mpr hok)]
    refine ((st.reads h).receives w).bind_nil ?_
    exact StreamM.Receives.call_bind (StreamM.Receives.ret _ _)
  | listing items => exact hr.elim
  | opened handle => exact hr.elim
  | data bs => exact hr.elim
  | disk stats => exact hr.elim

variable (world) in
theorem receives_receiveListing {path : ByteString} {r : Response}
    (hr : r.Answers (.listDirectory path)) {rounds : ℕ} (hleg : r.Legible rounds) (w : W) :
    ∃ w', StreamM.Receives world (receiveListing h rounds path) w r.bytes r.reply w' := by
  cases r with
  | status s =>
    refine ⟨w, receives_readStatus ?_⟩
    have hne : (Response.status s).code ≠ .success := hr
    rw [if_pos hne]
    exact StreamM.Receives.ret _ _
  | listing items =>
    obtain ⟨w', hw'⟩ := receives_readEntries world h path items hleg.1 hleg.2 w
    refine ⟨(world (.putList path ((items.filterMap ListItem.entry?).map Prod.fst)) w').2,
      receives_readStatus ?_⟩
    have hok : (Response.listing items).code = .success := rfl
    rw [if_neg (not_not.mpr hok)]
    exact hw'.bind_nil (StreamM.Receives.call_bind (StreamM.Receives.ret _ _))
  | stat st => exact hr.elim
  | opened handle => exact hr.elim
  | data bs => exact hr.elim
  | disk stats => exact hr.elim

variable (world) in
theorem receives_receiveHandle {args : OpenHandleArgs} {r : Response}
    (hr : r.Answers (.openHandle args)) (w : W) :
    StreamM.Receives world (receiveHandle h) w r.bytes r.reply w := by
  cases r with
  | status s =>
    refine receives_readStatus ?_
    have hne : (Response.status s).code ≠ .success := hr
    rw [if_neg hne]
    exact StreamM.Receives.ret _ _
  | opened handle =>
    refine receives_readStatus ?_
    have hok : (Response.opened handle).code = .success := rfl
    rw [if_pos hok]
    exact ((reads_u32 h handle).receives w).bind_ret rfl
  | stat st => exact hr.elim
  | listing items => exact hr.elim
  | data bs => exact hr.elim
  | disk stats => exact hr.elim

theorem receives_receiveData {args : ReadHandleArgs} (hs : (Request.readHandle args).Sized)
    {r : Response} (hr : r.Answers (.readHandle args)) (w : W) :
    StreamM.Receives world (receiveData h) w r.bytes r.reply w := by
  cases r with
  | status s =>
    refine receives_readStatus ?_
    have hne : (Response.status s).code ≠ .success := hr
    rw [if_neg hne]
    exact StreamM.Receives.ret _ _
  | data bs =>
    have hlt : bs.length < 2 ^ 31 := lt_of_le_of_lt hr hs
    have hlen : (UInt32.ofNat bs.length).toNat = bs.length := by
      rw [UInt32.toNat_ofNat']
      exact Nat.mod_eq_of_lt (by omega)
    have hint : intLength (UInt32.ofNat bs.length) = bs.length := by
      rw [intLength_of_lt (by omega), hlen]
    refine receives_readStatus ?_
    have hok : (Response.data bs).code = .success := rfl
    rw [if_pos hok, Response.payload, hint, List.take_length]
    exact (reads_u32 h _).then_receives
      (((StreamM.reads_readExact Exn.eof bs hint).receives w).bind_ret rfl)
  | stat st => exact hr.elim
  | listing items => exact hr.elim
  | opened handle => exact hr.elim
  | disk stats => exact hr.elim

theorem receives_receiveDiskStats {r : Response} (hr : r.Answers .getDiskStats) (w : W) :
    StreamM.Receives world (receiveDiskStats h) w r.bytes r.reply w := by
  cases r with
  | status s =>
    refine receives_readStatus ?_
    have hne : (Response.status s).code ≠ .success := hr
    rw [if_neg hne]
    exact StreamM.Receives.ret _ _
  | disk stats =>
    refine receives_readStatus ?_
    have hok : (Response.disk stats).code = .success := rfl
    rw [if_pos hok]
    exact ((stats.reads h).receives w).bind_ret rfl
  | stat st => exact hr.elim
  | listing items => exact hr.elim
  | opened handle => exact hr.elim
  | data bs => exact hr.elim

/-- The requests that are answered by a status alone. -/
def Request.StatusOnly : Request → Prop
  | .statFile _ => False
  | .listDirectory _ => False
  | .openHandle _ => False
  | .readHandle _ => False
  | .getDiskStats => False
  | _ => True

theorem Response.exists_status_of_answers {q : Request} {r : Response} (hr : r.Answers q)
    (hq : q.StatusOnly) : ∃ s, r = .status s := by
  cases q <;> first | exact hq.elim | skip
  all_goals cases r <;> first | exact hr.elim | exact ⟨_, rfl⟩

/-- **A method that asks the daemon exchanges its request for the response.**  Whatever the caches
say, it sends exactly the bytes of its request, reads exactly the bytes of the response, and
returns what the response says. -/
theorem Call.exchanges_locked {c : Call} {w : W} (hquiet : ¬c.Quiet world w)
    (hq : c.request.Fits) (hs : c.request.Sized) {r : Response} (hr : r.Answers c.request)
    {rounds : ℕ} (hleg : r.Legible rounds) :
    ∃ w', StreamM.Exchanges world (c.locked h rounds) w c.request.bytes r.bytes r.reply w' := by
  have plain {q : Request} (hq : q.Fits) (hs : q.StatusOnly) (hr : r.Answers q) :
      ∃ w', StreamM.Exchanges world (exchangeStatus h q) w q.bytes r.bytes r.reply w' := by
    obtain ⟨s, rfl⟩ := Response.exists_status_of_answers hr hs
    exact ⟨w, exchanges_exchangeStatus h hq s w⟩
  have entry (path : ByteString) {q : Request} (hq : q.Fits) (hs : q.StatusOnly)
      (hr : r.Answers q) : ∃ w', StreamM.Exchanges world
        (do invalidateStat path; invalidateParentDir path; exchangeStatus h q) w q.bytes r.bytes
        r.reply w' := by
    obtain ⟨w₁, h₁⟩ := receives_invalidateStat world path w
    obtain ⟨w₂, h₂⟩ := receives_invalidateParentDir world path w₁
    obtain ⟨s, rfl⟩ := Response.exists_status_of_answers hr hs
    exact ⟨w₂, h₁.then_exchanges (h₂.then_exchanges (exchanges_exchangeStatus h hq s w₂))⟩
  cases c with
  | statFile path =>
    obtain ⟨hmiss, hini⟩ := not_or.mp hquiet
    rw [Option.not_isSome_iff_eq_none] at hmiss
    obtain ⟨w', hw'⟩ := receives_receiveStat world h hr
      (world (.getStat (win32PathToUnix path)) w).2
    refine ⟨w', StreamM.Exchanges.call_bind ?_⟩
    rw [hmiss]
    simp only [if_neg hini]
    exact (Request.writes h hq).then_receives hw'
  | listFileStats path =>
    obtain ⟨w', hw'⟩ := receives_receiveListing world h hr hleg w
    exact ⟨w', (Request.writes h hq).then_receives hw'⟩
  | moveEntry fromPath toPath replaceIfExists =>
    obtain ⟨w₁, h₁⟩ := receives_invalidateStat world (win32PathToUnix fromPath) w
    obtain ⟨w₂, h₂⟩ := receives_invalidateParentDir world (win32PathToUnix fromPath) w₁
    obtain ⟨w₃, h₃⟩ := receives_invalidateStat world (win32PathToUnix toPath) w₂
    obtain ⟨w₄, h₄⟩ := receives_invalidateParentDir world (win32PathToUnix toPath) w₃
    obtain ⟨s, rfl⟩ := Response.exists_status_of_answers hr trivial
    exact ⟨w₄, h₁.then_exchanges (h₂.then_exchanges (h₃.then_exchanges (h₄.then_exchanges
      (exchanges_exchangeStatus h hq s w₄))))⟩
  | removeFile path => exact entry _ hq trivial hr
  | canRemoveFile path => exact plain hq trivial hr
  | removeDirectory path => exact entry _ hq trivial hr
  | canRemoveDirectory path => exact plain hq trivial hr
  | createDirectory path => exact entry _ hq trivial hr
  | openFile path mode readAccess writeAccess =>
    have hini : ¬endsWithDesktopIni (win32PathToUnix path) = true := hquiet
    simp only [Call.locked, reqOpenFile]
    rw [if_neg hini]
    have hrecv := receives_receiveHandle world h hr w
    by_cases hc : mode.Creates
    · obtain ⟨w', hw'⟩ := receives_invalidateParentDir world (win32PathToUnix path) w
      refine ⟨w', (Request.writes h hq).then_receives (hrecv.bind_nil ?_)⟩
      rw [if_pos hc]
      exact hw'.bind_ret rfl
    · refine ⟨w, (Request.writes h hq).then_receives (hrecv.bind_ret ?_)⟩
      rw [if_neg hc]
      rfl
  | closeFile fileHandle => exact plain hq trivial hr
  | writeToFile fileHandle fileOffset data => exact plain hq trivial hr
  | readFromFile fileHandle fileOffset bufferLen =>
    exact ⟨w, (Request.writes h hq).then_receives (receives_receiveData h hs hr w)⟩
  | setFileLen fileHandle fileLen => exact plain hq trivial hr
  | setFileTime path accessTime writeTime =>
    obtain ⟨w₁, h₁⟩ := receives_invalidateStat world (win32PathToUnix path) w
    obtain ⟨s, rfl⟩ := Response.exists_status_of_answers hr trivial
    exact ⟨w₁, h₁.then_exchanges (exchanges_exchangeStatus h hq s w₁)⟩
  | getDiskStats =>
    exact ⟨w, (Request.writes h hq).then_receives (receives_receiveDiskStats h hr w)⟩

/-- **A call that is answered without the daemon does not touch the stream.** -/
theorem Call.receives_of_quiet {c : Call} {w : W} (hquiet : c.Quiet world w) (rounds : ℕ) :
    ∃ reply w', StreamM.Receives world (c.locked h rounds) w [] reply w' := by
  cases c with
  | statFile path =>
    rcases hget : (world (.getStat (win32PathToUnix path)) w).1 with _ | stat
    · have hini : endsWithDesktopIni (win32PathToUnix path) = true := by
        refine hquiet.resolve_left ?_
        rw [hget]
        exact Bool.false_ne_true
      refine ⟨.status .fileNotFound, (world (.getStat (win32PathToUnix path)) w).2,
        StreamM.Receives.call_bind ?_⟩
      rw [hget]
      simp only [if_pos hini]
      exact StreamM.Receives.ret _ _
    · refine ⟨.stat stat, (world (.getStat (win32PathToUnix path)) w).2,
        StreamM.Receives.call_bind ?_⟩
      rw [hget]
      exact StreamM.Receives.ret _ _
  | openFile path mode readAccess writeAccess =>
    refine ⟨.status .genericFailure, w, ?_⟩
    have hini : endsWithDesktopIni (win32PathToUnix path) = true := hquiet
    simp only [Call.locked, reqOpenFile]
    rw [if_pos hini]
    exact StreamM.Receives.ret _ _
  | _ => exact hquiet.elim

end Receiving

/-! ## A method sends before it reads -/

section Phases

variable (h : Host)

theorem onlyReads_readStatus : readStatus.OnlyReads :=
  onlyReads_readByte.bind fun _ => trivial

theorem noWrites_readStatus : readStatus.NoWrites :=
  onlyReads_readStatus.noWrites

theorem noWrites_readEntries (dir : ByteString) (rounds : ℕ) :
    (readEntries h dir rounds).NoWrites := by
  induction rounds with
  | zero => trivial
  | succ rounds ih =>
    rw [readEntries]
    refine noWrites_readStatus.bind fun entryStatus => ?_
    split
    · trivial
    · split
      · refine (onlyReads_readUtf8String h).noWrites.bind fun name => ?_
        refine (MessageType.fileStat.onlyReads_read h).noWrites.bind fun stat => ?_
        refine StreamM.noWrites_call_bind fun _ => ?_
        rcases unixPathToWin32 name with _ | fileName
        · trivial
        · exact StreamM.noWrites_call_bind fun _ => ih.bind fun _ => trivial
      · exact ih

theorem noReads_invalidateStat (path : ByteString) : (invalidateStat path).NoReads := by
  refine StreamM.noReads_call_bind fun b => ?_
  cases b
  · trivial
  · exact ⟨trivial, fun _ => trivial⟩

theorem noReads_invalidateParentDir (path : ByteString) : (invalidateParentDir path).NoReads := by
  rw [invalidateParentDir]
  rcases getParentPath path with _ | parent
  · trivial
  · refine StreamM.noReads_call_bind fun b => ?_
    cases b
    · trivial
    · exact ⟨trivial, fun _ => trivial⟩

theorem noWrites_invalidateParentDir (path : ByteString) :
    (invalidateParentDir path).NoWrites := by
  rw [invalidateParentDir]
  rcases getParentPath path with _ | parent
  · trivial
  · refine StreamM.noWrites_call_bind fun b => ?_
    cases b
    · trivial
    · exact ⟨trivial, fun _ => trivial⟩

theorem noWrites_receiveStat (path : ByteString) : (receiveStat h path).NoWrites := by
  refine noWrites_readStatus.bind fun status => ?_
  split
  · trivial
  · exact (MessageType.fileStat.onlyReads_read h).noWrites.bind fun _ =>
      StreamM.noWrites_call_bind fun _ => trivial

theorem noWrites_receiveListing (rounds : ℕ) (path : ByteString) :
    (receiveListing h rounds path).NoWrites := by
  refine noWrites_readStatus.bind fun status => ?_
  split
  · trivial
  · exact (noWrites_readEntries h path rounds).bind fun _ =>
      StreamM.noWrites_call_bind fun _ => trivial

theorem onlyReads_receiveHandle : (receiveHandle h).OnlyReads := by
  refine onlyReads_readStatus.bind fun status => ?_
  split
  · exact (onlyReads_readU32 h).bind fun _ => trivial
  · trivial

theorem onlyReads_receiveData : (receiveData h).OnlyReads := by
  refine onlyReads_readStatus.bind fun status => ?_
  split
  · exact (onlyReads_readU32 h).bind fun _ =>
      (StreamM.onlyReads_readExact _ _).bind fun _ => trivial
  · trivial

theorem onlyReads_receiveDiskStats : (receiveDiskStats h).OnlyReads := by
  refine onlyReads_readStatus.bind fun status => ?_
  split
  · exact (MessageType.diskStats.onlyReads_read h).bind fun _ => trivial
  · trivial

/-- Send a request, then read. -/
theorem writesThenReads_send {α : Type} (q : Request) {p : ConnM α} (hp : p.NoWrites) :
    (do q.write h; StreamM.flush; p).WritesThenReads :=
  Prog.Phased.bind_left (q.onlyWrites_write h).noReads fun _ =>
    Prog.Phased.bind_left StreamM.noReads_flush fun _ => hp.phased_right

theorem exchangeStatus_writesThenReads (q : Request) : (exchangeStatus h q).WritesThenReads :=
  writesThenReads_send h q (noWrites_readStatus.bind fun _ => trivial)

/-- **A method sends the whole of its request before it reads any of the answer.** -/
theorem Call.locked_writesThenReads (rounds : ℕ) (c : Call) :
    (c.locked h rounds).WritesThenReads := by
  have entry (path : ByteString) {p : ConnM Reply} (hp : p.WritesThenReads) :
      (do invalidateStat path; invalidateParentDir path; p).WritesThenReads :=
    Prog.Phased.bind_left (noReads_invalidateStat path) fun _ =>
      Prog.Phased.bind_left (noReads_invalidateParentDir path) fun _ => hp
  cases c with
  | statFile path =>
    refine StreamM.writesThenReads_call_bind fun cached => ?_
    rcases cached with _ | stat
    · simp only
      split
      · trivial
      · exact writesThenReads_send h _ (noWrites_receiveStat h _)
    · trivial
  | listFileStats path => exact writesThenReads_send h _ (noWrites_receiveListing h rounds _)
  | moveEntry fromPath toPath replaceIfExists =>
    exact entry _ (entry _ (exchangeStatus_writesThenReads h _))
  | removeFile path => exact entry _ (exchangeStatus_writesThenReads h _)
  | canRemoveFile path => exact exchangeStatus_writesThenReads h _
  | removeDirectory path => exact entry _ (exchangeStatus_writesThenReads h _)
  | canRemoveDirectory path => exact exchangeStatus_writesThenReads h _
  | createDirectory path => exact entry _ (exchangeStatus_writesThenReads h _)
  | openFile path mode readAccess writeAccess =>
    simp only [Call.locked, reqOpenFile]
    split
    · trivial
    · refine writesThenReads_send h _ ((onlyReads_receiveHandle h).noWrites.bind fun reply => ?_)
      split
      · exact (noWrites_invalidateParentDir _).bind fun _ => trivial
      · trivial
  | closeFile fileHandle => exact exchangeStatus_writesThenReads h _
  | writeToFile fileHandle fileOffset data => exact exchangeStatus_writesThenReads h _
  | readFromFile fileHandle fileOffset bufferLen =>
    exact writesThenReads_send h _ (onlyReads_receiveData h).noWrites
  | setFileLen fileHandle fileLen => exact exchangeStatus_writesThenReads h _
  | setFileTime path accessTime writeTime =>
    exact Prog.Phased.bind_left (noReads_invalidateStat _) fun _ =>
      exchangeStatus_writesThenReads h _
  | getDiskStats => exact writesThenReads_send h _ (onlyReads_receiveDiskStats h).noWrites

end Phases

end NandroidFS
