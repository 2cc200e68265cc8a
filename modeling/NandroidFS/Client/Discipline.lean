import NandroidFS.Streams.Conduct
import NandroidFS.Protocol.Exchange
import NandroidFS.Client.System

/-!
# How the methods use the mutex and the caches

What keeps the caches right is not in one place: every method has to take the mutex before it
stores or removes anything, store only what its own exchange has given, and remove what its request
is about to change, before the request is sent or at least before the mutex is released.
`Call.conduct` states these rules over the trace of a thread, and `Call.conforms_program` says that
all fifteen methods keep to them.

* `Request.Early`, `Request.Late`: the keys that a method invalidates before and after its exchange.
* `Call.Ends`: what a method may return, in terms of its trace.  Its reply is the one of its
  exchange, or it comes from the caches.
-/

namespace NandroidFS

open Connection

/-! ## What a request invalidates -/

/-- The two keys under which an entry of a directory is known: its stat, and the listing of its
parent. -/
def Key.About (path : ByteString) : Key → Prop
  | .stat path' => path' = path
  | .list dir => getParentPath path = some dir

/-- The keys that are invalidated before the request is sent. -/
def Request.Early : Request → Key → Prop
  | .createDirectory path, key => key.About path
  | .removeFile path, key => key.About path
  | .removeDirectory path, key => key.About path
  | .moveEntry args, key => key.About args.fromPath ∨ key.About args.toPath
  | .setFileTime args, key => key = .stat args.path
  | _, _ => False

/-- The keys that are invalidated after the reply. -/
def Request.Late : Request → Key → Prop
  | .openHandle args, .list dir => args.mode.Creates ∧ getParentPath args.path = some dir
  | _, _ => False

/-! ## Traces -/

/-- The calls that need no mutex: look-ups, the callback, and taking the mutex itself. -/
def ConnAct.Free : ConnAct → Prop
  | .getStat _ => True
  | .getList _ => True
  | .lock => True
  | .consumeStat _ _ => True
  | _ => False

/-- The thread has taken the mutex. -/
def Locked (τ : List Event) : Prop := Event.call .lock () ∈ τ

/-- The thread has had its exchange. -/
def Exchanged (τ : List Event) : Prop := ∃ r, Event.exchange r ∈ τ

/-- The thread has made sure that nothing is stored under the key. -/
def Cleared (τ : List Event) (key : Key) : Prop := ∃ event ∈ τ, event.Clears key

/-- The calls of a cached listing: every name is looked up, and the stats that are found are handed
on. -/
inductive LooksUp (dir : ByteString) : List (ByteString × Option FileStat) → List Event → Prop
  | nil : LooksUp dir [] []
  | miss {name : ByteString} {answers : List (ByteString × Option FileStat)} {τ : List Event}
      (h : LooksUp dir answers τ) :
      LooksUp dir ((name, none) :: answers) (.call (.getStat (getFullPath dir name)) none :: τ)
  | hit {name : ByteString} {stat : FileStat} {fileName : WString}
      {answers : List (ByteString × Option FileStat)} {τ : List Event}
      (hname : unixPathToWin32 name = some fileName) (h : LooksUp dir answers τ) :
      LooksUp dir ((name, some stat) :: answers)
        (.call (.getStat (getFullPath dir name)) (some stat) ::
          .call (.consumeStat stat fileName) () :: τ)

theorem LooksUp.not_exchanged {dir : ByteString} {answers : List (ByteString × Option FileStat)}
    {τ : List Event} (hτ : LooksUp dir answers τ) : ¬Exchanged τ := by
  induction hτ with
  | nil => exact fun ⟨_, hr⟩ => List.not_mem_nil hr
  | miss h ih =>
    rintro ⟨r, hr⟩
    exact ih ⟨r, List.mem_of_ne_of_mem Event.noConfusion hr⟩
  | hit hname h ih =>
    rintro ⟨r, hr⟩
    exact ih ⟨r, List.mem_of_ne_of_mem Event.noConfusion
      (List.mem_of_ne_of_mem Event.noConfusion hr)⟩

/-- The entries of a cached listing. -/
def hits (answers : List (ByteString × Option FileStat)) : List (ByteString × FileStat) :=
  answers.filterMap fun answer => answer.2.map fun stat => (answer.1, stat)

namespace Call

/-- What a method may return without asking the daemon. -/
def FromCache (τ : List Event) (reply : Reply) : Call → Prop
  | .statFile path =>
      (∃ stat, reply = .stat stat ∧
        Event.call (.getStat (win32PathToUnix path)) (some stat) ∈ τ) ∨
      reply = .status .fileNotFound
  | .listFileStats path => ∃ answers τ',
      τ = .call (.getList (win32PathToUnix path)) (some (answers.map Prod.fst)) :: τ' ∧
        LooksUp (win32PathToUnix path) answers τ' ∧ reply = .listing (hits answers)
  | .openFile path _ _ _ =>
      endsWithDesktopIni (win32PathToUnix path) = true ∧ reply = .status .genericFailure
  | _ => False

/-- What a method may return. -/
def Ends (c : Call) (reply : Reply) (τ : List Event) : Prop :=
  (∃ r, Event.exchange r ∈ τ ∧ r.Answers c.request ∧ reply = r.reply ∧
    ∀ key, c.request.Late key → Cleared τ key) ∨
  ¬Exchanged τ ∧ c.FromCache τ reply

/-- What has to hold when a method throws. -/
def Breaks (c : Call) (τ : List Event) : Prop :=
  Exchanged τ → ∀ key, c.request.Late key → Cleared τ key

/-- The value comes from the exchange of the thread. -/
def Obtains (c : Call) (τ : List Event) (key : Key) (v : key.Value) : Prop :=
  ∃ r, Event.exchange r ∈ τ ∧ (Exchange.mk c.request r).Gives key v

/-- **The rules of a method.** -/
def conduct (c : Call) : Conduct (List Event) ConnAct ConnAct.Res where
  Guard τ
    | .call e =>
        (e.Free ∨ Locked τ) ∧ ∀ key v, e.Puts key v → ¬Cleared τ key ∧ c.Obtains τ key v
    | .flush => Locked τ ∧ ¬Exchanged τ ∧ ∀ key, c.request.Early key → Cleared τ key
    | .readExact _ => Locked τ
    | .writeExact _ => Locked τ
  answered τ e answer := τ ++ [.call e answer]
  Flushed τ bs τ' := ∃ r : Response, r.Answers c.request ∧ c.request.Sized ∧ bs = r.bytes ∧
    τ' = τ ++ [.exchange r]

/-- A program of the method keeps to the rules. -/
abbrev Obeys {α : Type} (c : Call) (Q : α → List Event → List UInt8 → Prop) (p : ConnM α)
    (τ : List Event) (i : List UInt8) : Prop :=
  p.Conforms c.conduct Q (fun _ τ' _ => c.Breaks τ') τ i

end Call

/-! ## How a trace grows -/

theorem locked_append {τ : List Event} (hτ : Locked τ) (τ' : List Event) : Locked (τ ++ τ') :=
  List.mem_append_left _ hτ

theorem locked_append_call {τ : List Event} {e : ConnAct} {answer : e.Res} :
    Locked (τ ++ [.call e answer]) ↔ Locked τ ∨ e = .lock := by
  unfold Locked
  rw [List.mem_append, List.mem_singleton]
  constructor
  · rintro (hl | hl)
    · exact Or.inl hl
    · exact Or.inr (Event.call.inj hl).1.symm
  · rintro (hl | rfl)
    · exact Or.inl hl
    · exact Or.inr rfl

theorem cleared_append {τ : List Event} {key : Key} (hτ : Cleared τ key) (τ' : List Event) :
    Cleared (τ ++ τ') key := by
  obtain ⟨event, hmem, hclears⟩ := hτ
  exact ⟨event, List.mem_append_left _ hmem, hclears⟩

theorem exchanged_append_call {τ : List Event} {e : ConnAct} {answer : e.Res} :
    Exchanged (τ ++ [.call e answer]) ↔ Exchanged τ := by
  unfold Exchanged
  simp only [List.mem_append, List.mem_singleton, reduceCtorEq, or_false]

theorem cleared_append_singleton {τ : List Event} {event : Event} {key : Key} :
    Cleared (τ ++ [event]) key ↔ Cleared τ key ∨ event.Clears key := by
  unfold Cleared
  constructor
  · rintro ⟨e, hmem, hclears⟩
    rcases List.mem_append.mp hmem with hmem | hmem
    · exact Or.inl ⟨e, hmem, hclears⟩
    · obtain rfl := List.mem_singleton.mp hmem
      exact Or.inr hclears
  · rintro (⟨e, hmem, hclears⟩ | hclears)
    · exact ⟨e, List.mem_append_left _ hmem, hclears⟩
    · exact ⟨event, List.mem_append_right _ (List.mem_singleton_self _), hclears⟩

/-! ## The pieces of the methods -/

section Pieces

variable {c : Call} {α : Type} {Q : α → List Event → List UInt8 → Prop} {τ : List Event}
  {i : List UInt8}

/-- A trace that goes on from another without a new exchange. -/
structure Continues (τ τ' : List Event) : Prop where
  locked : Locked τ → Locked τ'
  exchanged : Exchanged τ' → Exchanged τ
  cleared : ∀ key, Cleared τ key → Cleared τ' key
  exchange : ∀ r, Event.exchange r ∈ τ → Event.exchange r ∈ τ'

theorem Continues.refl (τ : List Event) : Continues τ τ :=
  ⟨id, id, fun _ => id, fun _ => id⟩

theorem Continues.trans {τ₁ τ₂ τ₃ : List Event} (h₁ : Continues τ₁ τ₂) (h₂ : Continues τ₂ τ₃) :
    Continues τ₁ τ₃ where
  locked hl := h₂.locked (h₁.locked hl)
  exchanged hx := h₁.exchanged (h₂.exchanged hx)
  cleared key hc := h₂.cleared key (h₁.cleared key hc)
  exchange r hr := h₂.exchange r (h₁.exchange r hr)

theorem continues_call (τ : List Event) (e : ConnAct) (answer : e.Res) :
    Continues τ (τ ++ [.call e answer]) where
  locked hl := locked_append hl _
  exchanged := exchanged_append_call.mp
  cleared _ hc := cleared_append hc _
  exchange _ hr := List.mem_append_left _ hr

/-- A call that stores nothing. -/
theorem obeys_call_bind {e : ConnAct} {f : e.Res → ConnM α} (hfree : e.Free ∨ Locked τ)
    (hputs : ∀ key v, ¬e.Puts key v)
    (hf : ∀ answer, c.Obeys Q (f answer) (τ ++ [.call e answer]) i) :
    c.Obeys Q (conn e >>= f) τ i :=
  StreamM.conforms_call_bind ⟨hfree, fun key v hp => (hputs key v hp).elim⟩ hf

theorem obeys_invalidateStat {path : ByteString} {f : Unit → ConnM α} (hl : Locked τ)
    (hf : ∀ τ', Continues τ τ' → Cleared τ' (.stat path) → c.Obeys Q (f ()) τ' i) :
    c.Obeys Q (invalidateStat path >>= f) τ i := by
  refine StreamM.conforms_bind.mpr (obeys_call_bind (Or.inr hl) (fun key v => id) ?_)
  intro found
  have hcont := continues_call τ (.hasStat path) found
  cases found with
  | false =>
    refine hf _ hcont ⟨_, List.mem_append_right _ (List.mem_singleton_self _), ?_⟩
    exact ⟨rfl, rfl⟩
  | true =>
    refine ⟨⟨Or.inr (hcont.locked hl), fun key v hp => hp.elim⟩, fun _ => ?_⟩
    refine hf _ (hcont.trans (continues_call _ _ _))
      ⟨_, List.mem_append_right _ (List.mem_singleton_self _), ?_⟩
    exact rfl

theorem obeys_invalidateList {path : ByteString} {f : Unit → ConnM α} (hl : Locked τ)
    (hf : ∀ τ', Continues τ τ' → Cleared τ' (.list path) → c.Obeys Q (f ()) τ' i) :
    c.Obeys Q (invalidateList path >>= f) τ i := by
  refine StreamM.conforms_bind.mpr (obeys_call_bind (Or.inr hl) (fun key v => id) ?_)
  intro found
  have hcont := continues_call τ (.hasList path) found
  cases found with
  | false =>
    refine hf _ hcont ⟨_, List.mem_append_right _ (List.mem_singleton_self _), ?_⟩
    exact ⟨rfl, rfl⟩
  | true =>
    refine ⟨⟨Or.inr (hcont.locked hl), fun key v hp => hp.elim⟩, fun _ => ?_⟩
    refine hf _ (hcont.trans (continues_call _ _ _))
      ⟨_, List.mem_append_right _ (List.mem_singleton_self _), ?_⟩
    exact rfl

theorem obeys_invalidateParentDir {path : ByteString} {f : Unit → ConnM α} (hl : Locked τ)
    (hf : ∀ τ', Continues τ τ' →
      (∀ dir, getParentPath path = some dir → Cleared τ' (.list dir)) → c.Obeys Q (f ()) τ' i) :
    c.Obeys Q (invalidateParentDir path >>= f) τ i := by
  unfold invalidateParentDir
  rcases hparent : getParentPath path with _ | parent
  · refine hf τ (.refl τ) fun dir hdir => ?_
    rw [hparent] at hdir
    cases hdir
  · refine obeys_invalidateList hl fun τ' hcont hcleared => hf τ' hcont fun dir hdir => ?_
    rw [hparent] at hdir
    obtain rfl := Option.some.inj hdir
    exact hcleared

/-- Both keys of an entry. -/
theorem obeys_invalidateEntry {path : ByteString} {p : ConnM α} (hl : Locked τ)
    (hf : ∀ τ', Continues τ τ' → (∀ key : Key, key.About path → Cleared τ' key) →
      c.Obeys Q p τ' i) :
    c.Obeys Q (do invalidateStat path; invalidateParentDir path; p) τ i := by
  refine obeys_invalidateStat hl fun τ₁ h₁ hstat => ?_
  refine obeys_invalidateParentDir (h₁.locked hl) fun τ₂ h₂ hlist => ?_
  refine hf τ₂ (h₁.trans h₂) fun key hkey => ?_
  cases key with
  | stat path' =>
    obtain rfl : path' = path := hkey
    exact h₂.cleared _ hstat
  | list dir => exact hlist dir hkey

variable (h : Host)

/-- Send the request, then read the response. -/
theorem obeys_send {p : ConnM α} (hl : Locked τ) (hx : ¬Exchanged τ)
    (hearly : ∀ key, c.request.Early key → Cleared τ key)
    (hp : ∀ r : Response, r.Answers c.request → c.request.Sized →
      c.Obeys Q p (τ ++ [.exchange r]) r.bytes) :
    c.Obeys Q (do c.request.write h; StreamM.flush; p) τ [] := by
  have hwrite : (c.request.write h : ConnM Unit).Conforms c.conduct
      (fun _ τ' i' => τ' = τ ∧ i' = []) (fun _ τ' i' => τ' = τ ∧ i' = []) τ [] :=
    StreamM.conforms_of_onlyWrites (c.request.onlyWrites_write h) fun _ => hl
  have hfail : ∀ (e : Exn) (τ' : List Event) (i' : List UInt8), τ' = τ ∧ i' = [] → c.Breaks τ' := by
    rintro e τ' i' ⟨rfl, -⟩ hx'
    exact (hx hx').elim
  refine (hwrite.mono (fun _ _ _ => id) hfail).bind ?_
  rintro ⟨⟩ τ' i' ⟨rfl, rfl⟩
  refine ⟨⟨hl, hx, hearly⟩, ?_⟩
  rintro bs τ' ⟨r, hr, hs, rfl, rfl⟩
  exact hp r hr hs

/-- The end of a method that has had its exchange. -/
theorem ends_of_exchange {r : Response} {τ' : List Event} (hmem : Event.exchange r ∈ τ')
    (hr : r.Answers c.request) (hlate : ∀ key, c.request.Late key → Cleared τ' key) :
    c.Ends r.reply τ' :=
  Or.inl ⟨r, hmem, hr, rfl, hlate⟩

/-- A response that is read to its end. -/
theorem obeys_response {p : ConnM Reply} {r : Response} (hl : Locked τ) (hp : p.OnlyReads)
    (hrecv : StreamM.Receives uncached p () r.bytes r.reply ()) :
    c.Obeys (fun reply τ' i' => reply = r.reply ∧ τ' = τ ++ [.exchange r] ∧ i' = []) p
      (τ ++ [.exchange r]) r.bytes :=
  StreamM.conforms_of_receives hrecv hp (fun _ => locked_append hl _)
    (List.append_nil r.bytes).symm

/-- A response that is read to its end, and nothing after it. -/
theorem obeys_receive {p : ConnM Reply} {r : Response} (hl : Locked τ) (hr : r.Answers c.request)
    (hlate : ∀ key, ¬c.request.Late key) (hp : p.OnlyReads)
    (hrecv : StreamM.Receives uncached p () r.bytes r.reply ()) :
    c.Obeys (fun reply τ' _ => c.Ends reply τ') p (τ ++ [.exchange r]) r.bytes := by
  refine (obeys_response hl hp hrecv).mono ?_ fun _ _ _ => id
  rintro reply τ' i' ⟨rfl, rfl, -⟩
  exact ends_of_exchange (List.mem_append_right _ (List.mem_singleton_self _)) hr
    fun key hkey => (hlate key hkey).elim

/-- The requests that are answered by a status alone. -/
theorem obeys_exchangeStatus (hl : Locked τ) (hx : ¬Exchanged τ)
    (hearly : ∀ key, c.request.Early key → Cleared τ key) (hs : c.request.StatusOnly)
    (hlate : ∀ key, ¬c.request.Late key) :
    c.Obeys (fun reply τ' _ => c.Ends reply τ') (exchangeStatus h c.request) τ [] := by
  refine obeys_send h hl hx hearly fun r hr _ => ?_
  obtain ⟨s, rfl⟩ := Response.exists_status_of_answers hr hs
  exact obeys_receive hl hr hlate (onlyReads_readStatus.bind fun _ => trivial)
    (((reads_status s).receives ()).bind_ret rfl)

/-- Reading one piece of the response. -/
theorem obeys_read_bind {β : Type} {p : ConnM β} {f : β → ConnM α} {bs rest : List UInt8} {b : β}
    (hl : Locked τ) (hp : p.OnlyReads) (hr : p.Reads bs b) (hi : i = bs ++ rest)
    (hf : c.Obeys Q (f b) τ rest) : c.Obeys Q (p >>= f) τ i := by
  have hrecv : StreamM.Receives uncached p () bs b () := hr.receives ()
  have hread : c.Obeys (fun b' τ' i' => b' = b ∧ τ' = τ ∧ i' = rest) p τ i :=
    StreamM.conforms_of_receives hrecv hp (fun _ => hl) hi
  refine hread.bind ?_
  rintro b' τ' i' ⟨rfl, rfl, rfl⟩
  exact hf

theorem obeys_readStatus_bind {f : ResponseStatus → ConnM α} (s : ResponseStatus)
    {rest : List UInt8} (hl : Locked τ) (hi : i = s.toByte :: rest)
    (hf : c.Obeys Q (f s) τ rest) : c.Obeys Q (readStatus >>= f) τ i :=
  obeys_read_bind hl onlyReads_readStatus (reads_status s) hi hf

/-- The answer to a stat. -/
theorem obeys_receiveStat {path : ByteString} {r : Response} (hc : c.request = .statFile path)
    (hl : Locked τ) (hclear : ∀ key, ¬Cleared τ key) (hr : r.Answers c.request) :
    c.Obeys (fun reply τ' _ => c.Ends reply τ') (receiveStat h path) (τ ++ [.exchange r])
      r.bytes := by
  have hmem : Event.exchange r ∈ τ ++ [.exchange r] :=
    List.mem_append_right _ (List.mem_singleton_self _)
  have hlate : ∀ key τ', c.request.Late key → Cleared τ' key := by
    intro key τ' hkey
    rw [hc] at hkey
    exact hkey.elim
  have hr' := hr
  rw [hc] at hr'
  cases r with
  | status s =>
    refine obeys_readStatus_bind s (locked_append hl _) rfl ?_
    have hne : s ≠ .success := hr'
    rw [if_pos hne]
    exact ends_of_exchange hmem hr fun key => hlate key _
  | stat st =>
    refine obeys_readStatus_bind .success (locked_append hl _) rfl ?_
    rw [if_neg (by simp)]
    refine obeys_read_bind (locked_append hl _) (MessageType.fileStat.onlyReads_read h) (st.reads h)
      (List.append_nil _).symm ?_
    refine ⟨⟨Or.inr (locked_append hl _), fun key v hput => ⟨?_, _, hmem, ?_⟩⟩, fun _ => ?_⟩
    · rw [cleared_append_singleton]
      exact fun hcl => hcl.elim (hclear key) id
    · -- what is stored is the stat in the response
      rw [hc]
      cases key with
      | stat path' => exact hput
      | list dir => exact hput.elim
    · exact ends_of_exchange (List.mem_append_left _ hmem) hr fun key => hlate key _
  | listing items => exact hr'.elim
  | opened handle => exact hr'.elim
  | data bs => exact hr'.elim
  | disk stats => exact hr'.elim

/-- The trace of a listing in progress: nothing has been invalidated, and the response is known. -/
structure Listing (all : List ListItem) (τ : List Event) : Prop where
  locked : Locked τ
  exchange : Event.exchange (.listing all) ∈ τ
  cleared : ∀ key, ¬Cleared τ key

theorem Listing.call {all : List ListItem} (hτ : Listing all τ) (e : ConnAct) (answer : e.Res)
    (he : ∀ key, ¬e.Clears answer key) : Listing all (τ ++ [.call e answer]) where
  locked := locked_append hτ.locked _
  exchange := List.mem_append_left _ hτ.exchange
  cleared key := by
    rw [cleared_append_singleton]
    exact fun hcl => hcl.elim (hτ.cleared key) (he key)

/-- The loop of a listing.  What it stores are items of the response. -/
theorem obeys_readEntries {dir : ByteString} (hc : c.request = .listDirectory dir)
    {all : List ListItem} (items : List ListItem) (rounds : ℕ)
    (hsub : ∀ item ∈ items, item ∈ all) (hτ : Listing all τ) :
    c.Obeys (fun entries τ' _ => entries = items.filterMap ListItem.entry? ∧ Listing all τ')
      (readEntries h dir rounds) τ
      (items.flatMap ListItem.bytes ++ [ResponseStatus.noMoreEntries.toByte]) := by
  have hbreaks : ∀ τ', c.Breaks τ' := by
    intro τ' _ key hkey
    rw [hc] at hkey
    exact hkey.elim
  induction items generalizing rounds τ with
  | nil =>
    cases rounds with
    | zero => exact hbreaks τ
    | succ rounds =>
      refine obeys_readStatus_bind .noMoreEntries hτ.locked rfl ?_
      exact ⟨rfl, hτ⟩
  | cons item items ih =>
    cases rounds with
    | zero => exact hbreaks τ
    | succ rounds =>
      have hsub' : ∀ item ∈ items, item ∈ all := fun i hi => hsub i (List.mem_cons_of_mem _ hi)
      rw [List.flatMap_cons, List.append_assoc, readEntries]
      cases item with
      | skipped status hs =>
        refine obeys_readStatus_bind status hτ.locked rfl ?_
        rw [if_neg hs.2, if_neg hs.1]
        exact ih rounds hsub' hτ
      | entry name stat =>
        have hmem : (name.1, stat) ∈ all.filterMap ListItem.entry? :=
          List.mem_filterMap.mpr ⟨_, hsub _ List.mem_cons_self, rfl⟩
        rw [ListItem.bytes, List.cons_append, List.append_assoc]
        refine obeys_readStatus_bind .success hτ.locked rfl ?_
        rw [if_neg (by decide), if_pos rfl]
        refine obeys_read_bind hτ.locked (onlyReads_readUtf8String h)
          (reads_string h (name.2.1.trans (by decide))) rfl ?_
        refine obeys_read_bind hτ.locked (MessageType.fileStat.onlyReads_read h) (stat.reads h) rfl
          ?_
        refine ⟨⟨Or.inr hτ.locked, fun key v hput =>
          ⟨hτ.cleared key, _, hτ.exchange, ?_⟩⟩, fun _ => ?_⟩
        · rw [hc]
          cases key with
          | stat path => exact ⟨_, hmem, hput⟩
          | list dir' => exact hput.elim
        · have hτ₁ := hτ.call (.putStat (getFullPath dir name.1) stat) () fun _ => id
          rcases unixPathToWin32 name.1 with _ | fileName
          · exact hbreaks _
          · have hτ₂ := hτ₁.call (.consumeStat stat fileName) () fun _ => id
            refine obeys_call_bind (Or.inl trivial) (fun _ _ => id) fun _ => ?_
            refine (ih rounds hsub' hτ₂).bind ?_
            rintro entries τ' i' ⟨rfl, hτ'⟩
            exact ⟨rfl, hτ'⟩

/-- The answer to a listing. -/
theorem obeys_receiveListing {dir : ByteString} {r : Response} (rounds : ℕ)
    (hc : c.request = .listDirectory dir) (hl : Locked τ) (hclear : ∀ key, ¬Cleared τ key)
    (hr : r.Answers c.request) :
    c.Obeys (fun reply τ' _ => c.Ends reply τ') (receiveListing h rounds dir) (τ ++ [.exchange r])
      r.bytes := by
  have hmem : Event.exchange r ∈ τ ++ [.exchange r] :=
    List.mem_append_right _ (List.mem_singleton_self _)
  have hlate : ∀ key τ', c.request.Late key → Cleared τ' key := by
    intro key τ' hkey
    rw [hc] at hkey
    exact hkey.elim
  have hr' := hr
  rw [hc] at hr'
  cases r with
  | status s =>
    refine obeys_readStatus_bind s (locked_append hl _) rfl ?_
    have hne : s ≠ .success := hr'
    rw [if_pos hne]
    exact ends_of_exchange hmem hr fun key => hlate key _
  | listing items =>
    have hτ : Listing items (τ ++ [.exchange (.listing items)]) := by
      refine ⟨locked_append hl _, hmem, fun key => ?_⟩
      rw [cleared_append_singleton]
      exact fun hcl => hcl.elim (hclear key) id
    refine obeys_readStatus_bind .success (locked_append hl _) rfl ?_
    rw [if_neg (by simp)]
    refine (obeys_readEntries h hc items rounds (fun _ => id) hτ).bind ?_
    rintro entries τ' i' ⟨rfl, hτ'⟩
    refine ⟨⟨Or.inr hτ'.locked, fun key v hput => ⟨hτ'.cleared key, _, hτ'.exchange, ?_⟩⟩,
      fun _ => ?_⟩
    · rw [hc]
      cases key with
      | stat path => exact hput.elim
      | list dir' => exact hput
    · exact ends_of_exchange (List.mem_append_left _ hτ'.exchange) hr fun key => hlate key _
  | stat st => exact hr'.elim
  | opened handle => exact hr'.elim
  | data bs => exact hr'.elim
  | disk stats => exact hr'.elim

/-- The loop of a cached listing. -/
theorem obeys_cachedEntries {dir : ByteString} (hc : c.request = .listDirectory dir)
    (names : List ByteString) :
    c.Obeys (fun entries τ' i' => ∃ answers τ'', answers.map Prod.fst = names ∧
        LooksUp dir answers τ'' ∧ τ' = τ ++ τ'' ∧ entries = hits answers ∧ i' = i)
      (cachedEntries dir names) τ i := by
  have hbreaks : ∀ τ', c.Breaks τ' := by
    intro τ' _ key hkey
    rw [hc] at hkey
    exact hkey.elim
  induction names generalizing τ with
  | nil => exact ⟨[], [], rfl, .nil, (List.append_nil τ).symm, rfl, rfl⟩
  | cons name names ih =>
    refine obeys_call_bind (Or.inl trivial) (fun _ _ => id) fun found => ?_
    cases found with
    | none =>
      refine ih.mono ?_ fun _ _ _ => id
      rintro entries τ' i' ⟨answers, τ'', rfl, hlooks, rfl, rfl, rfl⟩
      refine ⟨(name, none) :: answers, _, rfl, .miss hlooks, ?_, rfl, rfl⟩
      rw [List.append_assoc, List.singleton_append]
    | some stat =>
      rcases hname : unixPathToWin32 name with _ | fileName
      · exact hbreaks _
      · simp only
        refine obeys_call_bind (Or.inl trivial) (fun _ _ => id) fun _ => ?_
        refine ih.bind ?_
        rintro entries τ' i' ⟨answers, τ'', rfl, hlooks, rfl, rfl, rfl⟩
        refine ⟨(name, some stat) :: answers, _, rfl, .hit hname hlooks, ?_, rfl, rfl⟩
        rw [List.append_assoc, List.append_assoc, List.singleton_append, List.singleton_append]

end Pieces

/-! ## The methods -/

namespace Call

variable (h : Host)

/-- The trace of a thread that has just taken the mutex. -/
structure Entered (τ : List Event) : Prop where
  locked : Locked τ
  exchanged : ¬Exchanged τ
  cleared : ∀ key, ¬Cleared τ key

/-- What a method does under the mutex. -/
theorem obeys_locked (rounds : ℕ) (c : Call) {τ : List Event} (hτ : Entered τ) :
    c.Obeys (fun reply τ' _ => c.Ends reply τ') (c.locked h rounds) τ [] := by
  -- a method that has nothing to invalidate, and one that invalidates an entry first
  have plain {c : Call} (hs : c.request.StatusOnly) (hearly : ∀ key, ¬c.request.Early key)
      (hlate : ∀ key, ¬c.request.Late key) :
      c.Obeys (fun reply τ' _ => c.Ends reply τ') (exchangeStatus h c.request) τ [] :=
    obeys_exchangeStatus h hτ.locked hτ.exchanged (fun key hkey => (hearly key hkey).elim) hs hlate
  have entry {c : Call} (path : ByteString) (hs : c.request.StatusOnly)
      (hearly : ∀ key, c.request.Early key → key.About path) (hlate : ∀ key, ¬c.request.Late key) :
      c.Obeys (fun reply τ' _ => c.Ends reply τ')
        (do invalidateStat path; invalidateParentDir path; exchangeStatus h c.request) τ [] := by
    refine obeys_invalidateEntry hτ.locked fun τ' hcont habout => ?_
    exact obeys_exchangeStatus h (hcont.locked hτ.locked)
      (fun hx => hτ.exchanged (hcont.exchanged hx)) (fun key hkey => habout key (hearly key hkey))
      hs hlate
  cases c with
  | statFile path =>
    refine obeys_call_bind (Or.inl trivial) (fun _ _ => id) fun found => ?_
    have hcont := continues_call τ (.getStat (win32PathToUnix path)) found
    have hx := fun hx => hτ.exchanged (hcont.exchanged hx)
    cases found with
    | some stat =>
      exact Or.inr ⟨hx, Or.inl ⟨stat, rfl,
        List.mem_append_right _ (List.mem_singleton_self _)⟩⟩
    | none =>
      simp only
      split
      · exact Or.inr ⟨hx, Or.inr rfl⟩
      · refine obeys_send h (hcont.locked hτ.locked) hx (fun _ => False.elim) fun r hr _ => ?_
        refine obeys_receiveStat h rfl (hcont.locked hτ.locked) (fun key => ?_) hr
        rw [cleared_append_singleton]
        exact fun hcl => hcl.elim (hτ.cleared key) id
  | listFileStats path =>
    refine obeys_send h hτ.locked hτ.exchanged (fun _ => False.elim) fun r hr _ => ?_
    exact obeys_receiveListing h rounds rfl hτ.locked hτ.cleared hr
  | moveEntry fromPath toPath replaceIfExists =>
    refine obeys_invalidateEntry hτ.locked fun τ₁ h₁ hfrom => ?_
    refine obeys_invalidateEntry (h₁.locked hτ.locked) fun τ₂ h₂ hto => ?_
    have hcont := h₁.trans h₂
    refine obeys_exchangeStatus h (hcont.locked hτ.locked)
      (fun hx => hτ.exchanged (hcont.exchanged hx)) (fun key hkey => ?_) trivial fun _ => id
    exact hkey.elim (fun hk => h₂.cleared key (hfrom key hk)) (hto key)
  | removeFile path => exact entry (win32PathToUnix path) trivial (fun _ => id) fun _ => id
  | canRemoveFile path => exact plain trivial (fun _ => id) fun _ => id
  | removeDirectory path => exact entry (win32PathToUnix path) trivial (fun _ => id) fun _ => id
  | canRemoveDirectory path => exact plain trivial (fun _ => id) fun _ => id
  | createDirectory path => exact entry (win32PathToUnix path) trivial (fun _ => id) fun _ => id
  | openFile path mode readAccess writeAccess =>
    simp only [Call.locked, reqOpenFile]
    split
    next hini => exact Or.inr ⟨hτ.exchanged, hini, rfl⟩
    next hini =>
    refine obeys_send h hτ.locked hτ.exchanged (fun _ => False.elim) fun r hr _ => ?_
    have hl := locked_append hτ.locked [.exchange r]
    have hmem : Event.exchange r ∈ τ ++ [.exchange r] :=
      List.mem_append_right _ (List.mem_singleton_self _)
    have hrecv := receives_receiveHandle uncached h hr ()
    refine (obeys_response hτ.locked (onlyReads_receiveHandle h) hrecv).bind ?_
    rintro reply τ' i' ⟨rfl, rfl, rfl⟩
    by_cases hcreates : mode.Creates
    · rw [if_pos hcreates]
      refine obeys_invalidateParentDir hl fun τ' hcont hcleared => ?_
      refine ends_of_exchange (hcont.exchange r hmem) hr fun key hkey => ?_
      cases key with
      | stat path' => exact hkey.elim
      | list dir => exact hcleared dir hkey.2
    · rw [if_neg hcreates]
      refine ends_of_exchange hmem hr fun key hkey => ?_
      cases key with
      | stat path' => exact hkey.elim
      | list dir => exact (hcreates hkey.1).elim
  | closeFile fileHandle => exact plain trivial (fun _ => id) fun _ => id
  | writeToFile fileHandle fileOffset data => exact plain trivial (fun _ => id) fun _ => id
  | readFromFile fileHandle fileOffset bufferLen =>
    refine obeys_send h hτ.locked hτ.exchanged (fun _ => False.elim) fun r hr hs => ?_
    exact obeys_receive hτ.locked hr (fun _ => id) (onlyReads_receiveData h)
      (receives_receiveData h hs hr ())
  | setFileLen fileHandle fileLen => exact plain trivial (fun _ => id) fun _ => id
  | setFileTime path accessTime writeTime =>
    refine obeys_invalidateStat hτ.locked fun τ' hcont hcleared => ?_
    refine obeys_exchangeStatus h (hcont.locked hτ.locked)
      (fun hx => hτ.exchanged (hcont.exchanged hx)) (fun key hkey => ?_) trivial fun _ => id
    obtain rfl : key = .stat (win32PathToUnix path) := hkey
    exact hcleared
  | getDiskStats =>
    refine obeys_send h hτ.locked hτ.exchanged (fun _ => False.elim) fun r hr _ => ?_
    exact obeys_receive hτ.locked hr (fun _ => id) (onlyReads_receiveDiskStats h)
      (receives_receiveDiskStats h hr ())

/-- What a method does before it takes the mutex. -/
theorem obeys_unlocked (c : Call) :
    c.Obeys (fun answer τ' i' => ¬Exchanged τ' ∧ i' = [] ∧
      match answer with
      | some reply => c.FromCache τ' reply
      | none => ∀ key, ¬Cleared τ' key) c.unlocked [] [] := by
  have hx {e : ConnAct} {answer : e.Res} : ¬Exchanged [.call e answer] := by
    rintro ⟨r, hr⟩
    cases List.mem_singleton.mp hr
  have hnone : ¬Exchanged [] ∧ ([] : List UInt8) = [] ∧ ∀ key, ¬Cleared [] key :=
    ⟨fun ⟨_, hr⟩ => List.not_mem_nil hr, rfl, fun _ ⟨_, hmem, _⟩ => List.not_mem_nil hmem⟩
  cases c with
  | statFile path =>
    refine obeys_call_bind (Or.inl trivial) (fun _ _ => id) fun found => ?_
    cases found with
    | none =>
      refine ⟨hx, rfl, ?_⟩
      rintro key ⟨event, hmem, hclears⟩
      obtain rfl := List.mem_singleton.mp hmem
      exact hclears
    | some stat => exact ⟨hx, rfl, Or.inl ⟨stat, rfl, List.mem_singleton_self _⟩⟩
  | listFileStats path =>
    refine obeys_call_bind (Or.inl trivial) (fun _ _ => id) fun found => ?_
    cases found with
    | none =>
      refine ⟨hx, rfl, ?_⟩
      rintro key ⟨event, hmem, hclears⟩
      obtain rfl := List.mem_singleton.mp hmem
      exact hclears
    | some names =>
      refine (obeys_cachedEntries rfl names).bind ?_
      rintro entries τ' i' ⟨answers, τ'', rfl, hlooks, rfl, rfl, rfl⟩
      refine ⟨?_, rfl, answers, τ'', rfl, hlooks, rfl⟩
      rintro ⟨r, hr⟩
      rcases List.mem_append.mp hr with hr | hr
      · cases List.mem_singleton.mp hr
      · exact hlooks.not_exchanged ⟨r, hr⟩
  | _ => exact hnone

/-- **All methods keep to the rules.** -/
theorem obeys_program (rounds : ℕ) (c : Call) :
    c.Obeys (fun reply τ' _ => c.Ends reply τ') (c.program h rounds) [] [] := by
  refine c.obeys_unlocked.bind ?_
  rintro (_ | reply) τ i ⟨hx, rfl, hans⟩
  · refine obeys_call_bind (Or.inl trivial) (fun _ _ => id) fun _ => obeys_locked h rounds c ?_
    refine ⟨List.mem_append_right _ (List.mem_singleton_self _),
      fun hx' => hx (exchanged_append_call.mp hx'), fun key => ?_⟩
    rw [cleared_append_singleton]
    exact fun hcl => hcl.elim (hans key) id
  · exact Or.inr ⟨hx, hans⟩

end Call

end NandroidFS
