import NandroidFS.Client.Freshness

/-!
# How old an answer may be

The caches stamp a value with the time at which it is stored, and hand it out while that time is not
longer ago than `STAT_CACHE_PERIOD`.  To speak about times, a run is kept here with all its moments:
`Timeline` is the list of the actions that were taken, each with the state it was taken in.

* `System.answers_recent`: what a method returns out of a cache was stored there not longer than
  `STAT_CACHE_PERIOD` before the method looked it up, by a method that got it from the daemon for
  the same path.
* `System.not_decodedRecently_slowListing`: it may have been decoded long before.  The thread that
  stores it can be held up, and a listing stores its names when all of them have arrived.
-/

namespace NandroidFS

/-! ## The stamps in the caches -/

namespace Caches

/-- What is in the map of a key, with its stamp. -/
def entry (c : Caches) : (key : Key) → Option (CachedData key.Value)
  | .stat path => c.stat.cachedData path
  | .list path => c.list.cachedData path

/-- Both caches keep their data for `STAT_CACHE_PERIOD`. -/
def Periodic (c : Caches) : Prop :=
  c.stat.cachedItemValidFor = STAT_CACHE_PERIOD ∧ c.list.cachedItemValidFor = STAT_CACHE_PERIOD

variable {c : Caches} {e : ConnAct} {key : Key} {v : key.Value} {now later : ℕ}

theorem entry_of_find (hc : c.Periodic) (h : c.find now key = some v) :
    ∃ fetchedAt, c.entry key = some ⟨v, fetchedAt⟩ ∧ now - fetchedAt ≤ STAT_CACHE_PERIOD := by
  cases key with
  | stat path =>
    obtain ⟨fetchedAt, hentry, hle⟩ := TimedCache.getCached_eq_some.mp h
    exact ⟨fetchedAt, hentry, hc.1 ▸ hle⟩
  | list path =>
    obtain ⟨fetchedAt, hentry, hle⟩ := TimedCache.getCached_eq_some.mp h
    exact ⟨fetchedAt, hentry, hc.2 ▸ hle⟩

theorem Periodic.perform (hc : c.Periodic) : (Caches.perform now later e c).2.Periodic := by
  cases e with
  | putStat path stat => exact ⟨TimedCache.cachedItemValidFor_cache.trans hc.1, hc.2⟩
  | putList path names => exact ⟨hc.1, TimedCache.cachedItemValidFor_cache.trans hc.2⟩
  | _ => exact hc

/-- **Only a store puts something into a map**, with the time at which it is made. -/
theorem entry_perform {fetchedAt : ℕ}
    (h : (perform now later e c).2.entry key = some ⟨v, fetchedAt⟩) :
    (e.Puts key v ∧ fetchedAt = now) ∨ c.entry key = some ⟨v, fetchedAt⟩ := by
  cases e with
  | eraseStat path =>
    cases key with
    | stat path' => exact Or.inr (TimedCache.cachedData_of_erase h)
    | list path' => exact Or.inr h
  | eraseList path =>
    cases key with
    | stat path' => exact Or.inr h
    | list path' => exact Or.inr (TimedCache.cachedData_of_erase h)
  | putStat path stat =>
    cases key with
    | stat path' =>
      refine (TimedCache.cachedData_of_cache h).imp_left ?_
      rintro ⟨rfl, hdata⟩
      obtain ⟨rfl, rfl⟩ := CachedData.mk.inj hdata
      exact ⟨⟨rfl, rfl⟩, rfl⟩
    | list path' => exact Or.inr h
  | putList path names =>
    cases key with
    | stat path' => exact Or.inr h
    | list path' =>
      refine (TimedCache.cachedData_of_cache h).imp_left ?_
      rintro ⟨rfl, hdata⟩
      obtain ⟨rfl, rfl⟩ := CachedData.mk.inj hdata
      exact ⟨⟨rfl, rfl⟩, rfl⟩
  | _ => exact Or.inr h

end Caches

/-! ## Moments -/

/-- An action, and the state in which it was taken. -/
structure Moment (K : Type) where
  action : Action K
  state : System K

namespace Moment

variable {K : Type}

/-- A thread makes a call. -/
def Performs (m : Moment K) (th : Thread) (e : ConnAct) : Prop :=
  ∃ t duration k, m.action = .step t duration ∧ m.state.threads t = some th ∧
    th.program = .act (.call e) k

/-- A thread stores what its own exchange has given. -/
def Stores (m : Moment K) (key : Key) (v : key.Value) : Prop :=
  ∃ th e, m.Performs th e ∧ e.Puts key v ∧ th.call.Obtains th.trace key v

/-- The method that started then makes a look-up, which finds the value. -/
def Finds (m : Moment K) (started : ℕ) (key : Key) (v : key.Value) : Prop :=
  ∃ th e, m.Performs th e ∧ th.started = started ∧
    (Event.call e (Caches.perform m.state.clock m.state.clock e m.state.caches).1).Finds key v

end Moment

namespace System

variable {K : Type} (h h' : Host) (call : Kernel K)

/-- The runs with all their moments, the latest first. -/
inductive Timeline : List (Moment K) → System K → Prop
  | new (kernel : K) (clock : ℕ) : Timeline [] (.new kernel clock)
  | next {a : Action K} {s s' : System K} {ms : List (Moment K)} (hs : Timeline ms s)
      (hnext : System.next h h' call a s = some s') : Timeline (⟨a, s⟩ :: ms) s'

variable {h h' call} {s s' : System K} {a : Action K} {ms : List (Moment K)} {f : Finished}

theorem Timeline.reachable {Ok : Action K → System K → Prop} (hs : Timeline h h' call ms s)
    (hok : ∀ m ∈ ms, Ok m.action m.state) : Reachable h h' call Ok s := by
  induction hs with
  | new kernel clock => exact .new kernel clock
  | next _ hnext ih =>
    obtain ⟨hlast, hbefore⟩ := List.forall_mem_cons.mp hok
    exact (ih hbefore).next hlast hnext

/-- The method that started then looked the value up, not longer than `STAT_CACHE_PERIOD` after it
had been stored. -/
def Recent (ms : List (Moment K)) (started : ℕ) (key : Key) (v : key.Value) : Prop :=
  ∃ look ∈ ms, ∃ store ∈ ms, look.Finds started key v ∧ store.Stores key v ∧
    store.state.clock ≤ look.state.clock ∧
    look.state.clock ≤ store.state.clock + STAT_CACHE_PERIOD

theorem Recent.cons {started : ℕ} {key : Key} {v : key.Value} (hv : Recent ms started key v)
    (m : Moment K) : Recent (m :: ms) started key v := by
  obtain ⟨look, hlook, store, hstore, hrest⟩ := hv
  exact ⟨look, List.mem_cons_of_mem _ hlook, store, List.mem_cons_of_mem _ hstore, hrest⟩

/-- Everything that the visit has found was found in time. -/
def Timely (ms : List (Moment K)) (visit : Visit) : Prop :=
  ∀ event ∈ visit.trace, ∀ (key : Key) (v : key.Value), event.Finds key v →
    Recent ms visit.started key v

theorem Timely.cons {visit : Visit} (hv : Timely ms visit) (m : Moment K) :
    Timely (m :: ms) visit :=
  fun event hmem key v hfinds => (hv event hmem key v hfinds).cons m

/-- **The stamps are right.** -/
structure Dated (ms : List (Moment K)) (s : System K) : Prop where
  periodic : s.caches.Periodic
  entry : ∀ key v fetchedAt, s.caches.entry key = some ⟨v, fetchedAt⟩ →
    fetchedAt ≤ s.clock ∧ ∃ m ∈ ms, m.state.clock = fetchedAt ∧ m.Stores key v
  threads : ∀ t th, s.threads t = some th → Timely ms th.toVisit
  finished : ∀ fin ∈ s.finished, Timely ms fin.toVisit

theorem dated_new (kernel : K) (clock : ℕ) : Dated [] (new kernel clock) where
  periodic := ⟨rfl, rfl⟩
  entry key v fetchedAt hentry := by cases key <;> cases hentry
  threads t th ht := by cases ht
  finished fin hfin := (List.not_mem_nil hfin).elim

/-- A step that does not touch the caches. -/
theorem Dated.frame (hs : Dated ms s) (m : Moment K) (hcaches : s'.caches = s.caches)
    (hclock : s.clock ≤ s'.clock)
    (hthreads : ∀ t th, s'.threads t = some th → Timely (m :: ms) th.toVisit)
    (hfinished : ∀ fin ∈ s'.finished, Timely (m :: ms) fin.toVisit) : Dated (m :: ms) s' where
  periodic := hcaches ▸ hs.periodic
  entry key v fetchedAt hentry := by
    rw [hcaches] at hentry
    obtain ⟨hle, store, hmem, hrest⟩ := hs.entry key v fetchedAt hentry
    exact ⟨le_trans hle hclock, store, List.mem_cons_of_mem _ hmem, hrest⟩
  threads := hthreads
  finished := hfinished

/-- What is found now was stored not too long ago. -/
theorem Dated.recent (hs : Dated ms s) {m : Moment K} (hm : m.state = s) {started : ℕ} {key : Key}
    {v : key.Value} (hfinds : m.Finds started key v) (hv : s.caches.find s.clock key = some v) :
    Recent (m :: ms) started key v := by
  obtain ⟨fetchedAt, hentry, hle⟩ := Caches.entry_of_find hs.periodic hv
  obtain ⟨hpast, store, hmem, hclock, hstores⟩ := hs.entry key v fetchedAt hentry
  refine ⟨m, List.mem_cons_self, store, List.mem_cons_of_mem _ hmem, hfinds, hstores, ?_, ?_⟩
  · rw [hm, hclock]
    exact hpast
  · rw [hm, hclock]
    omega

theorem Dated.performs (hs : Dated ms s) (hord : Orderly s) {t duration : ℕ} {th : Thread}
    {e : ConnAct} {k : e.Res → ConnM Reply} (ht : s.threads t = some th)
    (hp : th.program = .act (.call e) k) :
    Dated (⟨.step t duration, s⟩ :: ms) (s.performs t th e k duration) := by
  have hmoment : Moment.Performs ⟨.step t duration, s⟩ th e := ⟨t, duration, k, rfl, ht, hp⟩
  obtain ⟨⟨-, hputs⟩, -⟩ : th.call.Obeys _ (.act (.call e) k) th.trace (s.seen t) :=
    hp ▸ (hord.threads t th ht).obeys
  refine ⟨hs.periodic.perform, fun key v fetchedAt hentry => ?_,
    forall_setThread ?_ fun t' th' _ ht' => (hs.threads t' th' ht').cons _,
    fun fin hfin => (hs.finished fin hfin).cons _⟩
  · rcases Caches.entry_perform hentry with ⟨hput, rfl⟩ | hold
    · exact ⟨Nat.le_add_right _ _, _, List.mem_cons_self, rfl, th, e, hmoment, hput,
        (hputs key v hput).2⟩
    · obtain ⟨hle, store, hmem, hrest⟩ := hs.entry key v fetchedAt hold
      exact ⟨le_trans hle (Nat.le_add_right _ _), store, List.mem_cons_of_mem _ hmem, hrest⟩
  · intro event hmem key v hfinds
    rcases List.mem_append.mp hmem with hmem | hmem
    · exact (hs.threads t th ht event hmem key v hfinds).cons _
    · obtain rfl := List.mem_singleton.mp hmem
      refine hs.recent rfl ⟨th, e, hmoment, rfl, ?_⟩ (find_of_finds hfinds)
      cases e <;> exact hfinds

theorem Dated.finish (hs : Dated ms s) {t : ℕ} {th : Thread} {result : Except Exn Reply}
    (ht : s.threads t = some th) (m : Moment K) : Dated (m :: ms) (s.finish t th result) := by
  refine hs.frame m rfl le_rfl (fun t' th' ht' => ?_) fun fin hfin => ?_
  · exact (hs.threads t' th' (threads_of_setThread_none ht').2).cons m
  · rcases List.mem_append.mp hfin with hfin | hfin
    · exact (hs.finished fin hfin).cons m
    · obtain rfl := List.mem_singleton.mp hfin
      exact (hs.threads t th ht).cons m

/-- **Every step keeps the stamps right.** -/
theorem Dated.step (hs : Dated ms s) (hord : Orderly s) (hin : InStep call a s)
    (hstep : Step h h' call a s s') : Dated (⟨a, s⟩ :: ms) s' := by
  have hthreads (m : Moment K) (t : ℕ) :
      ∀ t' th', t' ≠ t → s.threads t' = some th' → Timely (m :: ms) th'.toVisit :=
    fun t' th' _ ht' => (hs.threads t' th' ht').cons m
  have hfinished (m : Moment K) : ∀ fin ∈ s.finished, Timely (m :: ms) fin.toVisit :=
    fun fin hfin => (hs.finished fin hfin).cons m
  cases hstep with
  | start ht =>
    refine hs.frame _ rfl le_rfl (forall_setThread ?_ (hthreads _ _)) (hfinished _)
    exact fun event hmem => (List.not_mem_nil hmem).elim
  | wait =>
    exact hs.frame _ rfl (Nat.le_add_right _ _) (fun t th ht => (hs.threads t th ht).cons _)
      (hfinished _)
  | device =>
    exact hs.frame _ rfl le_rfl (fun t th ht => (hs.threads t th ht).cons _) (hfinished _)
  | returns ht hp => exact hs.finish ht _
  | throws ht hp => exact hs.finish ht _
  | performs ht hp hpermits => exact hs.performs hord ht hp
  | writes ht hp =>
    have hvisit := hs.threads _ _ ht
    exact hs.frame _ rfl le_rfl (forall_setThread (hvisit.cons _) (hthreads _ _)) (hfinished _)
  | reads ht hp hn =>
    have hvisit := hs.threads _ _ ht
    exact hs.frame _ rfl le_rfl (forall_setThread (hvisit.cons _) (hthreads _ _)) (hfinished _)
  | ends ht hp hended => exact (hord.not_ended hended).elim
  | strays ht hp hstray => exact (hstray (asks_of_inStep hin ht hp hord.daemon)).elim
  | exchanges ht hp hasks =>
    refine hs.frame _ rfl le_rfl (forall_setThread ?_ (hthreads _ _)) (hfinished _)
    intro event hmem key v hfinds
    rcases List.mem_append.mp hmem with hmem | hmem
    · exact (hs.threads _ _ ht event hmem key v hfinds).cons _
    · obtain rfl := List.mem_singleton.mp hmem
      cases key <;> exact hfinds.elim

theorem Timeline.dated (hs : Timeline h h' call ms s)
    (hin : ∀ m ∈ ms, InStep call m.action m.state) : Dated ms s := by
  induction hs with
  | new kernel clock => exact dated_new kernel clock
  | next hs hnext ih =>
    obtain ⟨hlast, hbefore⟩ := List.forall_mem_cons.mp hin
    exact (ih hbefore).step (Orderly.of_reachable (hs.reachable hbefore)) hlast (step_of_next hnext)

/-- **How old an answer may be**, in a run that is in step.  A stat that `req_stat_file` returns
comes from the exchange of the call, or it was found under that path in the cache, not longer than
`STAT_CACHE_PERIOD` after a method had stored it there, which had got it from the daemon for this
path.  A listing that is answered from the cache uses names that were found in the same way, and so
was every stat in it. -/
theorem answers_recent (hs : Timeline h h' call ms s)
    (hin : ∀ m ∈ ms, InStep call m.action m.state) (hf : f ∈ s.finished) :
    (∀ path stat, f.call = .statFile path → f.result = .ok (.stat stat) →
      f.call.Obtains f.trace (.stat (win32PathToUnix path)) stat ∨
        Recent ms f.started (.stat (win32PathToUnix path)) stat) ∧
    (∀ path entries, f.call = .listFileStats path → f.executed = none →
      f.result = .ok (.listing entries) →
        (∃ names, Recent ms f.started (.list (win32PathToUnix path)) names ∧
          (entries.map Prod.fst).Sublist names) ∧
        ∀ entry ∈ entries,
          Recent ms f.started (.stat (getFullPath (win32PathToUnix path) entry.1)) entry.2) := by
  have hord := Orderly.of_reachable (hs.reachable hin)
  have hdated := hs.dated hin
  constructor
  · intro path stat hcall hret
    rcases hord.learns_stat hf hcall hret with ⟨event, hmem, hfinds⟩ | hobtains
    · exact Or.inr (hdated.finished f hf event hmem _ _ hfinds)
    · exact Or.inl hobtains
  · intro path entries hcall hexec hret
    have hnot {key : Key} {v : key.Value} : ¬f.call.Obtains f.trace key v := by
      rintro ⟨r, hr, -⟩
      obtain ⟨i, hi, -⟩ := (hord.finished f hf).logged.executed r hr
      rw [hexec] at hi
      cases hi
    have found {key : Key} {v : key.Value} (hv : f.Learns key v) : Recent ms f.started key v := by
      obtain ⟨event, hmem, hfinds⟩ := hv.resolve_right hnot
      exact hdated.finished f hf event hmem _ _ hfinds
    obtain ⟨⟨names, hnames, hsub⟩, hstats⟩ := hord.learns_listing hf hcall hret
    exact ⟨⟨names, found hnames, hsub⟩, fun entry hentry => found (hstats entry hentry)⟩

/-! ## When a value was decoded -/

end System

namespace Moment

variable {K : Type}

/-- The stat that a thread has decoded with this read, and its path: the next thing it does is to
store it. -/
def decodes? (m : Moment K) : Option (ByteString × FileStat) :=
  match m.action with
  | .step t _ =>
      match m.state.threads t with
      | some ⟨_, .act (.readExact n) k⟩ =>
          match k (some (m.state.incoming.take n)) with
          | .act (.call (.putStat path stat)) _ => some (path, stat)
          | _ => none
      | _ => none
  | _ => none

/-- The method that returns at this moment, whether it had an exchange, and what it returns. -/
def returns? (m : Moment K) : Option (Call × Bool × Reply) :=
  match m.action with
  | .step t _ =>
      match m.state.threads t with
      | some ⟨visit, .ret reply⟩ => some (visit.call, visit.executed.isSome, reply)
      | _ => none
  | _ => none

end Moment

namespace System

variable {K : Type} {h h' : Host} {call : Kernel K} {s : System K}

/-- The path was decoded with this stat, not longer than `STAT_CACHE_PERIOD` before `now`. -/
def DecodedSince (ms : List (Moment K)) (now : ℕ) (path : ByteString) (stat : FileStat) : Prop :=
  ∃ m ∈ ms, m.decodes? = some (path, stat) ∧ now ≤ m.state.clock + STAT_CACHE_PERIOD

/-- A stat that is returned was decoded not long before it is returned. -/
def StatsDecodedRecently (ms : List (Moment K)) : Prop :=
  ∀ m ∈ ms, ∀ path exchanged stat,
    m.returns? = some (.statFile path, exchanged, .stat stat) →
      DecodedSince ms m.state.clock (win32PathToUnix path) stat

/-- The names in a listing from the cache were decoded not long before it is returned.  A name is
decoded together with the stat of its entry. -/
def NamesDecodedRecently (ms : List (Moment K)) : Prop :=
  ∀ m ∈ ms, ∀ path entries, m.returns? = some (.listFileStats path, false, .listing entries) →
    ∀ entry ∈ entries, ∃ stat,
      DecodedSince ms m.state.clock (getFullPath (win32PathToUnix path) entry.1) stat

/-- Several steps with all their moments. -/
def record (h h' : Host) (call : Kernel K) :
    List (Action K) → List (Moment K) → System K → Option (List (Moment K) × System K)
  | [], ms, s => some (ms, s)
  | a :: as, ms, s => (next h h' call a s).bind (record h h' call as (⟨a, s⟩ :: ms))

theorem Timeline.exists_of_record {ms : List (Moment K)} (hs : Timeline h h' call ms s)
    (as : List (Action K)) (p : List (Moment K) × System K → Bool)
    (hrun : (record h h' call as ms s).any p = true) :
    ∃ ms' s', Timeline h h' call ms' s' ∧ p (ms', s') = true := by
  induction as generalizing ms s with
  | nil => exact ⟨ms, s, hs, hrun⟩
  | cons a as ih =>
    unfold record at hrun
    rcases hnext : System.next h h' call a s with _ | s₁
    · rw [hnext] at hrun
      cases hrun
    · rw [hnext] at hrun
      exact ih (hs.next hnext) hrun

theorem timeline_start : Timeline .windows (.unix .little) Device.kernel [] Device.start :=
  .new _ _

/-- The listing of `/d` is held up for a second between the moment at which it has decoded `f` and
the moment at which it stores what it has decoded.  A tenth of a second later `/d/f` is inspected,
and `/d` is listed again: both are answered from the cache. -/
def slowListing : List (Action Device) :=
  Device.visit 0 (.listFileStats [92, 100]) 14 ++ [.wait 1000000000] ++
    List.replicate 5 (.step 0 1) ++ [.wait 100000000] ++
    Device.visit 1 (.statFile [92, 100, 92, 102]) 2 ++ Device.visit 2 (.listFileStats [92, 100]) 4

/-- **The answers may have been decoded long ago.** -/
theorem not_decodedRecently_slowListing :
    ∃ (ms : List (Moment Device)) (s : System Device),
      Timeline .windows (.unix .little) Device.kernel ms s ∧
      ¬StatsDecodedRecently ms ∧ ¬NamesDecodedRecently ms := by
  obtain ⟨ms, s, hs, hend⟩ := timeline_start.exists_of_record slowListing
    (fun run => decide
      ((∃ m ∈ run.1, m.returns? = some (.statFile [92, 100, 92, 102], false,
          .stat ⟨33188, 5, 0, 7⟩) ∧ 1000000000 ≤ m.state.clock) ∧
        (∃ m ∈ run.1, m.returns? = some (.listFileStats [92, 100], false,
          .listing [([102], ⟨33188, 5, 0, 7⟩)]) ∧ 1000000000 ≤ m.state.clock) ∧
        ∀ m ∈ run.1, m.decodes?.isSome → m.state.clock ≤ 10))
    (by decide +kernel)
  obtain ⟨⟨m₁, hm₁, hret₁, hclock₁⟩, ⟨m₂, hm₂, hret₂, hclock₂⟩, hdecodes⟩ := of_decide_eq_true hend
  have hold {now : ℕ} {path : ByteString} {stat : FileStat} (hnow : 1000000000 ≤ now) :
      ¬DecodedSince ms now path stat := by
    rintro ⟨m, hm, hdec, hle⟩
    have := hdecodes m hm (by rw [hdec]; rfl)
    have hperiod : STAT_CACHE_PERIOD = 200000000 := rfl
    omega
  refine ⟨ms, s, hs, fun hall => ?_, fun hall => ?_⟩
  · exact hold hclock₁ (hall m₁ hm₁ _ _ _ hret₁)
  · obtain ⟨stat, hstat⟩ := hall m₂ hm₂ _ _ hret₂ _ List.mem_cons_self
    exact hold hclock₂ hstat

/-- The run of `slowListing`: what its two last calls return was stored in time. -/
theorem answers_recent_slowListing :
    ∃ (ms : List (Moment Device)) (s : System Device),
      Timeline .windows (.unix .little) Device.kernel ms s ∧
      (∃ f ∈ s.finished, f.call = .statFile [92, 100, 92, 102] ∧ f.executed = none ∧
        (f.call.Obtains f.trace (.stat (win32PathToUnix [92, 100, 92, 102])) ⟨33188, 5, 0, 7⟩ ∨
          Recent ms f.started (.stat (win32PathToUnix [92, 100, 92, 102])) ⟨33188, 5, 0, 7⟩)) ∧
      ∃ f ∈ s.finished, f.call = .listFileStats [92, 100] ∧
        ∃ names, Recent ms f.started (.list (win32PathToUnix [92, 100])) names ∧
          [[102]].Sublist names := by
  obtain ⟨ms, s, hs, hend⟩ := timeline_start.exists_of_record slowListing
    (fun run => decide ((∀ m ∈ run.1, InStep Device.kernel m.action m.state) ∧
      run.2.finished.map Finished.account =
      [⟨.listFileStats [92, 100], 0, some 0, 1, [[102]],
          .ok (.listing [([102], ⟨33188, 5, 0, 7⟩)])⟩,
        ⟨.statFile [92, 100, 92, 102], 2, none, 3, [], .ok (.stat ⟨33188, 5, 0, 7⟩)⟩,
        ⟨.listFileStats [92, 100], 4, none, 5, [[102]],
          .ok (.listing [([102], ⟨33188, 5, 0, 7⟩)])⟩]))
    (by decide +kernel)
  obtain ⟨hin, haccounts⟩ := of_decide_eq_true hend
  obtain ⟨f, hf, hfa⟩ := exists_of_account haccounts (.tail _ (.head _))
  obtain ⟨g, hg, hga⟩ := exists_of_account haccounts (.tail _ (.tail _ (.head _)))
  refine ⟨ms, s, hs, ⟨f, hf, congrArg Account.call hfa, congrArg Account.executed hfa, ?_⟩,
    g, hg, congrArg Account.call hga, ?_⟩
  · exact (answers_recent hs hin hf).1 _ _ (congrArg Account.call hfa) (congrArg Account.result hfa)
  · exact ((answers_recent hs hin hg).2 _ _ (congrArg Account.call hga)
      (congrArg Account.executed hga) (congrArg Account.result hga)).1

end System

end NandroidFS
