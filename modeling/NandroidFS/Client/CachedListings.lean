import NandroidFS.Client.Timeline

/-!
# Cached listings

A listing that is answered from `dir_list_cache` should hand on the names that were recorded when
the directory was listed.  The names and the stats are in two caches, which are filled and cleared
at different times, and a name whose stat is gone is passed over.

* `System.lastStored?`: the time at which a stat was stored last and not removed since.
* `System.Stored.step`: what was stored not longer than `STAT_CACHE_PERIOD` ago, and not removed
  since, is still there.
* `System.listingsComplete_of_storedInTime`: if every entry was stored in time, nothing is missing.
* `System.not_listingsComplete_setFileTime`: a run of three requests in which an entry is missing.
-/

namespace NandroidFS

/-- No look-up of a stat has failed. -/
def NoMiss (τ : List Event) : Prop :=
  ∀ p, Event.call (.getStat p) none ∉ τ

/-- A cached listing without a miss hands on every name. -/
theorem LooksUp.handed_of_noMiss {dir : ByteString}
    {answers : List (ByteString × Option FileStat)} {τ : List Event} (hτ : LooksUp dir answers τ)
    (hmiss : NoMiss τ) :
    (τ.filterMap Event.handed?).map some = (answers.map Prod.fst).map unixPathToWin32 := by
  induction hτ with
  | nil => rfl
  | miss h ih => exact (hmiss _ List.mem_cons_self).elim
  | @hit name stat fileName answers τ hname h ih =>
    have hrest : NoMiss τ := fun p hp =>
      hmiss p (List.mem_cons_of_mem _ (List.mem_cons_of_mem _ hp))
    show some fileName :: (τ.filterMap Event.handed?).map some =
      unixPathToWin32 name :: (answers.map Prod.fst).map unixPathToWin32
    rw [ih hrest, hname]

/-! ## Stores and removals -/

/-- The call that a thread makes next. -/
def Thread.calls? (th : Thread) : Option ConnAct :=
  match th.program with
  | .act (.call e) _ => some e
  | _ => none

/-- The call that is made at this moment. -/
def Moment.calls? {K : Type} (m : Moment K) : Option ConnAct :=
  match m.action with
  | .step t _ => (m.state.threads t).bind Thread.calls?
  | _ => none

namespace System

variable {K : Type} {h h' : Host} {call : Kernel K} {s s' : System K} {a : Action K}
  {ms : List (Moment K)}

/-- The time at which a stat of the path was stored last, unless it has been removed since. -/
def lastStored? (path : ByteString) : List (Moment K) → Option ℕ
  | [] => none
  | m :: before =>
      match m.calls? with
      | some (.putStat path' _) =>
          if path' = path then some m.state.clock else lastStored? path before
      | some (.eraseStat path') => if path' = path then none else lastStored? path before
      | _ => lastStored? path before

/-- **A cached listing hands on the names that were recorded.**  Whenever a listing is answered
without asking the daemon, the names handed to `consume_stat` are those of a listing that the daemon
has produced. -/
def ListingsComplete (s : System K) : Prop :=
  ∀ f ∈ s.finished, ∀ path entries, f.call = .listFileStats path → f.executed = none →
    f.result = .ok (.listing entries) →
      ∃ names j, Event.call (.getList (win32PathToUnix path)) (some names) ∈ f.trace ∧
        GivenAt s.log j (.list (win32PathToUnix path)) names ∧
        f.handed.map some = names.map unixPathToWin32

/-- The path whose stat a thread is about to look up for a cached listing. -/
def lookUp? (a : Action K) (s : System K) : Option ByteString :=
  match a with
  | .step t _ =>
      match s.threads t with
      | some ⟨⟨.listFileStats _, _, _, _⟩, .act (.call (.getStat path)) _⟩ => some path
      | _ => none
  | _ => none

/-- When a cached listing looks up the stat of an entry, it can be found. -/
def LookUpHits (a : Action K) (s : System K) : Prop :=
  ∀ p ∈ lookUp? a s, s.caches.find s.clock (.stat p) ≠ none

/-- The listing has missed nothing so far. -/
def Unmissed (visit : Visit) : Prop :=
  ∀ path, visit.call = .listFileStats path → NoMiss visit.trace

theorem lookUp?_eq_some {t duration : ℕ} {th : Thread} {path : WString} {p : ByteString}
    {k : Option FileStat → ConnM Reply} (ht : s.threads t = some th)
    (hcall : th.call = .listFileStats path) (hp : th.program = .act (.call (.getStat p)) k) :
    lookUp? (.step t duration) s = some p := by
  obtain ⟨⟨c, started, executed, trace⟩, program⟩ := th
  obtain rfl : c = .listFileStats path := hcall
  obtain rfl : program = .act (.call (.getStat p)) k := hp
  simp only [lookUp?, ht]

/-- Nobody misses anything with a look-up that hits. -/
theorem unmissed_step (hok : LookUpHits a s) (hin : InStep call a s) (hord : Orderly s)
    (hstep : Step h h' call a s s')
    (hthreads : ∀ t th, s.threads t = some th → Unmissed th.toVisit)
    (hfinished : ∀ fin ∈ s.finished, Unmissed fin.toVisit) :
    (∀ t th, s'.threads t = some th → Unmissed th.toVisit) ∧
      ∀ fin ∈ s'.finished, Unmissed fin.toVisit := by
  have hrest (t : ℕ) : ∀ t' th', t' ≠ t → s.threads t' = some th' → Unmissed th'.toVisit :=
    fun t' th' _ ht' => hthreads t' th' ht'
  have ended {t : ℕ} {th : Thread} (ht : s.threads t = some th) (result : Except Exn Reply) :
      (∀ t' th', (s.finish t th result).threads t' = some th' → Unmissed th'.toVisit) ∧
        ∀ fin ∈ (s.finish t th result).finished, Unmissed fin.toVisit := by
    refine ⟨fun t' th' ht' => hthreads t' th' (threads_of_setThread_none ht').2, ?_⟩
    intro fin hfin
    rcases List.mem_append.mp hfin with hfin | hfin
    · exact hfinished fin hfin
    · obtain rfl := List.mem_singleton.mp hfin
      exact hthreads t th ht
  cases hstep with
  | start ht =>
    refine ⟨forall_setThread ?_ (hrest _), hfinished⟩
    exact fun path _ p hp => List.not_mem_nil hp
  | wait => exact ⟨hthreads, hfinished⟩
  | device => exact ⟨hthreads, hfinished⟩
  | returns ht hp => exact ended ht _
  | throws ht hp => exact ended ht _
  | writes ht hp =>
    have hthread := hthreads _ _ ht
    exact ⟨forall_setThread hthread (hrest _), hfinished⟩
  | reads ht hp hn =>
    have hthread := hthreads _ _ ht
    exact ⟨forall_setThread hthread (hrest _), hfinished⟩
  | ends ht hp hended => exact (hord.not_ended hended).elim
  | strays ht hp hstray => exact (hstray (asks_of_inStep hin ht hp hord.daemon)).elim
  | exchanges ht hp hasks =>
    refine ⟨forall_setThread ?_ (hrest _), hfinished⟩
    intro path hcall p hmem
    rcases List.mem_append.mp hmem with hmem | hmem
    · exact hthreads _ _ ht path hcall p hmem
    · cases List.mem_singleton.mp hmem
  | performs ht hp hpermits =>
    refine ⟨forall_setThread ?_ (hrest _), hfinished⟩
    intro path hcall p hmem
    rcases List.mem_append.mp hmem with hmem | hmem
    · exact hthreads _ _ ht path hcall p hmem
    · obtain ⟨rfl, hanswer⟩ := Event.call.inj (List.mem_singleton.mp hmem)
      exact hok p (lookUp?_eq_some ht hcall hp) (eq_of_heq hanswer).symm

/-! ## What is still there -/

/-- What was stored not longer than `STAT_CACHE_PERIOD` ago, and not removed since, is there. -/
structure Stored (ms : List (Moment K)) (s : System K) : Prop where
  periodic : s.caches.Periodic
  entry : ∀ path storedAt, lastStored? path ms = some storedAt →
    s.clock ≤ storedAt + STAT_CACHE_PERIOD →
      ∃ stat, s.caches.entry (.stat path) = some ⟨stat, storedAt⟩

theorem stored_new (kernel : K) (clock : ℕ) : Stored [] (new kernel clock) where
  periodic := ⟨rfl, rfl⟩
  entry path storedAt hlast := by cases hlast

/-- A step that is no call. -/
theorem Stored.frame (hs : Stored ms s) {m : Moment K} (hcalls : m.calls? = none)
    (hcaches : s'.caches = s.caches) (hclock : s.clock ≤ s'.clock) : Stored (m :: ms) s' where
  periodic := hcaches ▸ hs.periodic
  entry path storedAt hlast hle := by
    rw [lastStored?, hcalls] at hlast
    rw [hcaches]
    exact hs.entry path storedAt hlast (hclock.trans hle)

theorem calls?_step {t duration : ℕ} {th : Thread} (ht : s.threads t = some th) :
    Moment.calls? ⟨.step t duration, s⟩ = th.calls? := by
  show (s.threads t).bind Thread.calls? = th.calls?
  rw [ht]
  rfl

theorem Stored.performs (hs : Stored ms s) {t duration : ℕ} {th : Thread} {e : ConnAct}
    {k : e.Res → ConnM Reply} (ht : s.threads t = some th)
    (hp : th.program = .act (.call e) k) :
    Stored (⟨.step t duration, s⟩ :: ms) (s.performs t th e k duration) := by
  have hcalls : Moment.calls? ⟨.step t duration, s⟩ = some e := by
    rw [calls?_step ht, Thread.calls?, hp]
  refine ⟨hs.periodic.perform, fun path storedAt hlast hle => ?_⟩
  have hle : s.clock + duration ≤ storedAt + STAT_CACHE_PERIOD := hle
  have hold (hlast : lastStored? path ms = some storedAt) :
      ∃ stat, s.caches.stat.cachedData path = some ⟨stat, storedAt⟩ :=
    hs.entry path storedAt hlast ((Nat.le_add_right _ _).trans hle)
  rw [lastStored?, hcalls] at hlast
  cases e with
  | putStat path' stat =>
    simp only at hlast
    have hvalid : s.clock + duration - storedAt ≤ s.caches.stat.cachedItemValidFor := by
      rw [hs.periodic.1]
      omega
    by_cases hpath : path' = path
    · subst hpath
      rw [if_pos rfl] at hlast
      obtain rfl := Option.some.inj hlast
      exact ⟨stat, TimedCache.cachedData_cache_self hvalid⟩
    · rw [if_neg hpath] at hlast
      obtain ⟨stat', hstat'⟩ := hold hlast
      exact ⟨stat', TimedCache.cachedData_cache_of_ne (Ne.symm hpath) hstat' hvalid⟩
  | eraseStat path' =>
    simp only at hlast
    by_cases hpath : path' = path
    · rw [if_pos hpath] at hlast
      cases hlast
    · rw [if_neg hpath] at hlast
      obtain ⟨stat, hstat⟩ := hold hlast
      exact ⟨stat, (TimedCache.cachedData_erase_of_ne (Ne.symm hpath)).trans hstat⟩
  | _ => exact hold hlast

/-- **A stat stays in the cache for `STAT_CACHE_PERIOD`, unless it is removed.** -/
theorem Stored.step (hs : Stored ms s) (hstep : Step h h' call a s s') :
    Stored (⟨a, s⟩ :: ms) s' := by
  have none_of {t duration : ℕ} {th : Thread} (ht : s.threads t = some th)
      (hp : th.calls? = none) : Moment.calls? ⟨.step t duration, s⟩ = none :=
    (calls?_step ht).trans hp
  cases hstep with
  | start ht => exact hs.frame rfl rfl le_rfl
  | wait => exact hs.frame rfl rfl (Nat.le_add_right _ _)
  | device => exact hs.frame rfl rfl le_rfl
  | performs ht hp hpermits => exact hs.performs ht hp
  | returns ht hp => exact hs.frame (none_of ht (by rw [Thread.calls?, hp])) rfl le_rfl
  | throws ht hp => exact hs.frame (none_of ht (by rw [Thread.calls?, hp])) rfl le_rfl
  | writes ht hp => exact hs.frame (none_of ht (by rw [Thread.calls?, hp])) rfl le_rfl
  | reads ht hp hn => exact hs.frame (none_of ht (by rw [Thread.calls?, hp])) rfl le_rfl
  | ends ht hp hended => exact hs.frame (none_of ht (by rw [Thread.calls?, hp])) rfl le_rfl
  | exchanges ht hp hasks => exact hs.frame (none_of ht (by rw [Thread.calls?, hp])) rfl le_rfl
  | strays ht hp hstray => exact hs.frame (none_of ht (by rw [Thread.calls?, hp])) rfl le_rfl

theorem Timeline.stored (hs : Timeline h h' call ms s) : Stored ms s := by
  induction hs with
  | new kernel clock => exact stored_new kernel clock
  | next _ hnext ih => exact ih.step (step_of_next hnext)

/-! ## Complete listings -/

/-- **Every entry was stored in time.**  When a cached listing looks up the stat of an entry, one
was stored not longer than `STAT_CACHE_PERIOD` before, and nobody has removed it since. -/
def StoredInTime : List (Moment K) → Prop
  | [] => True
  | m :: before =>
      (∀ p ∈ lookUp? m.action m.state, ∃ storedAt ∈ lastStored? p before,
        m.state.clock ≤ storedAt + STAT_CACHE_PERIOD) ∧ StoredInTime before

theorem Stored.lookUpHits (hs : Stored ms s) (hintime : StoredInTime (⟨a, s⟩ :: ms)) :
    LookUpHits a s := by
  intro p hp hnone
  obtain ⟨storedAt, hlast, hle⟩ := hintime.1 p hp
  obtain ⟨stat, hentry⟩ := hs.entry p storedAt hlast hle
  have hvalid : s.clock - storedAt ≤ s.caches.stat.cachedItemValidFor := by
    rw [hs.periodic.1]
    exact Nat.sub_le_of_le_add (Nat.add_comm storedAt _ ▸ hle)
  cases hnone.symm.trans (TimedCache.getCached_eq_some.mpr ⟨storedAt, hentry, hvalid⟩)

theorem Timeline.unmissed (hs : Timeline h h' call ms s)
    (hin : ∀ m ∈ ms, InStep call m.action m.state) (hintime : StoredInTime ms) :
    (∀ t th, s.threads t = some th → Unmissed th.toVisit) ∧
      ∀ fin ∈ s.finished, Unmissed fin.toVisit := by
  induction hs with
  | new kernel clock =>
    refine ⟨fun t th ht => ?_, fun fin hfin => ?_⟩
    · cases ht
    · cases hfin
  | next hs hnext ih =>
    obtain ⟨hlast, hbefore⟩ := List.forall_mem_cons.mp hin
    obtain ⟨hthreads, hfinished⟩ := ih hbefore hintime.2
    exact unmissed_step (hs.stored.lookUpHits hintime) hlast
      (Orderly.of_reachable (hs.reachable hbefore)) (step_of_next hnext) hthreads hfinished

/-- In every run that is in step and in which every entry that a cached listing looks up was stored
in time, cached listings are complete. -/
theorem listingsComplete_of_storedInTime (hs : Timeline h h' call ms s)
    (hin : ∀ m ∈ ms, InStep call m.action m.state) (hintime : StoredInTime ms) :
    s.ListingsComplete := by
  have hreachable := hs.reachable hin
  have hord := Orderly.of_reachable hreachable
  have hcoh : Coherent (fun _ _ _ => False) s :=
    Coherent.of_reachable (fun _ _ _ _ => False.elim)
      (hreachable.mono fun _ _ hin => ⟨hin, fun _ _ _ hfalse => hfalse.elim⟩)
  intro f hf path entries hcall hexec hret
  have hmiss := (hs.unmissed hin hintime).2 f hf path hcall
  rcases hord.executedAt_of_ok hf hret with ⟨i, hi, -⟩ | ⟨-, hcache⟩
  · rw [hexec] at hi
    cases hi
  · rw [hcall] at hcache
    obtain ⟨answers, τ, htrace, hlooks, -⟩ := hcache
    have hmem : Event.call (.getList (win32PathToUnix path)) (some (answers.map Prod.fst)) ∈
        f.trace := by
      rw [htrace]
      exact List.mem_cons_self
    obtain ⟨j, hgiven, -⟩ := hcoh.finished f hf _ hmem (.list (win32PathToUnix path)) _ ⟨rfl, rfl⟩
    refine ⟨answers.map Prod.fst, j, hmem, hgiven, ?_⟩
    unfold Visit.handed
    rw [htrace] at hmiss ⊢
    exact hlooks.handed_of_noMiss fun p hp => hmiss p (List.mem_cons_of_mem _ hp)

instance decidableStoredInTime : (ms : List (Moment K)) → Decidable (StoredInTime ms)
  | [] => inferInstanceAs (Decidable True)
  | m :: before =>
      have := decidableStoredInTime before
      inferInstanceAs (Decidable ((∀ p ∈ lookUp? m.action m.state,
        ∃ storedAt ∈ lastStored? p before,
          m.state.clock ≤ storedAt + STAT_CACHE_PERIOD) ∧ StoredInTime before))

/-- `/d` is listed, the times of `/d/f` are set, `/d/f` is inspected, which stores its new stat, and
`/d` is listed again within 200 milliseconds. -/
theorem listingsComplete_of_storedInTime_again :
    ∃ (ms : List (Moment Device)) (s : System Device),
      Timeline .windows (.unix .little) Device.kernel ms s ∧ StoredInTime ms ∧
      s.ListingsComplete ∧ s.finished.map Finished.account =
        [⟨.listFileStats [92, 100], 0, some 0, 1, [[102]],
            .ok (.listing [([102], ⟨33188, 5, 0, 7⟩)])⟩,
          ⟨.setFileTime [92, 100, 92, 102] 0 90000000, 2, some 1, 3, [], .ok (.status .success)⟩,
          ⟨.statFile [92, 100, 92, 102], 4, some 2, 5, [], .ok (.stat ⟨33188, 5, 0, 90000000⟩)⟩,
          ⟨.listFileStats [92, 100], 6, none, 7, [[102]],
            .ok (.listing [([102], ⟨33188, 5, 0, 90000000⟩)])⟩] := by
  obtain ⟨ms, s, hs, hend⟩ := timeline_start.exists_of_record
    (Device.visit 0 (.listFileStats [92, 100]) 19 ++
      Device.visit 1 (.setFileTime [92, 100, 92, 102] 0 90000000) 11 ++
      Device.visit 2 (.statFile [92, 100, 92, 102]) 14 ++
      Device.visit 0 (.listFileStats [92, 100]) 4)
    (fun run => decide ((∀ m ∈ run.1, InStep Device.kernel m.action m.state) ∧
      StoredInTime run.1 ∧ run.2.finished.map Finished.account =
      [⟨.listFileStats [92, 100], 0, some 0, 1, [[102]],
          .ok (.listing [([102], ⟨33188, 5, 0, 7⟩)])⟩,
        ⟨.setFileTime [92, 100, 92, 102] 0 90000000, 2, some 1, 3, [], .ok (.status .success)⟩,
        ⟨.statFile [92, 100, 92, 102], 4, some 2, 5, [], .ok (.stat ⟨33188, 5, 0, 90000000⟩)⟩,
        ⟨.listFileStats [92, 100], 6, none, 7, [[102]],
          .ok (.listing [([102], ⟨33188, 5, 0, 90000000⟩)])⟩]))
    (by decide +kernel)
  obtain ⟨hin, hintime, haccounts⟩ := of_decide_eq_true hend
  exact ⟨ms, s, hs, hintime, listingsComplete_of_storedInTime hs hin hintime, haccounts⟩

/-- `/d` is listed, the times of `/d/f` are set, and `/d` is listed again within 200 milliseconds:
`f` is gone. -/
theorem not_listingsComplete_setFileTime :
    ¬∀ s : System Device,
      Reachable .windows (.unix .little) Device.kernel (fun _ _ => True) s →
        s.ListingsComplete := by
  intro hall
  obtain ⟨s, hs, hend⟩ := (Device.reachable_start fun _ _ => True).exists_of_replay
    (fun _ _ => true) (fun _ _ _ _ => trivial)
    (Device.visit 0 (.listFileStats [92, 100]) 19 ++
      Device.visit 0 (.setFileTime [92, 100, 92, 102] 0 90000000) 11 ++
      Device.visit 0 (.listFileStats [92, 100]) 3)
    (fun s => decide (s.finished.map Finished.account =
        [⟨.listFileStats [92, 100], 0, some 0, 1, [[102]],
            .ok (.listing [([102], ⟨33188, 5, 0, 7⟩)])⟩,
          ⟨.setFileTime [92, 100, 92, 102] 0 90000000, 2, some 1, 3, [], .ok (.status .success)⟩,
          ⟨.listFileStats [92, 100], 4, none, 5, [], .ok (.listing [])⟩] ∧
      s.log = [⟨.listDirectory [47, 100], .listing [.entry ⟨[102], by decide⟩ ⟨33188, 5, 0, 7⟩]⟩,
        ⟨.setFileTime ⟨[47, 100, 47, 102], 0, 90000000⟩, .status .success⟩]))
    (by decide +kernel)
  obtain ⟨haccounts, hlog⟩ := of_decide_eq_true hend
  obtain ⟨f, hf, hfa⟩ := exists_of_account haccounts (.tail _ (.tail _ (.head _)))
  obtain ⟨names, j, -, ⟨e, he, hgives⟩, hhanded⟩ := hall s hs f hf _ _
    (congrArg Account.call hfa) (congrArg Account.executed hfa) (congrArg Account.result hfa)
  -- the listing that was recorded is the first exchange, and it has a name
  have hnames : names = [[102]] := by
    have hmem := List.mem_of_getElem? he
    rw [hlog] at hmem
    simp only [List.mem_cons, List.not_mem_nil, or_false] at hmem
    rcases hmem with rfl | rfl
    · exact hgives.2.symm
    · exact hgives.elim
  rw [show f.handed = [] from congrArg Account.handed hfa, hnames] at hhanded
  cases hhanded

end System

end NandroidFS
