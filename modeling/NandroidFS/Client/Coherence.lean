import NandroidFS.Client.Mutex

/-!
# What a cached value is worth

A cached value is as good as the last exchange that could have changed it, as long as the connection
stays in step.  `Touched` says which exchanges of the log count as a change of which keys; it is a
parameter, because what is known about a key depends on what one asks of it.  For every choice of it
the same invariant holds, as long as no exchange touches a key under which something can still be
found and which its method does not invalidate (`System.Guarded`):

* what can be found was produced after every exchange that touches its key, except perhaps one whose
  method has yet to invalidate it and still holds the mutex (`System.Fresh`);
* what a thread has found was produced after every such exchange whose method had returned when the
  thread started (`Settled`).

`System.learns_after` is the conclusion for two methods one of which returned before the other
started.
-/

namespace NandroidFS

/-! ## The log -/

/-- The exchange at this place of the log produced the value. -/
def GivenAt (log : List Exchange) (j : ℕ) (key : Key) (v : key.Value) : Prop :=
  ∃ e, log[j]? = some e ∧ e.Gives key v

theorem GivenAt.append {log : List Exchange} {j : ℕ} {key : Key} {v : key.Value}
    (hj : GivenAt log j key v) (x : Exchange) : GivenAt (log ++ [x]) j key v := by
  obtain ⟨e, hlog, hgives⟩ := hj
  have hlt := (List.getElem?_eq_some_iff.mp hlog).1
  exact ⟨e, (List.getElem?_append_left hlt).trans hlog, hgives⟩

section Touching

variable (Touched : List Exchange → Exchange → Key → Prop)

/-- The exchange at this place of the log touches the key. -/
def TouchedAt (log : List Exchange) (i : ℕ) (key : Key) : Prop :=
  ∃ o, log[i]? = some o ∧ Touched (log.take i) o key

variable {Touched}

theorem TouchedAt.lt_length {log : List Exchange} {i : ℕ} {key : Key}
    (hi : TouchedAt Touched log i key) : i < log.length := by
  obtain ⟨o, hlog, -⟩ := hi
  exact (List.getElem?_eq_some_iff.mp hlog).1

/-- One more exchange touches what it touches and changes nothing before it. -/
theorem touchedAt_append {log : List Exchange} {x : Exchange} {i : ℕ} {key : Key} :
    TouchedAt Touched (log ++ [x]) i key ↔
      TouchedAt Touched log i key ∨ i = log.length ∧ Touched log x key := by
  constructor
  · rintro ⟨o, hlog, ho⟩
    have hlt := (List.getElem?_eq_some_iff.mp hlog).1
    rw [List.length_append, List.length_singleton] at hlt
    by_cases hi : i < log.length
    · rw [List.getElem?_append_left hi] at hlog
      rw [List.take_append_of_le_length hi.le] at ho
      exact Or.inl ⟨o, hlog, ho⟩
    · obtain rfl : i = log.length := by omega
      rw [List.getElem?_concat_length] at hlog
      obtain rfl := Option.some.inj hlog
      rw [List.take_left] at ho
      exact Or.inr ⟨rfl, ho⟩
  · rintro (⟨o, hlog, ho⟩ | ⟨rfl, hx⟩)
    · have hlt := (List.getElem?_eq_some_iff.mp hlog).1
      refine ⟨o, (List.getElem?_append_left hlt).trans hlog, ?_⟩
      rw [List.take_append_of_le_length hlt.le]
      exact ho
    · refine ⟨x, List.getElem?_concat_length, ?_⟩
      rw [List.take_left]
      exact hx

/-! ## Values that have been found -/

variable (Touched) in
/-- The value was produced after every exchange that touches its key and whose method had returned
before the given time. -/
def Settled (log : List Exchange) (finished : List Finished) (started : ℕ) (key : Key)
    (v : key.Value) : Prop :=
  ∃ j, GivenAt log j key v ∧ ∀ i, TouchedAt Touched log i key →
    i < j ∨ ∀ fin ∈ finished, fin.executed = some i → started ≤ fin.returned

variable {log : List Exchange} {finished : List Finished} {started : ℕ} {key : Key} {v : key.Value}

/-- Nobody has returned yet from an exchange that has just been made. -/
theorem Settled.exchange (hv : Settled Touched log finished started key v) (x : Exchange)
    (hfin : ∀ fin ∈ finished, fin.Logged log) :
    Settled Touched (log ++ [x]) finished started key v := by
  obtain ⟨j, hj, htouched⟩ := hv
  refine ⟨j, hj.append x, fun i hi => ?_⟩
  rcases touchedAt_append.mp hi with hi | ⟨rfl, -⟩
  · exact htouched i hi
  · refine Or.inr fun fin hmem hexec => ?_
    exact (Nat.lt_irrefl _ ((hfin fin hmem).lt_length hexec)).elim

/-- Who returns now returns after everyone who has started. -/
theorem Settled.finish (hv : Settled Touched log finished started key v) {fin : Finished}
    (hlt : started < fin.returned) :
    Settled Touched log (finished ++ [fin]) started key v := by
  obtain ⟨j, hj, htouched⟩ := hv
  refine ⟨j, hj, fun i hi => (htouched i hi).imp_right fun hold fin' hmem hexec => ?_⟩
  rcases List.mem_append.mp hmem with hmem | hmem
  · exact hold fin' hmem hexec
  · obtain rfl := List.mem_singleton.mp hmem
    exact hlt.le

variable (Touched) in
/-- Everything that the visit has found. -/
def Visit.Informed (log : List Exchange) (finished : List Finished) (visit : Visit) : Prop :=
  ∀ event ∈ visit.trace, ∀ (key : Key) (v : key.Value), event.Finds key v →
    Settled Touched log finished visit.started key v

end Touching

/-- What a look-up finds is there. -/
theorem find_of_finds {c : Caches} {e : ConnAct} {now later : ℕ} {key : Key} {v : key.Value}
    (hfinds : (Event.call e (Caches.perform now later e c).1).Finds key v) :
    c.find now key = some v := by
  cases e with
  | getStat path =>
    cases key with
    | stat path' =>
      obtain ⟨rfl, hfound⟩ := hfinds
      exact hfound
    | list dir => exact hfinds.elim
  | getList path =>
    cases key with
    | stat path' => exact hfinds.elim
    | list dir =>
      obtain ⟨rfl, hfound⟩ := hfinds
      exact hfound
  | _ => exact hfinds.elim

/-! ## Values that can be found -/

namespace System

variable {K : Type} {h h' : Host} {call : Kernel K} {s s' : System K} {a : Action K} {t : ℕ}
  (Touched : List Exchange → Exchange → Key → Prop)

/-- The exchange at this place belongs to the holder of the mutex, which has yet to invalidate the
key. -/
def Pending (s : System K) (i : ℕ) (key : Key) : Prop :=
  ∃ t th, s.holder = some t ∧ s.threads t = some th ∧ th.executed = some i ∧
    th.call.request.Late key ∧ ¬Cleared th.trace key

/-- The value was produced after every exchange that touches its key. -/
def Fresh (s : System K) (key : Key) (v : key.Value) : Prop :=
  ∃ j, GivenAt s.log j key v ∧
    ∀ i, TouchedAt Touched s.log i key → i < j ∨ s.Pending i key

/-- **The caches can be trusted.** -/
structure Coherent (s : System K) : Prop where
  cache : ∀ (key : Key) (v : key.Value), s.caches.find s.clock key = some v →
    s.Fresh Touched key v
  threads : ∀ t th, s.threads t = some th → th.Informed Touched s.log s.finished
  finished : ∀ fin ∈ s.finished, fin.Informed Touched s.log s.finished

/-- The step is no exchange, or it touches only keys that its method invalidates and keys under
which nothing can be found. -/
def Guarded (call : Kernel K) (a : Action K) (s : System K) : Prop :=
  ∀ x, exchange? call a s = some x → ∀ key, Touched s.log x key →
    x.request.Early key ∨ x.request.Late key ∨ s.caches.find s.clock key = none

variable {Touched}

theorem coherent_new (kernel : K) (clock : ℕ) : Coherent Touched (new kernel clock) where
  cache key v hv := by cases key <;> cases hv
  threads t th ht := by cases ht
  finished fin hfin := (List.not_mem_nil hfin).elim

/-- A thread that finds a fresh value has found a settled one. -/
theorem Fresh.settled {key : Key} {v : key.Value} (hv : s.Fresh Touched key v) (hs : Orderly s)
    (started : ℕ) : Settled Touched s.log s.finished started key v := by
  obtain ⟨j, hj, htouched⟩ := hv
  refine ⟨j, hj, fun i hi => (htouched i hi).imp_right ?_⟩
  rintro ⟨t, th, hholder, ht, hexec, -, -⟩ fin hfin hi
  -- the exchange of the holder is not that of a method that has returned
  exact (Nat.lt_irrefl i ((hs.threads t th ht).after fin hfin i i hi hexec)).elim

/-- A value stays fresh as long as the log does not grow and the holder of the mutex still has to
invalidate what it had to. -/
theorem Fresh.mono {key : Key} {v : key.Value} (hv : s.Fresh Touched key v)
    (hlog : s'.log = s.log) (hpending : ∀ i, s.Pending i key → s'.Pending i key) :
    s'.Fresh Touched key v := by
  obtain ⟨j, hj, htouched⟩ := hv
  refine ⟨j, hlog ▸ hj, fun i hi => ?_⟩
  rw [hlog] at hi
  exact (htouched i hi).imp_right (hpending i)

/-- The mover keeps its place: what the holder still has to do does not change. -/
theorem Pending.setThread {th : Thread} {i : ℕ} {key : Key} (hi : s.Pending i key)
    (ht : s.threads t = some th) {th' : Thread}
    (hthreads : s'.threads = (s.setThread t (some th')).threads) (hcall : th'.call = th.call)
    (hexec : th'.executed = th.executed) (hcleared : Cleared th'.trace key → Cleared th.trace key)
    (hholder : s'.holder = s.holder) : s'.Pending i key := by
  obtain ⟨t₀, th₀, hholder₀, ht₀, hexec₀, hlate, hnot⟩ := hi
  by_cases htt : t₀ = t
  · subst htt
    obtain rfl := Option.some.inj (ht₀.symm.trans ht)
    refine ⟨t₀, th', hholder.trans hholder₀, ?_, hexec.trans hexec₀, hcall ▸ hlate,
      fun hcl => hnot (hcleared hcl)⟩
    rw [hthreads, setThread_self]
  · refine ⟨t₀, th₀, hholder.trans hholder₀, ?_, hexec₀, hlate, hnot⟩
    rw [hthreads, setThread_of_ne s htt]
    exact ht₀

/-! ## Step by step -/

theorem Coherent.start (hs : Coherent Touched s) {c : Call} {rounds : ℕ}
    (ht : s.threads t = none) :
    Coherent Touched { s.setThread t (some ⟨⟨c, s.time, none, []⟩, c.program h rounds⟩) with
      time := s.time + 1 } := by
  refine ⟨fun key v hv => ?_, forall_setThread ?_ fun t' th' _ ht' => hs.threads t' th' ht',
    hs.finished⟩
  · refine (hs.cache key v hv).mono rfl ?_
    rintro i ⟨t₀, th₀, hholder, ht₀, hrest⟩
    have hne : t₀ ≠ t := by
      rintro rfl
      rw [ht] at ht₀
      cases ht₀
    exact ⟨t₀, th₀, hholder, (setThread_of_ne s hne _).trans ht₀, hrest⟩
  · exact fun event hmem => (List.not_mem_nil hmem).elim

theorem Coherent.wait (hs : Coherent Touched s) (duration : ℕ) :
    Coherent Touched { s with clock := s.clock + duration } where
  cache key v hv :=
    hs.cache key v (Caches.find_mono hv (Nat.le_add_right s.clock duration))
  threads := hs.threads
  finished := hs.finished

/-- A thread moves, and neither the caches nor the log have to do with it. -/
theorem Coherent.moves (hs : Coherent Touched s) {th th' : Thread} (ht : s.threads t = some th)
    (hthreads : s'.threads = (s.setThread t (some th')).threads)
    (hvisit : th'.toVisit = th.toVisit) (hcaches : s'.caches = s.caches)
    (hclock : s'.clock = s.clock) (hlog : s'.log = s.log) (hfinished : s'.finished = s.finished)
    (hholder : s'.holder = s.holder) : Coherent Touched s' := by
  refine ⟨fun key v hv => ?_, ?_, ?_⟩
  · rw [hcaches, hclock] at hv
    refine (hs.cache key v hv).mono hlog fun i hi => ?_
    refine hi.setThread ht hthreads (congrArg Visit.call hvisit) (congrArg Visit.executed hvisit)
      ?_ hholder
    rw [hvisit]
    exact id
  · rw [hthreads, hlog, hfinished]
    refine forall_setThread ?_ fun t' th' _ ht' => hs.threads t' th' ht'
    rw [hvisit]
    exact hs.threads t th ht
  · rw [hlog, hfinished]
    exact hs.finished

/-- What a thread stores comes from its own exchange, which is the last. -/
theorem fresh_of_obtains (hs : Orderly s)
    (hgives : ∀ log o key v, Touched log o key → ¬o.Gives key v) {th : Thread}
    (ht : s.threads t = some th) {key : Key} {v : key.Value}
    (hv : th.call.Obtains th.trace key v) : s.Fresh Touched key v := by
  have hth := hs.threads t th ht
  obtain ⟨r, hr, hrv⟩ := hv
  obtain ⟨j, hexec, hlog⟩ := hth.logged.executed r hr
  refine ⟨j, ⟨_, hlog, hrv⟩, fun i hi => Or.inl ?_⟩
  have hlast := hth.last j hexec
  have hlt := hi.lt_length
  have hne : i ≠ j := by
    rintro rfl
    obtain ⟨o, ho, htouched⟩ := hi
    obtain rfl := Option.some.inj (ho.symm.trans hlog)
    exact hgives _ _ _ _ htouched hrv
  omega

theorem Coherent.performs (hs : Coherent Touched s) (hord : Orderly s)
    (hgives : ∀ log o key v, Touched log o key → ¬o.Gives key v) {th : Thread} {e : ConnAct}
    {k : e.Res → ConnM Reply} {duration : ℕ} (ht : s.threads t = some th)
    (hp : th.program = .act (.call e) k) (hpermits : s.Permits e) :
    Coherent Touched (s.performs t th e k duration) := by
  have hth := hord.threads t th ht
  obtain ⟨⟨-, hputs⟩, -⟩ : th.call.Obeys _ (.act (.call e) k) th.trace (s.seen t) :=
    hp ▸ hth.obeys
  refine ⟨fun key v hv => ?_, forall_setThread ?_ fun t' th' _ ht' => hs.threads t' th' ht',
    hs.finished⟩
  · have hfresh : s.Fresh Touched key v := by
      rcases Caches.find_perform (Nat.le_add_right _ _) hv with hput | hfind
      · exact fresh_of_obtains hord hgives ht (hputs key v hput).2
      · exact hs.cache key v hfind
    refine hfresh.mono rfl fun i hi => ?_
    by_cases he : e = .lock
    · -- nobody holds a mutex that can be taken
      subst he
      obtain ⟨t₀, th₀, hholder, -⟩ := hi
      rw [show s.holder = none from hpermits] at hholder
      cases hholder
    · refine hi.setThread ht rfl rfl rfl (fun hcl => ?_) (holderAfter_of_ne he)
      refine (cleared_append_singleton.mp hcl).resolve_right fun hclears => ?_
      have hnone := Caches.find_of_clears hclears (s.clock + duration)
      cases hv.symm.trans hnone
  · intro event hmem key v hfinds
    rcases List.mem_append.mp hmem with hmem | hmem
    · exact hs.threads t th ht event hmem key v hfinds
    · obtain rfl := List.mem_singleton.mp hmem
      exact (hs.cache key v (find_of_finds hfinds)).settled hord th.started

theorem Coherent.exchanges (hs : Coherent Touched s) (hord : Orderly s) {th : Thread}
    {k : Unit → ConnM Reply} {rwBuffer : List UInt8} (ht : s.threads t = some th)
    (hp : th.program = .act .flush k)
    (hguard : ∀ key,
      Touched s.log ⟨th.call.request, (serve call th.call.request s.kernel).1⟩ key →
      th.call.request.Early key ∨ th.call.request.Late key ∨
        s.caches.find s.clock key = none) :
    Coherent Touched (s.exchanges call t th k rwBuffer) := by
  have hth := hord.threads t th ht
  obtain ⟨hholder, hx, hearly, -⟩ := hth.of_flush hp
  have hlogged : ∀ fin ∈ s.finished, fin.Logged s.log :=
    fun fin hfin => (hord.finished fin hfin).logged
  refine ⟨fun key v hv => ?_, forall_setThread ?_ fun t' th' _ ht' => ?_, fun fin hfin => ?_⟩
  · obtain ⟨j, hj, htouched⟩ := hs.cache key v hv
    refine ⟨j, hj.append _, fun i hi => ?_⟩
    rcases touchedAt_append.mp hi with hi | ⟨rfl, hnew⟩
    · refine Or.inl ((htouched i hi).resolve_right ?_)
      -- the holder has had no exchange so far
      rintro ⟨t₀, th₀, hholder₀, ht₀, hexec, -, -⟩
      obtain rfl := Option.some.inj (hholder.symm.trans hholder₀)
      obtain rfl := Option.some.inj (ht.symm.trans ht₀)
      rw [hth.logged.executed_eq_none hx] at hexec
      cases hexec
    · have hfound : ¬Cleared th.trace key := by
        intro hcl
        cases hv.symm.trans (hth.cleared key hcl)
      rcases hguard key hnew with hkey | hkey | hkey
      · exact (hfound (hearly key hkey)).elim
      · refine Or.inr ⟨t, _, hholder, setThread_self s t _, rfl, hkey, fun hcl => hfound ?_⟩
        exact (cleared_append_singleton.mp hcl).resolve_right id
      · cases hv.symm.trans hkey
  · intro event hmem key v hfinds
    rcases List.mem_append.mp hmem with hmem | hmem
    · exact (hs.threads t th ht event hmem key v hfinds).exchange _ hlogged
    · obtain rfl := List.mem_singleton.mp hmem
      cases key <;> exact hfinds.elim
  · exact fun event hmem key v hfinds =>
      (hs.threads t' th' ht' event hmem key v hfinds).exchange _ hlogged
  · exact fun event hmem key v hfinds =>
      (hs.finished fin hfin event hmem key v hfinds).exchange _ hlogged

theorem Coherent.finish (hs : Coherent Touched s) (hord : Orderly s) {th : Thread}
    {result : Except Exn Reply} (ht : s.threads t = some th) (hbreaks : th.call.Breaks th.trace) :
    Coherent Touched (s.finish t th result) := by
  have hth := hord.threads t th ht
  refine ⟨fun key v hv => ?_, fun t' th' ht' => ?_, fun fin hfin => ?_⟩
  · refine (hs.cache key v hv).mono rfl ?_
    rintro i ⟨t₀, th₀, hholder, ht₀, hexec, hlate, hnot⟩
    have hne : t₀ ≠ t := by
      rintro rfl
      obtain rfl := Option.some.inj (ht.symm.trans ht₀)
      obtain ⟨r, hr, -⟩ := hth.logged.exchanged i hexec
      exact hnot (hbreaks ⟨r, hr⟩ key hlate)
    refine ⟨t₀, th₀, ?_, (setThread_of_ne s hne none).trans ht₀, hexec, hlate, hnot⟩
    show (if s.holder = some t then none else s.holder) = some t₀
    rw [if_neg (by rw [hholder]; exact fun heq => hne (Option.some.inj heq)), hholder]
  · obtain ⟨-, ht'⟩ := threads_of_setThread_none ht'
    have hstarted := (hord.threads t' th' ht').started
    exact fun event hmem key v hfinds =>
      (hs.threads t' th' ht' event hmem key v hfinds).finish hstarted
  · intro event hmem key v hfinds
    rcases List.mem_append.mp hfin with hfin | hfin
    · have hf := hord.finished fin hfin
      exact (hs.finished fin hfin event hmem key v hfinds).finish
        (lt_of_le_of_lt hf.started hf.returned)
    · obtain rfl := List.mem_singleton.mp hfin
      exact (hs.threads t th ht event hmem key v hfinds).finish hth.started

/-- **Every guarded step keeps the caches coherent.** -/
theorem Coherent.step (hs : Coherent Touched s) (hord : Orderly s)
    (hgives : ∀ log o key v, Touched log o key → ¬o.Gives key v)
    (hin : InStep call a s) (hguard : Guarded Touched call a s) (hstep : Step h h' call a s s') :
    Coherent Touched s' := by
  cases hstep with
  | start ht => exact hs.start ht
  | wait => exact hs.wait _
  | device => exact { hs with }
  | returns ht hp =>
    refine hs.finish hord ht ?_
    have hends := (hord.threads _ _ ht).obeys
    rw [hp] at hends
    rcases hends with ⟨r, -, -, -, hlate⟩ | ⟨hx, -⟩
    · exact fun _ => hlate
    · exact fun hx' => (hx hx').elim
  | throws ht hp =>
    refine hs.finish hord ht ?_
    have hbreaks := (hord.threads _ _ ht).obeys
    rw [hp] at hbreaks
    exact hbreaks
  | performs ht hp hpermits => exact hs.performs hord hgives ht hp hpermits
  | writes ht hp => exact hs.moves ht rfl rfl rfl rfl rfl rfl rfl
  | reads ht hp hn => exact hs.moves ht rfl rfl rfl rfl rfl rfl rfl
  | ends ht hp hended => exact (hord.not_ended hended).elim
  | exchanges ht hp hasks => exact hs.exchanges hord ht hp (hguard _ (exchange?_of_flush ht hp))
  | strays ht hp hstray => exact (hstray (asks_of_inStep hin ht hp hord.daemon)).elim

theorem Coherent.of_reachable
    (hgives : ∀ log o key v, Touched log o key → ¬o.Gives key v)
    (hs : Reachable h h' call (fun a s => InStep call a s ∧ Guarded Touched call a s) s) :
    Coherent Touched s := by
  induction hs with
  | new kernel clock => exact coherent_new kernel clock
  | next hs hok hnext ih =>
    have hord := Orderly.of_reachable (hs.mono fun _ _ hok => hok.1)
    exact ih.step hord hgives hok.1 hok.2 (step_of_next hnext)

end System

/-! ## Two methods, one after the other -/

/-- The visit has learnt the value, from a cache or from its own exchange. -/
def Visit.Learns (visit : Visit) (key : Key) (v : key.Value) : Prop :=
  (∃ event ∈ visit.trace, event.Finds key v) ∨ visit.call.Obtains visit.trace key v

/-- **What a method learns after another has returned was produced after the exchange of the
other**, if that exchange touches the key. -/
theorem System.learns_after {K : Type} {s : System K}
    {Touched : List Exchange → Exchange → Key → Prop} (hs : s.Coherent Touched)
    (hord : s.Orderly) {o f : Finished} (ho : o ∈ s.finished) (hf : f ∈ s.finished)
    (hlt : o.returned < f.started) {i : ℕ} (hi : o.executed = some i) {key : Key}
    (htouched : TouchedAt Touched s.log i key) {v : key.Value} (hv : f.Learns key v) :
    ∃ j, i < j ∧ GivenAt s.log j key v := by
  rcases hv with ⟨event, hmem, hfinds⟩ | ⟨r, hr, hrv⟩
  · obtain ⟨j, hj, hafter⟩ := hs.finished f hf event hmem key v hfinds
    refine ⟨j, (hafter i htouched).resolve_right fun hle => ?_, hj⟩
    exact Nat.not_le.mpr hlt (hle o ho hi)
  · have hfin := hord.finished f hf
    obtain ⟨j, hexec, hlog⟩ := hfin.logged.executed r hr
    exact ⟨j, hfin.after o ho hlt i j hi hexec, _, hlog, hrv⟩

end NandroidFS
