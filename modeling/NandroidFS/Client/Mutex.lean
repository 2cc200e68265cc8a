import NandroidFS.Client.Discipline

/-!
# What the mutex is good for

Because every method keeps to `Call.conduct`, the mutex puts the exchanges of all threads in one
order, as long as the connection stays in step.  The thread that holds it is the only one with an
exchange behind it, its exchange is the last in the log, and what it has invalidated stays invalid
until it returns.

* `System.ThreadInv`, `System.FinishedInv`: what holds of a thread and of a method that has ended.
* `System.Orderly.step`, `System.Orderly.of_reachable`: it holds in every state of every run that is
  in step.
-/

namespace NandroidFS

/-! ## Threads and the log -/

/-- The exchange of the visit is where the visit says it is, and the mutex was held for it. -/
structure Visit.Logged (log : List Exchange) (v : Visit) : Prop where
  executed : ∀ r, Event.exchange r ∈ v.trace →
    ∃ i, v.executed = some i ∧ log[i]? = some ⟨v.call.request, r⟩
  exchanged : ∀ i, v.executed = some i →
    ∃ r, Event.exchange r ∈ v.trace ∧ log[i]? = some ⟨v.call.request, r⟩
  locked_of_exchanged : Exchanged v.trace → Locked v.trace
  locked_of_cleared : ∀ key, Cleared v.trace key → Locked v.trace

namespace Visit.Logged

variable {log : List Exchange} {v : Visit}

theorem append (hv : v.Logged log) (x : Exchange) : v.Logged (log ++ [x]) where
  executed r hr := by
    obtain ⟨i, hi, hlog⟩ := hv.executed r hr
    exact ⟨i, hi, List.getElem?_append_left (List.getElem?_eq_some_iff.mp hlog).1 ▸ hlog⟩
  exchanged i hi := by
    obtain ⟨r, hr, hlog⟩ := hv.exchanged i hi
    exact ⟨r, hr, List.getElem?_append_left (List.getElem?_eq_some_iff.mp hlog).1 ▸ hlog⟩
  locked_of_exchanged := hv.locked_of_exchanged
  locked_of_cleared := hv.locked_of_cleared

theorem lt_length (hv : v.Logged log) {i : ℕ} (hi : v.executed = some i) : i < log.length := by
  obtain ⟨r, -, hlog⟩ := hv.exchanged i hi
  exact (List.getElem?_eq_some_iff.mp hlog).1

theorem locked (hv : v.Logged log) {i : ℕ} (hi : v.executed = some i) : Locked v.trace := by
  obtain ⟨r, hr, -⟩ := hv.exchanged i hi
  exact hv.locked_of_exchanged ⟨r, hr⟩

theorem executed_eq_none (hv : v.Logged log) (hx : ¬Exchanged v.trace) : v.executed = none := by
  rcases hexec : v.executed with _ | i
  · rfl
  · obtain ⟨r, hr, -⟩ := hv.exchanged i hexec
    exact (hx ⟨r, hr⟩).elim

/-- The visit makes a call. -/
theorem call (hv : v.Logged log) {e : ConnAct} (answer : e.Res) (hfree : e.Free ∨ Locked v.trace) :
    Logged log { v with trace := v.trace ++ [.call e answer] } where
  executed r hr := by
    rcases List.mem_append.mp hr with hr | hr
    · exact hv.executed r hr
    · cases List.mem_singleton.mp hr
  exchanged i hi := by
    obtain ⟨r, hr, hlog⟩ := hv.exchanged i hi
    exact ⟨r, List.mem_append_left _ hr, hlog⟩
  locked_of_exchanged hx :=
    locked_append (hv.locked_of_exchanged (exchanged_append_call.mp hx)) _
  locked_of_cleared key hcl := by
    rcases cleared_append_singleton.mp hcl with hcl | hcl
    · exact locked_append (hv.locked_of_cleared key hcl) _
    · rcases hfree with hfree | hl
      · cases e <;> first | exact hfree.elim | exact hcl.elim
      · exact locked_append hl _

/-- The visit has its exchange. -/
theorem exchange (r : Response) (hl : Locked v.trace) (hx : ¬Exchanged v.trace) :
    Logged (log ++ [⟨v.call.request, r⟩])
      { v with executed := some log.length, trace := v.trace ++ [.exchange r] } where
  executed r' hr' := by
    rcases List.mem_append.mp hr' with hr' | hr'
    · exact (hx ⟨r', hr'⟩).elim
    · obtain rfl : r' = r := Event.exchange.inj (List.mem_singleton.mp hr')
      exact ⟨log.length, rfl, List.getElem?_concat_length⟩
  exchanged i hi := by
    obtain rfl := Option.some.inj hi
    exact ⟨r, List.mem_append_right _ (List.mem_singleton_self _), List.getElem?_concat_length⟩
  locked_of_exchanged _ := locked_append hl _
  locked_of_cleared _ _ := locked_append hl _

end Visit.Logged

/-! ## The invariant -/

namespace System

variable {K : Type} {h h' : Host} {call : Kernel K} {s s' : System K} {a : Action K} {t : ℕ}

/-- The bytes that a thread may read. -/
def seen (s : System K) (t : ℕ) : List UInt8 :=
  if s.holder = some t then s.incoming else []

/-- What holds of every thread. -/
structure ThreadInv (s : System K) (t : ℕ) (th : Thread) : Prop where
  logged : th.Logged s.log
  started : th.started < s.time
  obeys : th.call.Obeys (fun reply τ _ => th.call.Ends reply τ) th.program th.trace (s.seen t)
  locked : Locked th.trace ↔ s.holder = some t
  cleared : ∀ key, Cleared th.trace key → s.caches.find s.clock key = none
  last : ∀ i, th.executed = some i → i + 1 = s.log.length
  after : ∀ fin ∈ s.finished, ∀ i j, fin.executed = some i → th.executed = some j → i < j

/-- What holds of every method that has ended. -/
structure FinishedInv (s : System K) (fin : Finished) : Prop where
  logged : fin.Logged s.log
  started : fin.started ≤ fin.returned
  returned : fin.returned < s.time
  ends : ∀ reply, fin.result = .ok reply → fin.call.Ends reply fin.trace
  after : ∀ fin' ∈ s.finished, fin'.returned < fin.started →
    ∀ i j, fin'.executed = some i → fin.executed = some j → i < j

/-- **The order that the mutex keeps.** -/
structure Orderly (s : System K) : Prop where
  daemon : s.daemon.isWaiting = true
  threads : ∀ t th, s.threads t = some th → s.ThreadInv t th
  finished : ∀ fin ∈ s.finished, s.FinishedInv fin
  holder : ∀ t, s.holder = some t → ∃ th, s.threads t = some th

theorem orderly_new (kernel : K) (clock : ℕ) : Orderly (new kernel clock) where
  daemon := rfl
  threads t th ht := by cases ht
  finished fin hfin := (List.not_mem_nil hfin).elim
  holder t ht := by cases ht

/-- A daemon that waits for a request has not ended. -/
theorem Orderly.not_ended (hs : Orderly s) : ¬s.daemon.isEnded = true := by
  have hwaits := hs.daemon
  cases hdaemon : s.daemon with
  | waiting rwBuffer => exact Bool.false_ne_true
  | within round unread => exact Bool.false_ne_true
  | ended =>
    rw [hdaemon] at hwaits
    cases hwaits

/-- What holds of every thread after one has been replaced. -/
theorem forall_setThread {P : ℕ → Thread → Prop} {th : Thread} (hth : P t th)
    (hrest : ∀ t' th', t' ≠ t → s.threads t' = some th' → P t' th') :
    ∀ t' th', (s.setThread t (some th)).threads t' = some th' → P t' th' := by
  intro t' th' ht'
  by_cases htt : t' = t
  · subst htt
    rw [setThread_self] at ht'
    obtain rfl := Option.some.inj ht'
    exact hth
  · rw [setThread_of_ne s htt] at ht'
    exact hrest t' th' htt ht'

theorem threads_of_setThread_none {t' : ℕ} {th' : Thread}
    (ht' : (s.setThread t none).threads t' = some th') : t' ≠ t ∧ s.threads t' = some th' := by
  by_cases htt : t' = t
  · subst htt
    rw [setThread_self] at ht'
    cases ht'
  · rw [setThread_of_ne s htt] at ht'
    exact ⟨htt, ht'⟩

theorem exists_setThread {th : Thread} {t' : ℕ} (ht' : ∃ th', s.threads t' = some th') :
    ∃ th', (s.setThread t (some th)).threads t' = some th' := by
  by_cases htt : t' = t
  · exact ⟨th, by rw [htt, setThread_self]⟩
  · rw [setThread_of_ne s htt]
    exact ht'

/-- The holder of the mutex is the only thread with an exchange behind it. -/
theorem ThreadInv.holder_of_executed {th : Thread} (hth : s.ThreadInv t th) {i : ℕ}
    (hi : th.executed = some i) : s.holder = some t :=
  hth.locked.mp (hth.logged.locked hi)

theorem ThreadInv.executed_eq_none {th : Thread} {t' : ℕ} (hth : s.ThreadInv t th)
    (hholder : s.holder = some t') (hne : t ≠ t') : th.executed = none := by
  rcases hexec : th.executed with _ | i
  · rfl
  · exact (hne (Option.some.inj ((hth.holder_of_executed hexec).symm.trans hholder))).elim

/-! ## Step by step -/

theorem Orderly.start (hs : Orderly s) {c : Call} {rounds : ℕ} (ht : s.threads t = none) :
    Orderly { s.setThread t (some ⟨⟨c, s.time, none, []⟩, c.program h rounds⟩) with
      time := s.time + 1 } := by
  have hnot : s.holder ≠ some t := by
    intro hholder
    obtain ⟨th, hth⟩ := hs.holder t hholder
    rw [ht] at hth
    cases hth
  refine ⟨hs.daemon, forall_setThread ?_ fun t' th' _ ht' => ?_, fun fin hfin => ?_,
    fun t' ht' => exists_setThread (hs.holder t' ht')⟩
  · constructor
    case logged =>
      constructor
      · exact fun r hr => (List.not_mem_nil hr).elim
      · exact fun i hi => nomatch hi
      · exact fun ⟨r, hr⟩ => (List.not_mem_nil hr).elim
      · exact fun key ⟨e, he, _⟩ => (List.not_mem_nil he).elim
    case started => exact Nat.lt_succ_self _
    case obeys =>
      show c.Obeys _ _ [] (if s.holder = some t then s.incoming else [])
      rw [if_neg hnot]
      exact c.obeys_program h rounds
    case locked => exact ⟨fun hl => (List.not_mem_nil hl).elim, fun hholder => (hnot hholder).elim⟩
    case cleared => exact fun key ⟨e, he, _⟩ => (List.not_mem_nil he).elim
    case last => exact fun i hi => nomatch hi
    case after => exact fun _ _ i j _ hj => nomatch hj
  · have hth := hs.threads t' th' ht'
    exact { hth with started := Nat.lt_succ_of_lt hth.started }
  · have hf := hs.finished fin hfin
    exact { hf with returned := Nat.lt_succ_of_lt hf.returned }

theorem Orderly.wait (hs : Orderly s) (duration : ℕ) :
    Orderly { s with clock := s.clock + duration } where
  daemon := hs.daemon
  threads t th ht := by
    have hth := hs.threads t th ht
    refine { hth with cleared := fun key hcl => ?_ }
    rw [Option.eq_none_iff_forall_ne_some]
    intro v hv
    have hfind := Caches.find_mono hv (Nat.le_add_right s.clock duration)
    rw [hth.cleared key hcl] at hfind
    cases hfind
  finished fin hfin := { hs.finished fin hfin with }
  holder := hs.holder

theorem Orderly.device (hs : Orderly s) (kernel : K) : Orderly { s with kernel := kernel } where
  daemon := hs.daemon
  threads t th ht := { hs.threads t th ht with }
  finished fin hfin := { hs.finished fin hfin with }
  holder := hs.holder

theorem holderAfter_of_ne {e : ConnAct} (he : e ≠ .lock) : s.holderAfter t e = s.holder := by
  cases e with
  | lock => exact (he rfl).elim
  | _ => rfl

/-- A thread that has made a call has the mutex if it says so. -/
theorem ThreadInv.locked_performs {th : Thread} {e : ConnAct} (hth : s.ThreadInv t th)
    (answer : e.Res) : Locked (th.trace ++ [.call e answer]) ↔ s.holderAfter t e = some t := by
  rw [locked_append_call, hth.locked]
  by_cases he : e = .lock
  · subst he
    exact ⟨fun _ => rfl, fun _ => Or.inr rfl⟩
  · rw [holderAfter_of_ne he, or_iff_left he]

/-- The call of another thread does not give the mutex away. -/
theorem ThreadInv.locked_performs_of_ne {th' : Thread} {t' : ℕ} {e : ConnAct}
    (hth' : s.ThreadInv t' th') (hne : t' ≠ t) (hpermits : s.Permits e) :
    Locked th'.trace ↔ s.holderAfter t e = some t' := by
  rw [hth'.locked]
  by_cases he : e = .lock
  · subst he
    rw [show s.holder = none from hpermits]
    constructor
    · intro hl
      cases hl
    · intro hl
      exact (hne (Option.some.inj hl).symm).elim
  · rw [holderAfter_of_ne he]

/-- What a thread may read after a call. -/
theorem seen_performs {th : Thread} {e : ConnAct} {k : e.Res → ConnM Reply} {duration : ℕ}
    (hpermits : s.Permits e) (hquiet : e = .lock → s.incoming = []) (t' : ℕ) :
    (s.performs t th e k duration).seen t' = s.seen t' := by
  cases e with
  | lock =>
    show (if some t = some t' then s.incoming else []) = if s.holder = some t' then _ else []
    rw [show s.holder = none from hpermits, if_neg (show none ≠ some t' from nofun), hquiet rfl,
      ite_self]
  | _ => rfl

/-- What cannot be found stays so, unless it is stored. -/
theorem find_perform_eq_none {e : ConnAct} {key : Key} (hputs : ∀ v, ¬e.Puts key v)
    (hnone : s.caches.find s.clock key = none) (duration : ℕ) :
    (Caches.perform s.clock (s.clock + duration) e s.caches).2.find (s.clock + duration) key =
      none := by
  rw [Option.eq_none_iff_forall_ne_some]
  intro v hv
  rcases Caches.find_perform (Nat.le_add_right _ _) hv with hput | hfind
  · exact hputs v hput
  · rw [hnone] at hfind
    cases hfind

theorem Orderly.performs (hs : Orderly s) {th : Thread} {e : ConnAct} {k : e.Res → ConnM Reply}
    {duration : ℕ} (ht : s.threads t = some th) (hp : th.program = .act (.call e) k)
    (hpermits : s.Permits e) (hin : InStep call (.step t duration) s) :
    Orderly (s.performs t th e k duration) := by
  have hth := hs.threads t th ht
  have hquiet : e = .lock → s.incoming = [] := by
    rintro rfl
    exact (quiet_of_inStep hin ht hp).2
  obtain ⟨⟨hfree, hputs⟩, hobeys⟩ : th.call.Obeys _ (.act (.call e) k) th.trace (s.seen t) :=
    hp ▸ hth.obeys
  refine ⟨hs.daemon, forall_setThread ?_ fun t' th' hne ht' => ?_, fun fin hfin => ?_,
    fun t' ht' => ?_⟩
  · constructor
    case logged => exact hth.logged.call _ hfree
    case started => exact hth.started
    case obeys =>
      rw [seen_performs hpermits hquiet]
      exact hobeys _
    case locked => exact hth.locked_performs _
    case cleared =>
      intro key hcl
      rcases cleared_append_singleton.mp hcl with hcl | hcl
      · exact find_perform_eq_none (fun v hput => (hputs key v hput).1 hcl) (hth.cleared key hcl) _
      · exact Caches.find_of_clears hcl _
    case last => exact hth.last
    case after => exact hth.after
  · have hth' := hs.threads t' th' ht'
    constructor
    case logged => exact hth'.logged
    case started => exact hth'.started
    case obeys =>
      rw [seen_performs hpermits hquiet]
      exact hth'.obeys
    case locked => exact hth'.locked_performs_of_ne hne hpermits
    case cleared =>
      -- the other thread holds the mutex, so this one stores nothing
      intro key hcl
      refine find_perform_eq_none (fun v hput => ?_) (hth'.cleared key hcl) _
      have hholder := hth'.locked.mp (hth'.logged.locked_of_cleared key hcl)
      rcases hfree with hfree | hl
      · cases e <;> first | exact hfree.elim | exact hput.elim
      · exact hne (Option.some.inj (hholder.symm.trans (hth.locked.mp hl)))
    case last => exact hth'.last
    case after => exact hth'.after
  · exact { hs.finished fin hfin with }
  · refine exists_setThread ?_
    cases e with
    | lock =>
      obtain rfl : t = t' := Option.some.inj ht'
      exact ⟨th, ht⟩
    | _ => exact hs.holder t' ht'

theorem Orderly.writes (hs : Orderly s) {th : Thread} {bs : List UInt8} {k : Unit → ConnM Reply}
    (ht : s.threads t = some th) (hp : th.program = .act (.writeExact bs) k) :
    Orderly { s.setThread t (some { th with program := k () }) with
      outgoing := s.outgoing ++ bs } := by
  have hth := hs.threads t th ht
  obtain ⟨-, hobeys⟩ : th.call.Obeys _ (.act (.writeExact bs) k) th.trace (s.seen t) :=
    hp ▸ hth.obeys
  refine ⟨hs.daemon, forall_setThread ?_ fun t' th' hne ht' => ?_, fun fin hfin => ?_,
    fun t' ht' => ?_⟩
  · exact { hth with obeys := hobeys }
  · exact { hs.threads t' th' ht' with }
  · exact { hs.finished fin hfin with }
  · exact exists_setThread (hs.holder t' ht')

theorem Orderly.reads (hs : Orderly s) {th : Thread} {n : ℕ} {k : Option (List UInt8) → ConnM Reply}
    (ht : s.threads t = some th) (hp : th.program = .act (.readExact n) k)
    (hn : n ≤ s.incoming.length) :
    Orderly { s.setThread t (some { th with program := k (some (s.incoming.take n)) }) with
      incoming := s.incoming.drop n } := by
  have hth := hs.threads t th ht
  obtain ⟨hl, hobeys⟩ : th.call.Obeys _ (.act (.readExact n) k) th.trace (s.seen t) :=
    hp ▸ hth.obeys
  have hholder : s.holder = some t := hth.locked.mp hl
  have hseen : s.seen t = s.incoming := if_pos hholder
  rw [hseen] at hobeys
  refine ⟨hs.daemon, forall_setThread ?_ fun t' th' hne ht' => ?_, fun fin hfin => ?_,
    fun t' ht' => ?_⟩
  · refine { hth with obeys := ?_ }
    show th.call.Obeys _ _ th.trace (if s.holder = some t then s.incoming.drop n else [])
    rw [if_pos hholder]
    exact hobeys hn
  · have hth' := hs.threads t' th' ht'
    have hnot : s.holder ≠ some t' := by
      rw [hholder]
      exact fun heq => hne (Option.some.inj heq).symm
    refine { hth' with obeys := ?_ }
    have hseen' : s.seen t' = [] := if_neg hnot
    show th'.call.Obeys _ _ th'.trace (if s.holder = some t' then s.incoming.drop n else [])
    rw [if_neg hnot, ← hseen']
    exact hth'.obeys
  · exact { hs.finished fin hfin with }
  · exact exists_setThread (hs.holder t' ht')

/-- The thread whose request is executed holds the mutex and has had no exchange yet. -/
theorem ThreadInv.of_flush {th : Thread} {k : Unit → ConnM Reply} (hth : s.ThreadInv t th)
    (hp : th.program = .act .flush k) :
    s.holder = some t ∧ ¬Exchanged th.trace ∧
      (∀ key, th.call.request.Early key → Cleared th.trace key) ∧
      ∀ r : Response, r.Answers th.call.request → th.call.request.Sized →
        th.call.Obeys (fun reply τ _ => th.call.Ends reply τ) (k ()) (th.trace ++ [.exchange r])
          (s.incoming ++ r.bytes) := by
  obtain ⟨⟨hl, hx, hearly⟩, hobeys⟩ : th.call.Obeys _ (.act .flush k) th.trace (s.seen t) :=
    hp ▸ hth.obeys
  have hholder : s.holder = some t := hth.locked.mp hl
  have hseen : s.seen t = s.incoming := if_pos hholder
  rw [hseen] at hobeys
  exact ⟨hholder, hx, hearly, fun r hr hs => hobeys _ _ ⟨r, hr, hs, rfl, rfl⟩⟩

theorem Orderly.exchanges (hs : Orderly s) {th : Thread} {k : Unit → ConnM Reply}
    {rwBuffer : List UInt8} (ht : s.threads t = some th) (hp : th.program = .act .flush k)
    (hstep : th.call.request.InStep call s.kernel) :
    Orderly (s.exchanges call t th k rwBuffer) := by
  have hth := hs.threads t th ht
  obtain ⟨hholder, hx, -, hobeys⟩ := hth.of_flush hp
  refine ⟨rfl, forall_setThread ?_ fun t' th' hne ht' => ?_, fun fin hfin => ?_, fun t' ht' => ?_⟩
  · constructor
    case logged => exact Visit.Logged.exchange _ (hth.locked.mpr hholder) hx
    case started => exact hth.started
    case obeys =>
      show th.call.Obeys _ _ _ (if s.holder = some t then _ else [])
      rw [if_pos hholder]
      exact hobeys _ (serve_answers call th.call.request s.kernel) hstep.2.1
    case locked => exact ⟨fun _ => hholder, fun _ => locked_append (hth.locked.mpr hholder) _⟩
    case cleared =>
      intro key hcl
      rcases cleared_append_singleton.mp hcl with hcl | hcl
      · exact hth.cleared key hcl
      · exact hcl.elim
    case last =>
      intro i hi
      obtain rfl := Option.some.inj hi
      show s.log.length + 1 = (s.log ++ [_]).length
      rw [List.length_append, List.length_singleton]
    case after =>
      intro fin hfin i j hi hj
      obtain rfl := Option.some.inj hj
      exact (hs.finished fin hfin).logged.lt_length hi
  · have hth' := hs.threads t' th' ht'
    have hnone := hth'.executed_eq_none hholder hne
    refine { hth' with logged := hth'.logged.append _, obeys := ?_, last := ?_ }
    · have hnot : s.holder ≠ some t' := by
        rw [hholder]
        exact fun heq => hne (Option.some.inj heq).symm
      have hseen : s.seen t' = [] := if_neg hnot
      show th'.call.Obeys _ _ th'.trace (if s.holder = some t' then _ else [])
      rw [if_neg hnot, ← hseen]
      exact hth'.obeys
    · intro i hi
      rw [hnone] at hi
      cases hi
  · have hf := hs.finished fin hfin
    exact { hf with logged := hf.logged.append _ }
  · exact exists_setThread (hs.holder t' ht')

/-- Who holds the mutex when a thread has ended. -/
theorem holder_finish_eq_some {th : Thread} {result : Except Exn Reply} {t' : ℕ} :
    (s.finish t th result).holder = some t' ↔ t' ≠ t ∧ s.holder = some t' := by
  show (if s.holder = some t then none else s.holder) = some t' ↔ _
  split
  next heq =>
    rw [heq]
    exact ⟨nofun, fun ⟨hne, hsome⟩ => (hne (Option.some.inj hsome).symm).elim⟩
  next hother =>
    refine ⟨fun hsome => ⟨?_, hsome⟩, And.right⟩
    rintro rfl
    exact hother hsome

/-- A method that ends keeps its record.  The new one is compared with the old ones. -/
theorem Orderly.finish (hs : Orderly s) {th : Thread} {result : Except Exn Reply}
    (ht : s.threads t = some th)
    (hends : ∀ reply, result = .ok reply → th.call.Ends reply th.trace) :
    Orderly (s.finish t th result) := by
  have hth := hs.threads t th ht
  refine ⟨hs.daemon, fun t' th' ht' => ?_, fun fin hfin => ?_, fun t' ht' => ?_⟩
  · obtain ⟨hne, ht'⟩ := threads_of_setThread_none ht'
    have hth' := hs.threads t' th' ht'
    have hholder : (s.finish t th result).holder = some t' ↔ s.holder = some t' :=
      holder_finish_eq_some.trans (and_iff_right hne)
    refine { hth' with
      started := Nat.lt_succ_of_lt hth'.started
      obeys := ?_
      locked := ?_
      after := ?_ }
    · show th'.call.Obeys _ _ th'.trace
        (if (s.finish t th result).holder = some t' then s.incoming else [])
      simp only [hholder]
      exact hth'.obeys
    · exact hth'.locked.trans hholder.symm
    · intro fin hfin i j hi hj
      rcases List.mem_append.mp hfin with hfin | hfin
      · exact hth'.after fin hfin i j hi hj
      · -- two threads with an exchange behind them would both hold the mutex
        obtain rfl := List.mem_singleton.mp hfin
        have heq := (hth.holder_of_executed hi).symm.trans (hth'.holder_of_executed hj)
        exact (hne (Option.some.inj heq).symm).elim
  · rcases List.mem_append.mp hfin with hfin | hfin
    · have hf := hs.finished fin hfin
      refine { hf with returned := Nat.lt_succ_of_lt hf.returned, after := ?_ }
      intro fin' hfin' hlt
      rcases List.mem_append.mp hfin' with hfin' | hfin'
      · exact hf.after fin' hfin' hlt
      · obtain rfl := List.mem_singleton.mp hfin'
        have hlt : s.time < fin.started := hlt
        have := hf.started
        have := hf.returned
        omega
    · obtain rfl := List.mem_singleton.mp hfin
      refine ⟨hth.logged, hth.started.le, Nat.lt_succ_self _, hends, ?_⟩
      intro fin' hfin' hlt
      rcases List.mem_append.mp hfin' with hfin' | hfin'
      · exact hth.after fin' hfin'
      · obtain rfl := List.mem_singleton.mp hfin'
        exact (Nat.lt_asymm hth.started hlt).elim
  · obtain ⟨hne, hholder⟩ := holder_finish_eq_some.mp ht'
    obtain ⟨th', hth'⟩ := hs.holder t' hholder
    exact ⟨th', (setThread_of_ne s hne none).trans hth'⟩

/-- **Every step that is in step keeps the order.** -/
theorem Orderly.step (hs : Orderly s) (hin : InStep call a s) (hstep : Step h h' call a s s') :
    Orderly s' := by
  cases hstep with
  | start ht => exact hs.start ht
  | wait => exact hs.wait _
  | device => exact hs.device _
  | returns ht hp =>
    refine hs.finish ht fun reply heq => ?_
    obtain rfl := Except.ok.inj heq
    have hends := (hs.threads _ _ ht).obeys
    rw [hp] at hends
    exact hends
  | throws ht hp => exact hs.finish ht fun reply heq => nomatch heq
  | performs ht hp hpermits => exact hs.performs ht hp hpermits hin
  | writes ht hp => exact hs.writes ht hp
  | reads ht hp hn => exact hs.reads ht hp hn
  | ends ht hp hended => exact (hs.not_ended hended).elim
  | exchanges ht hp hasks => exact hs.exchanges ht hp hasks.2.2
  | strays ht hp hstray => exact (hstray (asks_of_inStep hin ht hp hs.daemon)).elim

theorem Orderly.of_reachable (hs : Reachable h h' call (InStep call) s) : Orderly s := by
  induction hs with
  | new kernel clock => exact orderly_new kernel clock
  | next _ hin hnext ih => exact ih.step hin (step_of_next hnext)

end System

end NandroidFS
