import NandroidFS.Mount.Callbacks

/-!
# The application

`main.cpp`.  The main thread scans for devices, waits for a second at most and scans again, until
somebody has asked it to shut down.  The menu in the tray does so, under `shutdown_mutex`; the main
thread has that lock only while it looks at the flag, and gives it back during a scan.  At the end,
and also where a scan raises because `adb` does, the destructor of the tracker deletes what is still
mounted.  Callbacks of Dokan run all the time and may unmount their device.

`Application.next` is one section of one of these threads.  A scan, with all that it connects and
deletes, is one section, and so is the destructor of the tracker: that they come to their end is
assumed here, although a scan may wait without limit for `adb` and for an agent to announce itself.
Nobody calls `connect_to_device` from outside, so there is nothing here that mounts a device twice.

* `DeviceTracker.destroy_spec`: what the destructor of a tracker does.
* `Application.destroyed_once`: every object is destroyed exactly once, and by the end all are, as
  long as nothing undefined happens.
* `Application.goes_wrong_iff`: the steps after which the process is no more.
* `Application.shutdown`: no scan begins any more, and the main thread leaves after three sections.
-/

namespace NandroidFS

namespace DeviceTracker

variable {t t' : DeviceTracker} {serial : Serial} {p q : Pointer} {n : Nandroid}
  {attempt : Serial → Attempt} {devices : List Serial}

/-! ## The destructor of the tracker -/

/-- `~DeviceTracker`, which iterates the map in some order. -/
def destroy (t : DeviceTracker) : Fate DeviceTracker :=
  t.instances.entries.foldlM (fun t entry => t.delete entry.2) t

/-- An object has been destroyed, and the map still has its pointer. -/
def deleting (t : DeviceTracker) (p : Pointer) : DeviceTracker :=
  { t with
    heap := Function.update t.heap p none
    destroyed := p :: t.destroyed }

@[simp] theorem heap_deleting_self (t : DeviceTracker) (p : Pointer) :
    (t.deleting p).heap p = none :=
  Function.update_self ..

theorem heap_deleting_of_ne (hne : q ≠ p) : (t.deleting p).heap q = t.heap q :=
  Function.update_of_ne hne _ _

theorem delete_eq (hn : t.heap p = some n) (hjoins : n.joins = true) :
    t.delete p = .done (t.deleting p) := by
  unfold delete
  simp only [hn, hjoins, if_true]
  rfl

/-- Deleting some objects that are alive, each once. -/
theorem foldlM_delete (entries : List (Sigma fun _ : Serial => Pointer)) :
    ∀ t : DeviceTracker, (entries.map Sigma.snd).Nodup →
      (∀ entry ∈ entries, ∃ n, t.heap entry.2 = some n ∧ n.joins = true) →
      ∃ t', entries.foldlM (fun t entry => t.delete entry.2) t = .done t' ∧
        t'.nextPointer = t.nextPointer ∧
        t'.destroyed = (entries.map Sigma.snd).reverse ++ t.destroyed ∧
        (∀ p ∈ entries.map Sigma.snd, t'.heap p = none) ∧
        ∀ p, p ∉ entries.map Sigma.snd → t'.heap p = t.heap p := by
  induction entries with
  | nil =>
    exact fun t _ _ =>
      ⟨t, rfl, rfl, rfl, fun _ hp => (List.not_mem_nil hp).elim, fun _ _ => rfl⟩
  | cons entry entries ih =>
    intro t hnodup hlive
    obtain ⟨hnew, hnodup⟩ := List.nodup_cons.mp hnodup
    obtain ⟨n, hn, hjoins⟩ := hlive entry List.mem_cons_self
    have hrest (e) (he : e ∈ entries) :
        ∃ m, (t.deleting entry.2).heap e.2 = some m ∧ m.joins = true := by
      obtain ⟨m, hm, hmjoins⟩ := hlive e (List.mem_cons_of_mem _ he)
      have hne : e.2 ≠ entry.2 := fun h => hnew (h ▸ List.mem_map_of_mem he)
      exact ⟨m, (heap_deleting_of_ne hne).trans hm, hmjoins⟩
    obtain ⟨t', heq, hnext, hdestroyed, hgone, hheap⟩ := ih (t.deleting entry.2) hnodup hrest
    refine ⟨t', ?_, hnext, ?_, fun p hp => ?_, fun p hp => ?_⟩
    · rw [List.foldlM_cons, delete_eq hn hjoins, Fate.done_bind]
      exact heq
    · rw [hdestroyed, List.map_cons, List.reverse_cons, List.append_assoc]
      rfl
    · rcases List.mem_cons.mp hp with rfl | hp
      · exact (hheap entry.2 hnew).trans (heap_deleting_self t entry.2)
      · exact hgone p hp
    · obtain ⟨hne, hp⟩ := List.ne_and_not_mem_of_not_mem_cons hp
      exact (hheap p hp).trans (heap_deleting_of_ne hne)

/-- The pointers of a map whose objects know their devices are different. -/
theorem Valid.nodup_pointers (ht : t.Valid) : (t.instances.entries.map Sigma.snd).Nodup := by
  refine (List.nodup_map_iff_inj_on t.instances.nodupKeys.nodup).mpr ?_
  rintro ⟨serial, p⟩ hmem ⟨serial', q⟩ hmem' (rfl : p = q)
  obtain ⟨n, hn, rfl, -⟩ := ht.entry serial p (AList.mem_lookup_iff.mpr hmem)
  obtain ⟨m, hm, rfl, -⟩ := ht.entry serial' p (AList.mem_lookup_iff.mpr hmem')
  obtain rfl := Option.some.inj (hn.symm.trans hm)
  rfl

/-! ## Nothing is lost -/

/-- Whoever is no more has been destroyed. -/
def Accounted (t : DeviceTracker) : Prop :=
  ∀ p < t.nextPointer, t.heap p = none → p ∈ t.destroyed

theorem accounted_new : new.Accounted := fun _ hp => (Nat.not_lt_zero _ hp).elim

theorem Accounted.discarding (ht : t.Accounted) (n : Nandroid) : (t.discarding n).Accounted := by
  intro p hp hnone
  rcases Nat.lt_succ_iff_lt_or_eq.mp hp with hp | rfl
  · have hheap : (t.discarding n).heap p = t.heap p := Function.update_of_ne (Nat.ne_of_lt hp) _ _
    exact List.mem_cons_of_mem _ (ht p hp (hheap.symm.trans hnone))
  · exact List.mem_cons_self

theorem Accounted.registering (ht : t.Accounted) (serial : Serial) (n : Nandroid) :
    (t.registering serial n).Accounted := by
  intro p hp hnone
  rcases Nat.lt_succ_iff_lt_or_eq.mp hp with hp | rfl
  · have hheap : (t.registering serial n).heap p = t.heap p :=
      Function.update_of_ne (Nat.ne_of_lt hp) _ _
    exact ht p hp (hheap.symm.trans hnone)
  · have hlive : (t.registering serial n).heap t.nextPointer = some n :=
      heap_registering_eq_some.mpr (Or.inl ⟨rfl, rfl⟩)
    cases hlive.symm.trans hnone

theorem Accounted.retiring (ht : t.Accounted) (serial : Serial) (p : Pointer) :
    (t.retiring serial p).Accounted := by
  intro q hq hnone
  by_cases hqp : q = p
  · exact List.mem_cons.mpr (Or.inl hqp)
  · have hheap : (t.retiring serial p).heap q = t.heap q := Function.update_of_ne hqp _ _
    exact List.mem_cons_of_mem _ (ht q hq (hheap.symm.trans hnone))

/-- **The rule for scans**, by the four things that a scan does to a tracker. -/
theorem updateConnectedDevices_done {P : DeviceTracker → Prop}
    (hput : ∀ t serial, P t → P (t.putAside serial)) (hdiscard : ∀ t n, P t → P (t.discarding n))
    (hregister : ∀ t serial n, P t → P (t.registering serial n))
    (hretire : ∀ t serial p, P t → P (t.retiring serial p)) (ht : P t)
    (h : t.updateConnectedDevices attempt devices = .done t') : P t' := by
  unfold DeviceTracker.updateConnectedDevices at h
  rcases hfirst : devices.foldlM (tryDevice attempt) t with t₁ | _ | _
  · rw [hfirst, Fate.done_bind] at h
    refine Fate.foldlM_done (fun t₂ serial t₃ ht₂ hremove => ?_) _ ?_ h
    · rcases removeDevice_done hremove with rfl | ⟨p, rfl⟩
      · exact ht₂
      · exact hretire t₂ serial p ht₂
    · refine Fate.foldlM_done (fun t₂ serial t₃ ht₂ htry => ?_) _ ht hfirst
      rcases tryDevice_cases attempt serial t₂ with ⟨-, heq⟩ | ⟨-, -, -, heq⟩ |
        ⟨-, -, ⟨-, -, heq⟩ | ⟨e, -, -, heq⟩ | ⟨-, -, heq⟩⟩
      · obtain rfl := Fate.done.inj (heq.symm.trans htry)
        exact ht₂
      · cases heq.symm.trans htry
      · obtain rfl := Fate.done.inj (heq.symm.trans htry)
        exact hput t₂ serial ht₂
      · obtain rfl := Fate.done.inj (heq.symm.trans htry)
        exact hput _ serial (hdiscard t₂ _ ht₂)
      · obtain rfl := Fate.done.inj (heq.symm.trans htry)
        exact hregister t₂ serial _ ht₂
  · rw [hfirst] at h
    cases h
  · rw [hfirst] at h
    cases h

theorem Accounted.updateConnectedDevices (ht : t.Accounted)
    (h : t.updateConnectedDevices attempt devices = .done t') : t'.Accounted :=
  updateConnectedDevices_done (fun _ _ ht => ht) (fun _ n ht => ht.discarding n)
    (fun _ serial n ht => ht.registering serial n) (fun _ serial p ht => ht.retiring serial p) ht h

/-- Pointers are not given out again. -/
theorem nextPointer_le (h : t.updateConnectedDevices attempt devices = .done t') :
    t.nextPointer ≤ t'.nextPointer :=
  updateConnectedDevices_done (P := fun t' => t.nextPointer ≤ t'.nextPointer) (fun _ _ h => h)
    (fun _ _ h => Nat.le_succ_of_le h) (fun _ _ _ h => Nat.le_succ_of_le h) (fun _ _ _ h => h)
    (Nat.le_refl _) h

/-- **The destructor deletes what is left, each object once.** -/
theorem destroy_spec (ht : t.Tidy) (haccounted : t.Accounted) :
    ∃ t', t.destroy = .done t' ∧ t'.nextPointer = t.nextPointer ∧ (∀ p, t'.heap p = none) ∧
      t'.destroyed.Nodup ∧ ∀ p, p ∈ t'.destroyed ↔ p < t.nextPointer := by
  have hentry (entry : Sigma fun _ : Serial => Pointer) (hmem : entry ∈ t.instances.entries) :
      ∃ n, t.heap entry.2 = some n ∧ n.joins = true := by
    obtain ⟨n, hn, -, hjoins⟩ := ht.entry entry.1 entry.2 (AList.mem_lookup_iff.mpr hmem)
    exact ⟨n, hn, hjoins⟩
  have hlive (p : Pointer) : p ∈ t.instances.entries.map Sigma.snd ↔ ∃ n, t.heap p = some n := by
    constructor
    · intro hp
      obtain ⟨entry, hmem, rfl⟩ := List.mem_map.mp hp
      obtain ⟨n, hn, -⟩ := hentry entry hmem
      exact ⟨n, hn⟩
    · rintro ⟨n, hn⟩
      exact List.mem_map_of_mem (f := Sigma.snd) (AList.mem_lookup_iff.mp (ht.lookup hn))
  obtain ⟨t', heq, hnext, hdestroyed, hgone, hheap⟩ :=
    foldlM_delete t.instances.entries t ht.nodup_pointers hentry
  refine ⟨t', heq, hnext, fun p => ?_, ?_, fun p => ?_⟩
  · by_cases hp : p ∈ t.instances.entries.map Sigma.snd
    · exact hgone p hp
    · rw [hheap p hp]
      rcases hn : t.heap p with _ | n
      · rfl
      · exact (hp ((hlive p).mpr ⟨n, hn⟩)).elim
  · rw [hdestroyed]
    refine (List.nodup_reverse.mpr ht.nodup_pointers).append ht.once ?_
    intro p hp hbefore
    obtain ⟨n, hn⟩ := (hlive p).mp (List.mem_reverse.mp hp)
    rw [(ht.gone _ hbefore).1] at hn
    cases hn
  · rw [hdestroyed, List.mem_append, List.mem_reverse, hlive]
    constructor
    · rintro (⟨n, hn⟩ | hbefore)
      · exact ht.fresh p n hn
      · exact (ht.gone p hbefore).2
    · intro hp
      rcases hn : t.heap p with _ | n
      · exact Or.inr (haccounted p hp hn)
      · exact Or.inl ⟨n, rfl⟩

end DeviceTracker

/-! ## The threads -/

/-- Where the main thread is. -/
inductive MainPc where
  /-- Before the loop. -/
  | starting
  /-- In `update_connected_devices`, without `shutdown_mutex`. -/
  | scanning
  /-- In `wait_for`, or woken and about to look at the flag. -/
  | waiting
  /-- Out of the loop, before the destructor of the tracker. -/
  | leaving
  /-- The tracker is no more. -/
  | left
  deriving DecidableEq

/-- The process with its main thread.  `scans` counts the scans that have begun; `crashed` is for an
exception that has left the loop. -/
structure Application extends Process where
  main : MainPc
  shutdownRequested : Bool
  crashed : Bool
  scans : ℕ

/-- A section of one of the threads. -/
inductive Section where
  /-- The main thread looks at the flag: before the first scan, and when it wakes up, because it was
  notified, because the second is over or for no reason. -/
  | checks
  /-- The scan comes to its end, and the main thread goes to sleep. -/
  | scan (attempt : Serial → Attempt) (devices : List Serial)
  /-- `adb devices` raises. -/
  | adbFails
  /-- The destructor of the tracker. -/
  | destroys
  /-- Somebody clicks in the tray. -/
  | request
  | enter (p : Pointer)
  | use (i : ℕ)
  | leave (i : ℕ)
  | raise (i : ℕ)
  | unmount (i : ℕ)

/-- The main thread does it. -/
def Section.OfMain : Section → Prop
  | .checks => True
  | .scan _ _ => True
  | .adbFails => True
  | .destroys => True
  | _ => False

/-- A callback comes, uses its object or goes. -/
def Section.OfCallback : Section → Prop
  | .enter _ => True
  | .use _ => True
  | .leave _ => True
  | .raise _ => True
  | _ => False

instance : DecidablePred Section.OfMain := fun a => by
  cases a <;> unfold Section.OfMain <;> infer_instance

namespace Application

open DeviceTracker

def new : Application where
  toProcess := .new
  main := .starting
  shutdownRequested := false
  crashed := false
  scans := 0

/-- `while (!shutdown_requested)`. -/
def check (s : Application) : Application :=
  if s.shutdownRequested then { s with main := .leaving }
  else { s with main := .scanning, scans := s.scans + 1 }

/-- What happens to the process alone. -/
def within (s : Application) (a : ProcessAct) (main : MainPc) : Option Application :=
  (s.toProcess.next a).map fun P => { s with toProcess := P, main := main }

/-- **One section**; `none` when it is not possible.  A scan and the destructor are taken at their
end. -/
def next (s : Application) (a : Section) : Option Application :=
  if s.status ≠ .running then none
  else match a with
    | .checks => if s.main = .starting ∨ s.main = .waiting then some s.check else none
    | .scan attempt devices =>
        if s.main = .scanning then s.within (.scan attempt devices) .waiting else none
    | .adbFails =>
        if s.main = .scanning then some { s with main := .leaving, crashed := true } else none
    | .destroys =>
        if s.main = .leaving then
          some { s with
            toProcess := s.settle (fun t => { s.toProcess with tracker := t }) s.tracker.destroy
            main := .left }
        else none
    | .request => some { s with shutdownRequested := true }
    | .enter p => s.within (.enter p) s.main
    | .use i => s.within (.use i) s.main
    | .leave i => s.within (.leave i) s.main
    | .raise i => s.within (.raise i) s.main
    | .unmount i => s.within (.unmount i) s.main

/-- Several sections. -/
def run : List Section → Application → Option Application
  | [], s => some s
  | a :: as, s => (s.next a).bind (run as)

/-- The states of all runs. -/
def Reachable (s : Application) : Prop :=
  ∃ as, run as new = some s

variable {s s' : Application} {a : Section} {as : List Section}

/-- The callbacks that run and that have failed, after a callback has come or gone. -/
def Shuffled (s : Application) (callbacks failing : List Pointer) : Prop :=
  ∀ p, p ∈ callbacks ∨ p ∈ failing →
    (p ∈ s.callbacks ∨ p ∈ s.failing) ∨ ∃ n, s.tracker.heap p = some n

/-- The callback in this section touches the object. -/
def Touches (s : Application) : Section → Pointer → Prop
  | .use i, p => s.callbacks[i]? = some p
  | .raise i, p => s.callbacks[i]? = some p
  | .unmount i, p => s.failing[i]? = some p
  | _, _ => False

/-- What a section does where the process is still there. -/
inductive Does (s : Application) : Section → Application → Prop
  | checks (h : s.main = .starting ∨ s.main = .waiting) : Does s .checks s.check
  | scan {attempt : Serial → Attempt} {devices : List Serial} (h : s.main = .scanning) :
      Does s (.scan attempt devices) { s with
        toProcess := s.settle (fun t => { s.toProcess with tracker := t })
          (s.tracker.updateConnectedDevices attempt devices)
        main := .waiting }
  | adbFails (h : s.main = .scanning) :
      Does s .adbFails { s with main := .leaving, crashed := true }
  | destroys (h : s.main = .leaving) : Does s .destroys { s with
      toProcess := s.settle (fun t => { s.toProcess with tracker := t }) s.tracker.destroy
      main := .left }
  | request : Does s .request { s with shutdownRequested := true }
  | unmount {i : ℕ} {p : Pointer} {n : Nandroid} (h : s.failing[i]? = some p)
      (hn : s.tracker.heap p = some n) :
      Does s (.unmount i) { s with
        toProcess := s.settle
          (fun t => { s.toProcess with tracker := t, failing := s.failing.eraseIdx i })
          (s.tracker.unmountDevice p) }
  | callback {a : Section} {callbacks failing : List Pointer} (ha : a.OfCallback)
      (h : s.Shuffled callbacks failing)
      (hlive : ∀ p, s.Touches a p → ∃ n, s.tracker.heap p = some n) :
      Does s a { s with callbacks := callbacks, failing := failing }
  | gone {a : Section} {p : Pointer} {P : Process} (ha : s.Touches a p)
      (hn : s.tracker.heap p = none) (hP : P = s.touchesGone ∨ P = s.deletesGone p) :
      Does s a { s with toProcess := P }

theorem within_eq_some {b : ProcessAct} {main : MainPc} (h : s.within b main = some s') :
    ∃ P, s.toProcess.next b = some P ∧ s' = { s with toProcess := P, main := main } := by
  obtain ⟨P, hP, rfl⟩ := Option.map_eq_some_iff.mp h
  exact ⟨P, hP, rfl⟩

/-- **Everything that a section can do.** -/
theorem does_of_next (h : s.next a = some s') : s.status = .running ∧ s.Does a s' := by
  unfold next at h
  split at h
  next => cases h
  next hrunning =>
    refine ⟨not_not.mp hrunning, ?_⟩
    cases a with
    | checks =>
      simp only at h
      split_ifs at h with hmain
      obtain rfl := Option.some.inj h
      exact .checks hmain
    | scan attempt devices =>
      simp only at h
      split_ifs at h with hmain
      obtain ⟨P, hP, rfl⟩ := within_eq_some h
      cases (Process.step_of_next hP).2 with
      | scan => exact .scan hmain
      | touches ha => exact ha.elim
    | adbFails =>
      simp only at h
      split_ifs at h with hmain
      obtain rfl := Option.some.inj h
      exact .adbFails hmain
    | destroys =>
      simp only at h
      split_ifs at h with hmain
      obtain rfl := Option.some.inj h
      exact .destroys hmain
    | request =>
      obtain rfl := Option.some.inj h
      exact .request
    | unmount i =>
      obtain ⟨P, hP, rfl⟩ := within_eq_some h
      cases (Process.step_of_next hP).2 with
      | unmount hi hn => exact .unmount hi hn
      | touches ha => exact ha.elim
      | deletes hi hn => exact .gone hi hn (Or.inr rfl)
    | enter p =>
      obtain ⟨P, hP, rfl⟩ := within_eq_some h
      cases (Process.step_of_next hP).2 with
      | enter hn =>
        refine .callback trivial (fun q hq => ?_) fun _ ha => ha.elim
        rcases hq with hq | hq
        · rcases List.mem_cons.mp hq with rfl | hq
          · exact Or.inr ⟨_, hn⟩
          · exact Or.inl (Or.inl hq)
        · exact Or.inl (Or.inr hq)
      | touches ha => exact ha.elim
    | use i =>
      obtain ⟨P, hP, rfl⟩ := within_eq_some h
      cases (Process.step_of_next hP).2 with
      | use hi hn =>
        refine .callback trivial (fun q hq => Or.inl hq) fun q hq => ?_
        obtain rfl := Option.some.inj (hi.symm.trans hq)
        exact ⟨_, hn⟩
      | touches ha hn => exact .gone ha hn (Or.inl rfl)
    | leave i =>
      obtain ⟨P, hP, rfl⟩ := within_eq_some h
      cases (Process.step_of_next hP).2 with
      | leave =>
        exact .callback trivial (fun q hq => Or.inl (hq.imp_left List.mem_of_mem_eraseIdx))
          fun _ ha => ha.elim
      | touches ha => exact ha.elim
    | raise i =>
      obtain ⟨P, hP, rfl⟩ := within_eq_some h
      cases (Process.step_of_next hP).2 with
      | raise hi hn =>
        refine .callback trivial (fun q hq => Or.inl ?_) fun q hq => ?_
        · rcases hq with hq | hq
          · exact Or.inl (List.mem_of_mem_eraseIdx hq)
          · rcases List.mem_cons.mp hq with rfl | hq
            · exact Or.inl (List.mem_of_getElem? hi)
            · exact Or.inr hq
        · obtain rfl := Option.some.inj (hi.symm.trans hq)
          exact ⟨_, hn⟩
      | touches ha hn => exact .gone ha hn (Or.inl rfl)

/-! ## What every run keeps -/

/-- **The invariant.**  The map is in order until the tracker is destroyed, and there is nothing
left afterwards. -/
structure Inv (s : Application) : Prop where
  tidy : s.main ≠ .left → s.tracker.Tidy
  empty : s.main = .left → ∀ p, s.tracker.heap p = none
  accounted : s.tracker.Accounted
  once : s.tracker.destroyed.Nodup
  gone : ∀ p ∈ s.tracker.destroyed, s.tracker.heap p = none ∧ p < s.tracker.nextPointer
  known : ∀ p, p ∈ s.callbacks ∨ p ∈ s.failing → p < s.tracker.nextPointer

theorem inv_new : Inv new where
  tidy _ := tidy_new
  empty h := by cases h
  accounted := accounted_new
  once := List.nodup_nil
  gone p h := by cases h
  known p h := by rcases h with h | h <;> cases h

theorem Inv.lt_nextPointer (hs : s.Inv) {p : Pointer} {n : Nandroid}
    (hn : s.tracker.heap p = some n) : p < s.tracker.nextPointer := by
  by_cases hmain : s.main = .left
  · rw [hs.empty hmain p] at hn
    cases hn
  · exact (hs.tidy hmain).fresh p n hn

/-- A scan or a callback leaves the tracker in order. -/
theorem Inv.of_tidy (hs : s.Inv) {t : DeviceTracker} {main : MainPc} {failing : List Pointer}
    (hmain : main ≠ .left) (ht : t.Tidy) (haccounted : t.Accounted)
    (hle : s.tracker.nextPointer ≤ t.nextPointer) (hfailing : failing ⊆ s.failing) :
    Inv { s with tracker := t, failing := failing, main := main } where
  tidy _ := ht
  empty h := (hmain h).elim
  accounted := haccounted
  once := ht.once
  gone := ht.gone
  known p hp := Nat.lt_of_lt_of_le (hs.known p (hp.imp_right fun h => hfailing h)) hle

/-- The main thread moves on, or the process has come to a bad end. -/
theorem Inv.of_main (hs : s.Inv) {main : MainPc} {status : Status} {flag crashed : Bool} {k : ℕ}
    (hmain : main = .left ↔ s.main = .left) :
    Inv { s with
      status := status, main := main, shutdownRequested := flag, crashed := crashed
      scans := k } where
  tidy h := hs.tidy fun h' => h (hmain.mpr h')
  empty h := hs.empty (hmain.mp h)
  accounted := hs.accounted
  once := hs.once
  gone := hs.gone
  known := hs.known

/-- An object that is alive can be unmounted. -/
theorem Inv.unmountDevice_eq (hs : s.Inv) {p : Pointer} {n : Nandroid}
    (hn : s.tracker.heap p = some n) :
    s.main ≠ .left ∧ s.tracker.instances.lookup n.deviceSerial = some p ∧
      s.tracker.unmountDevice p = .done (s.tracker.retiring n.deviceSerial p) := by
  have hmain : s.main ≠ .left := by
    intro hmain
    rw [hs.empty hmain p] at hn
    cases hn
  have hown := (hs.tidy hmain).lookup hn
  obtain ⟨m, hm, -, hjoins⟩ := (hs.tidy hmain).entry _ p hown
  obtain rfl := Option.some.inj (hn.symm.trans hm)
  refine ⟨hmain, hown, ?_⟩
  rw [DeviceTracker.unmountDevice_eq hn, if_pos hjoins]

/-- Who is touched and is no more has been destroyed. -/
theorem Inv.destroyed_of_touches (hs : s.Inv) {p : Pointer} (ha : s.Touches a p)
    (hn : s.tracker.heap p = none) : p ∈ s.tracker.destroyed := by
  have hknown : p ∈ s.callbacks ∨ p ∈ s.failing := by
    cases a with
    | use i => exact Or.inl (List.mem_of_getElem? ha)
    | raise i => exact Or.inl (List.mem_of_getElem? ha)
    | unmount i => exact Or.inr (List.mem_of_getElem? ha)
    | _ => exact ha.elim
  exact hs.accounted p (hs.known p hknown) hn

/-- A section after which nothing undefined has happened keeps the invariant. -/
theorem Inv.does (hs : s.Inv) (h : s.Does a s') (hdefined : s'.status ≠ .undefined) : s'.Inv := by
  cases h with
  | checks hmain =>
    have hne : s.main ≠ .left := by rcases hmain with h | h <;> rw [h] <;> nofun
    unfold check
    split
    · exact hs.of_main ⟨nofun, fun h => (hne h).elim⟩
    · exact hs.of_main ⟨nofun, fun h => (hne h).elim⟩
  | @scan attempt devices hmain =>
    have hne : s.main ≠ .left := by rw [hmain]; nofun
    rcases hscan : s.tracker.updateConnectedDevices attempt devices with t | _ | _
    · obtain ⟨t', hdone, ht, -⟩ := scanned_updateConnectedDevices attempt devices (hs.tidy hne)
        (noneFailsEarly_of_done (hs.tidy hne).toValid hscan)
      obtain rfl := Fate.done.inj (hscan.symm.trans hdone)
      exact hs.of_tidy nofun ht (hs.accounted.updateConnectedDevices hscan)
        (nextPointer_le hscan) fun _ h => h
    · exact hs.of_main ⟨nofun, fun h => (hne h).elim⟩
    · exact hs.of_main ⟨nofun, fun h => (hne h).elim⟩
  | adbFails hmain => exact hs.of_main ⟨nofun, fun h => by rw [hmain] at h; cases h⟩
  | destroys hmain =>
    have hne : s.main ≠ .left := by rw [hmain]; nofun
    obtain ⟨t, hdone, hnext, hheap, honce, hall⟩ := destroy_spec (hs.tidy hne) hs.accounted
    rw [← hnext] at hall
    rw [hdone]
    refine ⟨fun h => (h rfl).elim, fun _ => hheap, fun p hp _ => (hall p).mpr hp, honce,
      fun p hp => ⟨hheap p, (hall p).mp hp⟩, fun p hp => ?_⟩
    exact Nat.lt_of_lt_of_eq (hs.known p hp) hnext.symm
  | request => exact hs.of_main Iff.rfl
  | @unmount i p n hi hn =>
    obtain ⟨hne, hown, heq⟩ := hs.unmountDevice_eq hn
    rw [heq]
    exact hs.of_tidy hne ((hs.tidy hne).retiring hn hown) (hs.accounted.retiring _ p)
      (Nat.le_refl _) fun _ h => List.mem_of_mem_eraseIdx h
  | gone _ _ hP => rcases hP with rfl | rfl <;> exact (hdefined rfl).elim
  | callback _ hshuffled =>
    refine ⟨hs.tidy, hs.empty, hs.accounted, hs.once, hs.gone, fun p hp => ?_⟩
    rcases hshuffled p hp with hp | ⟨n, hn⟩
    · exact hs.known p hp
    · exact hs.lt_nextPointer hn

/-- What every section keeps holds of every run. -/
theorem run_invariant {P : Application → Prop}
    (hdoes : ∀ s a s', P s → s.status = .running → s.Does a s' → P s')
    (hs : P s) (h : run as s = some s') : P s' := by
  induction as generalizing s with
  | nil =>
    obtain rfl := Option.some.inj h
    exact hs
  | cons a as ih =>
    obtain ⟨s₁, hnext, hrest⟩ := Option.bind_eq_some_iff.mp h
    obtain ⟨hrunning, h⟩ := does_of_next hnext
    exact ih (hdoes s a s₁ hs hrunning h) hrest

theorem Reachable.inv (h : Reachable s) (hdefined : s.status ≠ .undefined) : s.Inv := by
  obtain ⟨as, hrun⟩ := h
  refine run_invariant (P := fun s => s.status ≠ .undefined → s.Inv)
    (fun s a s' hs hrunning h => ?_) (fun _ => inv_new) hrun hdefined
  exact (hs (by rw [hrunning]; nofun)).does h

/-! ## The main results -/

/-- **Every object is destroyed exactly once**, as long as nothing undefined happens.  What is no
more has been destroyed once and nothing else has been, and the map leads to the objects that are
alive.  When the main thread has left, however it came to that, all objects that were ever made have
been destroyed, each once. -/
theorem destroyed_once (h : Reachable s) (hdefined : s.status ≠ .undefined) :
    s.tracker.destroyed.Nodup ∧
      (∀ p, p ∈ s.tracker.destroyed ↔ p < s.tracker.nextPointer ∧ s.tracker.heap p = none) ∧
      (s.main ≠ .left → ∀ serial p, s.tracker.instances.lookup serial = some p ↔
        ∃ n, s.tracker.heap p = some n ∧ n.deviceSerial = serial) ∧
      (s.main = .left → s.tracker.destroyed.Perm (List.range s.tracker.nextPointer)) := by
  have hs := h.inv hdefined
  have hmem (p : Pointer) :
      p ∈ s.tracker.destroyed ↔ p < s.tracker.nextPointer ∧ s.tracker.heap p = none :=
    ⟨fun hp => (hs.gone p hp).symm, fun hp => hs.accounted p hp.1 hp.2⟩
  refine ⟨hs.once, hmem, fun hmain serial p => ?_, fun hmain => ?_⟩
  · have ht := hs.tidy hmain
    constructor
    · intro hlookup
      obtain ⟨n, hn, hserial, -⟩ := ht.entry serial p hlookup
      exact ⟨n, hn, hserial⟩
    · rintro ⟨n, hn, rfl⟩
      exact ht.lookup hn
  · refine (List.perm_ext_iff_of_nodup hs.once List.nodup_range).mpr fun p => ?_
    rw [hmem, List.mem_range]
    exact and_iff_left (hs.empty hmain p)

/-- Two devices are mounted, a callback of the second fails and unmounts it, and the main thread is
asked to leave. -/
theorem destroyed_once_twoDevices :
    ∃ s, Reachable s ∧ s.main = .left ∧ s.tracker.destroyed.Perm [0, 1] := by
  have hs : Reachable _ := ⟨[.checks, .scan (fun _ => .perfect) [[1], [2]], .enter 1, .raise 0,
    .unmount 0, .request, .checks, .destroys], rfl⟩
  exact ⟨_, hs, rfl, (destroyed_once hs Status.noConfusion).2.2.2 rfl⟩

/-- A scan of a tracker that is in order does nothing undefined, and ends the process exactly if a
new device fails before its agent has been started. -/
theorem status_scan (ht : s.tracker.Tidy) (hrunning : s.status = .running)
    (attempt : Serial → Attempt) (devices : List Serial) :
    (s.settle (fun t => { s.toProcess with tracker := t })
        (s.tracker.updateConnectedDevices attempt devices)).status ≠ .undefined ∧
      ((s.settle (fun t => { s.toProcess with tracker := t })
        (s.tracker.updateConnectedDevices attempt devices)).status = .terminated ↔
          ¬s.tracker.NoneFailsEarly attempt devices) := by
  rcases hscan : s.tracker.updateConnectedDevices attempt devices with t | _ | _
  · refine ⟨fun h => ?_, iff_of_false (fun h => ?_) (not_not.mpr ?_)⟩
    · cases hrunning.symm.trans h
    · cases hrunning.symm.trans h
    · exact noneFailsEarly_of_done ht.toValid hscan
  · refine ⟨nofun, iff_of_true rfl fun hall => ?_⟩
    obtain ⟨t, hdone, -⟩ := scanned_updateConnectedDevices attempt devices ht hall
    cases hscan.symm.trans hdone
  · have hensures := ht.toSound.updateConnectedDevices attempt devices
    rw [hscan] at hensures
    exact hensures.elim

/-- **What goes wrong.**  A section of a run does something undefined exactly if it is that of a
callback which uses its object, fails, or has failed and gets the lock, when the object has been
destroyed before; and it ends the process exactly if it is a scan that finds a new device which
fails before its agent has been started. -/
theorem goes_wrong_iff (h : Reachable s) (hnext : s.next a = some s') :
    (s'.status = .undefined ↔ ∃ p ∈ s.tracker.destroyed, s.Touches a p) ∧
    (s'.status = .terminated ↔
      ∃ attempt devices, a = .scan attempt devices ∧
        ¬s.tracker.NoneFailsEarly attempt devices) := by
  obtain ⟨hrunning, hdoes⟩ := does_of_next hnext
  have hs := h.inv (by rw [hrunning]; nofun)
  have hother (hstatus : s'.status = .running)
      (htouches : ∀ p ∈ s.tracker.destroyed, ¬s.Touches a p)
      (hscan : ∀ attempt devices, a ≠ .scan attempt devices) :
      (s'.status = .undefined ↔ ∃ p ∈ s.tracker.destroyed, s.Touches a p) ∧
      (s'.status = .terminated ↔ ∃ attempt devices, a = .scan attempt devices ∧
        ¬s.tracker.NoneFailsEarly attempt devices) := by
    rw [hstatus]
    exact ⟨⟨nofun, fun ⟨p, hp, ha⟩ => (htouches p hp ha).elim⟩,
      ⟨nofun, fun ⟨attempt, devices, ha, _⟩ => (hscan attempt devices ha).elim⟩⟩
  have alive {p : Pointer} {n : Nandroid} (hn : s.tracker.heap p = some n) :
      p ∉ s.tracker.destroyed := fun hp => by
    rw [(hs.gone p hp).1] at hn
    cases hn
  cases hdoes with
  | checks =>
    refine hother ?_ (fun _ _ => id) nofun
    unfold check
    split
    · exact hrunning
    · exact hrunning
  | @scan attempt devices hmain =>
    obtain ⟨hdefined, hearly⟩ :=
      status_scan (hs.tidy (by rw [hmain]; nofun)) hrunning attempt devices
    refine ⟨iff_of_false hdefined fun ⟨_, _, ha⟩ => ha, hearly.trans ⟨fun h => ?_, ?_⟩⟩
    · exact ⟨attempt, devices, rfl, h⟩
    · rintro ⟨_, _, ha, h⟩
      obtain ⟨rfl, rfl⟩ := Section.scan.inj ha
      exact h
  | adbFails => exact hother hrunning (fun _ _ => id) nofun
  | destroys hmain =>
    obtain ⟨t, hdone, -⟩ := destroy_spec (hs.tidy (by rw [hmain]; nofun)) hs.accounted
    refine hother ?_ (fun _ _ => id) nofun
    show (s.settle _ _).status = _
    rw [hdone]
    exact hrunning
  | request => exact hother hrunning (fun _ _ => id) nofun
  | @unmount i p n hi hn =>
    obtain ⟨-, -, heq⟩ := hs.unmountDevice_eq hn
    refine hother ?_ (fun q hq hqi => ?_) nofun
    · show (s.settle _ _).status = _
      rw [heq]
      exact hrunning
    · obtain rfl := Option.some.inj (hi.symm.trans hqi)
      exact alive hn hq
  | callback ha _ hlive =>
    refine hother hrunning (fun p hp hap => ?_) (by rintro _ _ rfl; exact ha)
    obtain ⟨n, hn⟩ := hlive p hap
    exact alive hn hp
  | @gone a p P ha hn hP =>
    have hundefined : P.status = .undefined := by rcases hP with rfl | rfl <;> rfl
    have hscan (attempt devices) : a ≠ .scan attempt devices := by
      rintro rfl
      exact ha
    refine ⟨iff_of_true hundefined ⟨p, hs.destroyed_of_touches ha hn, ha⟩, iff_of_false ?_ ?_⟩
    · exact fun h => Status.noConfusion (hundefined.symm.trans h)
    · exact fun ⟨attempt, devices, ha, _⟩ => hscan attempt devices ha

/-- Two callbacks of one device fail, and the second gets the lock after the first. -/
theorem goes_wrong_iff_twoCallbacks :
    ∃ s s', Reachable s ∧ s.next (.unmount 0) = some s' ∧ s'.status = .undefined ∧
      s'.tracker.destroyed = [0, 0] := by
  let s := (run [.checks, .scan (fun _ => .perfect) [[1]], .enter 0, .enter 0, .raise 0, .raise 0,
    .unmount 0] new).get rfl
  have hs : Reachable s := ⟨_, (Option.some_get _).symm⟩
  have hnext : s.next (.unmount 0) = some _ := rfl
  have hundefined := (goes_wrong_iff hs hnext).1.mpr ⟨0, List.mem_singleton_self 0, rfl⟩
  exact ⟨s, _, hs, hnext, hundefined, rfl⟩

/-- How many steps the main thread has before it once it has been asked to shut down. -/
def rank : MainPc → ℕ
  | .scanning => 3
  | .starting => 2
  | .waiting => 2
  | .leaving => 1
  | .left => 0

/-- The flag stays up, no scan begins, and the main thread gets on. -/
theorem Does.ranked (hflag : s.shutdownRequested = true) (h : s.Does a s') :
    s'.shutdownRequested = true ∧ s'.scans = s.scans ∧
      [a].countP (·.OfMain) + rank s'.main ≤ rank s.main := by
  cases h with
  | checks hmain =>
    unfold check
    rw [if_pos hflag]
    refine ⟨hflag, rfl, ?_⟩
    rcases hmain with hmain | hmain
    · rw [hmain]
      exact Nat.le_refl _
    · rw [hmain]
      exact Nat.le_refl _
  | scan hmain =>
    refine ⟨hflag, rfl, ?_⟩
    rw [hmain]
    exact Nat.le_refl _
  | adbFails hmain =>
    refine ⟨hflag, rfl, ?_⟩
    rw [hmain]
    exact Nat.le_succ _
  | destroys hmain =>
    refine ⟨hflag, rfl, ?_⟩
    rw [hmain]
    exact Nat.le_refl _
  | request => exact ⟨rfl, rfl, Nat.le_of_eq (Nat.zero_add _)⟩
  | unmount => exact ⟨hflag, rfl, Nat.le_of_eq (Nat.zero_add _)⟩
  | gone ha =>
    have hnot : ¬a.OfMain := by
      cases a with
      | use => exact id
      | raise => exact id
      | unmount => exact id
      | _ => exact ha.elim
    refine ⟨hflag, rfl, ?_⟩
    rw [List.countP_cons_of_neg (by simpa using hnot)]
    exact Nat.le_of_eq (Nat.zero_add _)
  | callback ha =>
    have hnot : ¬a.OfMain := by
      cases a with
      | enter => exact id
      | use => exact id
      | leave => exact id
      | raise => exact id
      | _ => exact ha.elim
    refine ⟨hflag, rfl, ?_⟩
    rw [List.countP_cons_of_neg (by simpa using hnot)]
    exact Nat.le_of_eq (Nat.zero_add _)

/-- The main thread waits for no other: its next section is possible, whatever a scan has found. -/
def GoesOn (s : Application) : Prop :=
  match s.main with
  | .starting => (s.next .checks).isSome
  | .scanning => ∀ attempt devices, (s.next (.scan attempt devices)).isSome
  | .waiting => (s.next .checks).isSome
  | .leaving => (s.next .destroys).isSome
  | .left => True

theorem goesOn_of_running (hrunning : s.status = .running) : s.GoesOn := by
  unfold GoesOn
  split
  next hmain => simp [next, hrunning, hmain]
  next hmain => simp [next, within, Process.next, hrunning, hmain]
  next hmain => simp [next, hrunning, hmain]
  next hmain => simp [next, hrunning, hmain]
  next => trivial

/-- The main thread has a reason to leave. -/
def Asked (s : Application) : Prop :=
  s.main = .leaving ∨ s.main = .left → s.shutdownRequested = true ∨ s.crashed = true

theorem Does.asked (hs : s.Asked) (h : s.Does a s') : s'.Asked := by
  cases h with
  | checks =>
    unfold check
    split
    next hflag => exact fun _ => Or.inl hflag
    next => rintro (h | h) <;> cases h
  | scan => rintro (h | h) <;> cases h
  | adbFails => exact fun _ => Or.inr rfl
  | destroys hmain => exact fun _ => hs (Or.inl hmain)
  | request => exact fun _ => Or.inl rfl
  | unmount => exact hs
  | callback => exact hs
  | gone => exact hs

theorem Reachable.asked (h : Reachable s) : s.Asked := by
  obtain ⟨as, hrun⟩ := h
  exact run_invariant (fun _ _ _ hs _ h => h.asked hs) (by rintro (h | h) <;> cases h) hrun

/-- Once the flag is up. -/
theorem ranked_run (hflag : s.shutdownRequested = true) (h : run as s = some s') :
    s'.scans = s.scans ∧ as.countP (·.OfMain) + rank s'.main ≤ rank s.main := by
  induction as generalizing s with
  | nil =>
    obtain rfl := Option.some.inj h
    exact ⟨rfl, Nat.le_of_eq (Nat.zero_add _)⟩
  | cons a as ih =>
    obtain ⟨s₁, hnext, hrest⟩ := Option.bind_eq_some_iff.mp h
    obtain ⟨hflag₁, hscans₁, hrank₁⟩ := (does_of_next hnext).2.ranked hflag
    obtain ⟨hscans, hrank⟩ := ih hflag₁ hrest
    refine ⟨hscans.trans hscans₁, ?_⟩
    rw [← List.singleton_append, List.countP_append]
    omega

/-- **Shutting down.**  The main thread leaves only because it has been asked to or because `adb`
has raised.  Once it has been asked to it begins no further scan: whatever the others do, its next
section is possible, and it has left after three sections, which are the end of a scan, a look at
the flag and the destructor of the tracker. -/
theorem shutdown (h : Reachable s) :
    (s.main = .leaving ∨ s.main = .left → s.shutdownRequested = true ∨ s.crashed = true) ∧
      (s.shutdownRequested = true → ∀ as s', run as s = some s' →
        s'.scans = s.scans ∧ as.countP (·.OfMain) ≤ 3 ∧
          (as.countP (·.OfMain) = 3 → s'.main = .left) ∧
          (s'.status = .running → s'.GoesOn)) := by
  refine ⟨h.asked, fun hflag as s' hrun => ?_⟩
  obtain ⟨hscans, hrank⟩ := ranked_run hflag hrun
  have hle : rank s.main ≤ 3 := by cases s.main <;> decide
  refine ⟨hscans, by omega, fun hthree => ?_, goesOn_of_running⟩
  have hzero : rank s'.main = 0 := by omega
  rcases hmain : s'.main with _ | _ | _ | _ | _
  · rw [hmain] at hzero
    cases hzero
  · rw [hmain] at hzero
    cases hzero
  · rw [hmain] at hzero
    cases hzero
  · rw [hmain] at hzero
    cases hzero
  · rfl

/-- The main thread is asked during its first scan. -/
theorem shutdown_scanning :
    ∃ s s', Reachable s ∧ run [.scan (fun _ => .perfect) [[1]], .checks, .destroys] s = some s' ∧
      s'.scans = s.scans ∧ s'.main = .left := by
  let s := (run [.checks, .request] new).get rfl
  have hs : Reachable s := ⟨_, (Option.some_get _).symm⟩
  have hrun : run [.scan (fun _ => .perfect) [[1]], .checks, .destroys] s = some _ := rfl
  obtain ⟨hscans, -, hleft, -⟩ := (shutdown hs).2 rfl _ _ hrun
  exact ⟨s, _, hs, hrun, hscans, hleft rfl⟩

end Application

end NandroidFS
