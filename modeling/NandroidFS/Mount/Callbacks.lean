import NandroidFS.Mount.Scans

/-!
# Who destroys a mounted device

Three parties destroy a `Nandroid`: a scan that no longer sees the device, a Dokan callback that
ends in an exception and therefore unmounts its device, and another callback of the same device that
does the same.  They meet at `device_man_mtx`, and a callback comes there with a raw pointer that it
took before.

A `Process` is a tracker with the callbacks that are running or have failed.  Its steps are the
sections under the lock, the beginning and the end of a callback, and what it does in between with
its object.  A callback that has failed calls `unmount` of its object before it gets to the lock.

* `Process.Sane`: nobody is destroyed twice, the map and the mounted objects belong to each other,
  and a device that is mounted is not mounted again.
* `Process.InTurn`: a device is connected only while it has no entry, at most one callback of an
  object fails, and no scan drops the object before that callback has unmounted it.
* `Process.sane_of_reachable`: every run in turn is sane.
* `Process.not_sane`: the code does not wait its turn.
-/

namespace NandroidFS

inductive Status where
  | running
  | terminated
  | undefined
  deriving DecidableEq

/-- The tracker and the callbacks of Dokan.  `callbacks` are running, each with the pointer that
Dokan has passed to it; `failing` have ended in an exception and wait for the lock in
`unmount_device`.  `remounted` lists the devices for which `connect_to_device` has returned although
they were mounted. -/
structure Process where
  tracker : DeviceTracker
  callbacks : List Pointer
  failing : List Pointer
  remounted : List Serial
  status : Status

/-- What can happen next. -/
inductive ProcessAct where
  | scan (attempt : Serial → Attempt) (devices : List Serial)
  | connect (a : Attempt) (serial : Serial)
  /-- Dokan calls back for a drive. -/
  | enter (p : Pointer)
  /-- A callback takes the connection or the logger from its object. -/
  | use (i : ℕ)
  | leave (i : ℕ)
  /-- A callback ends in an exception: it writes to the log of its object and calls `unmount`. -/
  | raise (i : ℕ)
  /-- A callback that has failed gets the lock. -/
  | unmount (i : ℕ)

namespace Process

def new : Process where
  tracker := .new
  callbacks := []
  failing := []
  remounted := []
  status := .running

/-- The state after a method of the tracker. -/
def settle {α : Type} (s : Process) (k : α → Process) : Fate α → Process
  | .done a => k a
  | .terminated => { s with status := .terminated }
  | .undefined => { s with status := .undefined }

/-- `connect_to_device` has returned. -/
def connected (s : Process) (serial : Serial) (r : Except Failure Pointer × DeviceTracker) :
    Process :=
  { s with
    tracker := r.2
    remounted := if serial ∈ s.tracker.instances ∧ r.1.isOk then serial :: s.remounted
      else s.remounted }

/-- An object that is no more is touched. -/
def touchesGone (s : Process) : Process :=
  { s with status := .undefined }

/-- An object that is no more is deleted again. -/
def deletesGone (s : Process) (p : Pointer) : Process :=
  { s with
    tracker := { s.tracker with destroyed := p :: s.tracker.destroyed }
    status := .undefined }

/-- **One step**; `none` when the action is not possible. -/
def next (s : Process) (a : ProcessAct) : Option Process :=
  if s.status ≠ .running then none
  else match a with
    | .scan attempt devices =>
        some (s.settle (fun t => { s with tracker := t })
          (s.tracker.updateConnectedDevices attempt devices))
    | .connect a serial => some (s.settle (s.connected serial) (s.tracker.connectToDevice a serial))
    | .enter p =>
        if (s.tracker.heap p).any Nandroid.mounted then
          some { s with callbacks := p :: s.callbacks }
        else none
    | .use i =>
        match s.callbacks[i]? with
        | none => none
        | some p => if (s.tracker.heap p).isNone then some s.touchesGone else some s
    | .leave i => some { s with callbacks := s.callbacks.eraseIdx i }
    | .raise i =>
        match s.callbacks[i]? with
        | none => none
        | some p =>
            if (s.tracker.heap p).isNone then some s.touchesGone
            else some { s with
              callbacks := s.callbacks.eraseIdx i
              failing := p :: s.failing }
    | .unmount i =>
        match s.failing[i]? with
        | none => none
        | some p =>
            if (s.tracker.heap p).isNone then some (s.deletesGone p)
            else some (s.settle (fun t => { s with tracker := t, failing := s.failing.eraseIdx i })
              (s.tracker.unmountDevice p))

/-- The states of all runs whose steps satisfy the condition. -/
inductive Reachable (Ok : ProcessAct → Process → Prop) : Process → Prop
  | new : Reachable Ok .new
  | next {s s' : Process} (a : ProcessAct) (hs : Reachable Ok s) (hok : Ok a s)
      (hnext : s.next a = some s') : Reachable Ok s'

/-- **Lifetimes are in order.**  Every object is destroyed at most once, and nobody touches or
unmounts one that is destroyed; the map leads to objects that are alive, and every mounted object is
in it; and `connect_to_device` has never returned for a device that was mounted. -/
structure Sane (s : Process) : Prop where
  once : s.tracker.destroyed.Nodup
  defined : s.status ≠ .undefined
  live : ∀ serial p, s.tracker.instances.lookup serial = some p →
    ∃ n, s.tracker.heap p = some n ∧ n.deviceSerial = serial
  registered : ∀ p n, s.tracker.heap p = some n → n.mounted = true →
    s.tracker.instances.lookup n.deviceSerial = some p
  throws : s.remounted = []

/-- The object of a callback is alive. -/
def Alive (s : Process) (p : Pointer) : Prop :=
  (s.tracker.heap p).isSome = true

/-- A device is connected only while it has no entry.  A callback uses its object, and fails, only
while the object is alive, and fails only if no other callback of the object has.  A scan finds the
devices of which a callback has failed. -/
def InTurn : ProcessAct → Process → Prop
  | .scan _ devices, s => ∀ p ∈ s.failing, ∀ n ∈ s.tracker.heap p, n.deviceSerial ∈ devices
  | .connect _ serial, s => serial ∉ s.tracker.instances
  | .use i, s => ∀ p ∈ s.callbacks[i]?, s.Alive p
  | .raise i, s => ∀ p ∈ s.callbacks[i]?, s.Alive p ∧ p ∉ s.failing
  | _, _ => True

/-! ## Everything a step can do -/

/-- The step is one of a running callback with this pointer, and touches the object. -/
def Touches (s : Process) : ProcessAct → Pointer → Prop
  | .use i, p => s.callbacks[i]? = some p
  | .raise i, p => s.callbacks[i]? = some p
  | _, _ => False

/-- The steps, one constructor for each kind. -/
inductive Step (s : Process) : ProcessAct → Process → Prop
  | scan {attempt : Serial → Attempt} {devices : List Serial} :
      Step s (.scan attempt devices) (s.settle (fun t => { s with tracker := t })
        (s.tracker.updateConnectedDevices attempt devices))
  | connect {a : Attempt} {serial : Serial} :
      Step s (.connect a serial)
        (s.settle (s.connected serial) (s.tracker.connectToDevice a serial))
  | enter {p : Pointer} {n : Nandroid} (hn : s.tracker.heap p = some n)
      (hmounted : n.mounted = true) :
      Step s (.enter p) { s with callbacks := p :: s.callbacks }
  | use {i : ℕ} {p : Pointer} {n : Nandroid} (hi : s.callbacks[i]? = some p)
      (hn : s.tracker.heap p = some n) : Step s (.use i) s
  | leave {i : ℕ} : Step s (.leave i) { s with callbacks := s.callbacks.eraseIdx i }
  | raise {i : ℕ} {p : Pointer} {n : Nandroid} (hi : s.callbacks[i]? = some p)
      (hn : s.tracker.heap p = some n) :
      Step s (.raise i) { s with callbacks := s.callbacks.eraseIdx i, failing := p :: s.failing }
  | unmount {i : ℕ} {p : Pointer} {n : Nandroid} (hi : s.failing[i]? = some p)
      (hn : s.tracker.heap p = some n) :
      Step s (.unmount i)
        (s.settle (fun t => { s with tracker := t, failing := s.failing.eraseIdx i })
          (s.tracker.unmountDevice p))
  | touches {a : ProcessAct} {p : Pointer} (ha : s.Touches a p) (hn : s.tracker.heap p = none) :
      Step s a s.touchesGone
  | deletes {i : ℕ} {p : Pointer} (hi : s.failing[i]? = some p)
      (hn : s.tracker.heap p = none) : Step s (.unmount i) (s.deletesGone p)

variable {s s' : Process} {a : ProcessAct}

theorem step_of_next (h : s.next a = some s') : s.status = .running ∧ s.Step a s' := by
  unfold Process.next at h
  split at h
  next => cases h
  next hrunning =>
    refine ⟨not_not.mp hrunning, ?_⟩
    cases a with
    | scan attempt devices =>
      obtain rfl := Option.some.inj h
      exact .scan
    | connect attempt serial =>
      obtain rfl := Option.some.inj h
      exact .connect
    | enter p =>
      simp only at h
      split at h
      next hmounted =>
        obtain rfl := Option.some.inj h
        rcases hn : s.tracker.heap p with _ | n
        · rw [hn] at hmounted
          cases hmounted
        · rw [hn] at hmounted
          exact .enter hn hmounted
      next => cases h
    | use i =>
      rcases hi : s.callbacks[i]? with _ | p
      · simp only [hi] at h
        cases h
      · rcases hn : s.tracker.heap p with _ | n
        · simp only [hi, hn] at h
          obtain rfl := Option.some.inj h
          exact .touches hi hn
        · simp only [hi, hn] at h
          obtain rfl := Option.some.inj h
          exact .use hi hn
    | leave i =>
      obtain rfl := Option.some.inj h
      exact .leave
    | raise i =>
      rcases hi : s.callbacks[i]? with _ | p
      · simp only [hi] at h
        cases h
      · rcases hn : s.tracker.heap p with _ | n
        · simp only [hi, hn] at h
          obtain rfl := Option.some.inj h
          exact .touches hi hn
        · simp only [hi, hn] at h
          obtain rfl := Option.some.inj h
          exact .raise hi hn
    | unmount i =>
      rcases hi : s.failing[i]? with _ | p
      · simp only [hi] at h
        cases h
      · rcases hn : s.tracker.heap p with _ | n
        · simp only [hi, hn] at h
          obtain rfl := Option.some.inj h
          exact .deletes hi hn
        · simp only [hi, hn] at h
          obtain rfl := Option.some.inj h
          exact .unmount hi hn

/-! ## Runs in turn -/

/-- What a run in turn preserves: the callbacks that have failed belong to different objects, and
these are alive. -/
structure Inv (s : Process) : Prop where
  tidy : s.tracker.Tidy
  defined : s.status ≠ .undefined
  throws : s.remounted = []
  one : s.failing.Nodup
  waits : ∀ p ∈ s.failing, ∃ n, s.tracker.heap p = some n

theorem inv_new : Inv new where
  tidy := DeviceTracker.tidy_new
  defined := Status.noConfusion
  throws := rfl
  one := List.nodup_nil
  waits _ hp := (List.not_mem_nil hp).elim

theorem Inv.sane (hs : Inv s) : Sane s where
  once := hs.tidy.once
  defined := hs.defined
  live serial p h := by
    obtain ⟨n, hn, hserial, -⟩ := hs.tidy.entry serial p h
    exact ⟨n, hn, hserial⟩
  registered := hs.tidy.registered
  throws := hs.throws

/-- A method of the tracker that does nothing undefined leaves a process in order, if it does so
where it comes to its end. -/
theorem Inv.settle {α : Type} {P : α → Prop} {k : α → Process} {x : Fate α} (hs : Inv s)
    (hx : x.Ensures P) (hk : ∀ r, x = .done r → P r → Inv (k r)) : Inv (s.settle k x) := by
  cases x with
  | done r => exact hk r rfl hx
  | terminated => exact { hs with defined := Status.noConfusion }
  | undefined => exact hx.elim

/-- A scan that finds the device of an object keeps the object. -/
theorem Inv.scan (hs : Inv s) {attempt : Serial → Attempt} {devices : List Serial}
    (hok : InTurn (.scan attempt devices) s) :
    Inv (s.settle (fun t => { s with tracker := t })
      (s.tracker.updateConnectedDevices attempt devices)) := by
  refine hs.settle (hs.tidy.toSound.updateConnectedDevices attempt devices) fun t hdone _ => ?_
  obtain ⟨t', hdone', ht, hscanned, -⟩ := DeviceTracker.scanned_updateConnectedDevices attempt
    devices hs.tidy (DeviceTracker.noneFailsEarly_of_done hs.tidy.toValid hdone)
  obtain rfl := Fate.done.inj (hdone.symm.trans hdone')
  refine ⟨ht, hs.defined, hs.throws, hs.one, fun p hp => ?_⟩
  obtain ⟨n, hn⟩ := hs.waits p hp
  have hstays := hscanned.stays n.deviceSerial (hok p hp n hn) p (hs.tidy.lookup hn)
  obtain ⟨m, hm, -⟩ := ht.entry _ p hstays
  exact ⟨m, hm⟩

/-- A device that has no entry is connected next to the others. -/
theorem Inv.connect (hs : Inv s) {serial : Serial} (hnew : serial ∉ s.tracker.instances)
    (a : Attempt) :
    Inv (s.settle (s.connected serial) (s.tracker.connectToDevice a serial)) := by
  have hthrows (r : Except Failure Pointer × DeviceTracker) :
      (s.connected serial r).remounted = [] := by
    show (if _ then _ else _) = _
    rw [if_neg fun h => hnew h.1]
    exact hs.throws
  have hold {p : Pointer} {n : Nandroid} (hn : s.tracker.heap p = some n) :
      p ≠ s.tracker.nextPointer := Nat.ne_of_lt (hs.tidy.fresh p n hn)
  rcases DeviceTracker.connectToDeviceInternal_eq a serial s.tracker with
    ⟨-, -, -, heq⟩ | ⟨-, -, heq⟩ | ⟨e, -, -, -, heq⟩ | ⟨-, hmounted, -, heq⟩
  · rw [DeviceTracker.connectToDevice, heq]
    exact { hs with throws := hthrows _ }
  · rw [DeviceTracker.connectToDevice, heq]
    exact { hs with defined := Status.noConfusion }
  · rw [DeviceTracker.connectToDevice, heq]
    refine ⟨hs.tidy.discarding _, hs.defined, hthrows _, hs.one, fun p hp => ?_⟩
    obtain ⟨n, hn⟩ := hs.waits p hp
    exact ⟨n, (DeviceTracker.heap_discarding_eq_some).mpr ⟨hold hn, hn⟩⟩
  · rw [DeviceTracker.connectToDevice, heq]
    refine ⟨?_, hs.defined, hthrows _, hs.one, fun p hp => ?_⟩
    · exact hs.tidy.registering hnew (Nandroid.reached_deviceSerial _ _) rfl rfl
    · obtain ⟨n, hn⟩ := hs.waits p hp
      exact ⟨n, DeviceTracker.heap_registering_eq_some.mpr (Or.inr ⟨hold hn, hn⟩)⟩

/-- The callback that has failed unmounts its object, and the others keep theirs. -/
theorem Inv.unmount (hs : Inv s) {i : ℕ} {p : Pointer} {n : Nandroid}
    (hi : s.failing[i]? = some p) (hn : s.tracker.heap p = some n) :
    Inv (s.settle (fun t => { s with tracker := t, failing := s.failing.eraseIdx i })
      (s.tracker.unmountDevice p)) := by
  have hown := hs.tidy.lookup hn
  obtain ⟨m, hm, -, hjoins⟩ := hs.tidy.entry _ p hown
  obtain rfl := Option.some.inj (hn.symm.trans hm)
  rw [DeviceTracker.unmountDevice_eq hn, if_pos hjoins]
  refine ⟨hs.tidy.retiring hn hown, hs.defined, hs.throws, hs.one.eraseIdx i, fun q hq => ?_⟩
  obtain ⟨m, hm⟩ := hs.waits q (List.mem_of_mem_eraseIdx hq)
  have hqp : q ≠ p := by
    rintro rfl
    obtain ⟨j, hji, hj⟩ := List.mem_eraseIdx_iff_getElem?.mp hq
    have hlt := (List.getElem?_eq_some_iff.mp hj).1
    exact hji ((List.getElem?_inj hlt hs.one).mp (hj.trans hi.symm))
  exact ⟨m, DeviceTracker.heap_retiring_eq_some.mpr ⟨hqp, hm⟩⟩

/-- **A step in turn keeps the invariant.** -/
theorem Inv.next (hs : Inv s) (hok : InTurn a s) (hnext : s.next a = some s') : Inv s' := by
  have alive {p : Pointer} (hp : s.Alive p) (hn : s.tracker.heap p = none) : False := by
    rw [Alive, hn] at hp
    cases hp
  cases (step_of_next hnext).2 with
  | scan => exact hs.scan hok
  | connect => exact hs.connect hok _
  | enter => exact { hs with }
  | use => exact hs
  | leave => exact { hs with }
  | @raise i p n hi hn =>
    refine { hs with one := ?_, waits := fun q hq => ?_ }
    · exact List.nodup_cons.mpr ⟨(hok p hi).2, hs.one⟩
    · rcases List.mem_cons.mp hq with rfl | hq
      · exact ⟨n, hn⟩
      · exact hs.waits q hq
  | unmount hi hn => exact hs.unmount hi hn
  | @touches a p ha hn =>
    cases a with
    | use i => exact (alive (hok p ha) hn).elim
    | raise i => exact (alive (hok p ha).1 hn).elim
    | _ => exact ha.elim
  | @deletes i p hi hn =>
    -- who has failed waits for an object that is alive
    obtain ⟨n, hn'⟩ := hs.waits p (List.mem_of_getElem? hi)
    cases hn.symm.trans hn'

/-- **Runs in turn are sane.**  In every run in which a device is connected only while it has no
entry, a callback uses its object and fails only while the object is alive, at most one callback of
an object fails, and scans find the device of an object of which a callback has failed, lifetimes
are in order in every state. -/
theorem sane_of_reachable (hs : Reachable InTurn s) : Sane s := by
  suffices h : Inv s from h.sane
  induction hs with
  | new => exact inv_new
  | next a _ hok hnext ih => exact ih.next hok hnext

/-! ### The map in every run -/

theorem valid_settle {α : Type} {k : α → Process} {x : Fate α} (hs : s.tracker.Valid)
    (hk : ∀ r, x = .done r → (k r).tracker.Valid) : (s.settle k x).tracker.Valid := by
  cases x with
  | done r => exact hk r rfl
  | terminated => exact hs
  | undefined => exact hs

theorem valid_next (hs : s.tracker.Valid) (hnext : s.next a = some s') : s'.tracker.Valid := by
  cases (step_of_next hnext).2 with
  | scan => exact valid_settle hs fun t ht => hs.updateConnectedDevices ht
  | connect => exact valid_settle hs fun r hr => hs.connectToDevice hr
  | unmount => exact valid_settle hs fun t ht => hs.unmountDevice ht
  | deletes => exact { hs with }
  | _ => exact hs

/-- In turn or not, the map leads to objects that are alive and can be destroyed.  This is what
`DeviceTracker.copes_iff` asks of a tracker. -/
theorem valid_of_reachable {Ok : ProcessAct → Process → Prop} (hs : Reachable Ok s) :
    s.tracker.Valid := by
  induction hs with
  | new => exact DeviceTracker.valid_new
  | next a _ _ hnext ih => exact valid_next ih hnext

/-! ### Runs out of turn -/

/-- Several steps. -/
def replay : List ProcessAct → Process → Option Process
  | [], s => some s
  | a :: as, s => (s.next a).bind (replay as)

theorem Reachable.replay {Ok : ProcessAct → Process → Prop} (hs : Reachable Ok s)
    (hok : ∀ a s, Ok a s) (as : List ProcessAct) (hrun : Process.replay as s = some s') :
    Reachable Ok s' := by
  induction as generalizing s with
  | nil =>
    obtain rfl := Option.some.inj hrun
    exact hs
  | cons a as ih =>
    unfold Process.replay at hrun
    rcases hnext : s.next a with _ | s₁
    · rw [hnext] at hrun
      cases hrun
    · rw [hnext] at hrun
      exact ih (hs.next a (hok a s) hnext) hrun

/-- Two devices are mounted, a callback of each fails, a scan finds both, and both are unmounted. -/
theorem sane_of_reachable_unmount :
    ∃ s, Reachable InTurn s ∧ s.tracker.destroyed = [1, 0] ∧ Sane s := by
  have hs : Reachable InTurn _ := Reachable.new.next
    (.scan (fun _ => .perfect) [[1], [2]]) (fun _ h => (List.not_mem_nil h).elim) rfl
  have hrunning := (hs.next (.enter 0) trivial rfl).next (.enter 1) trivial rfl
  have hused := hrunning.next (.use 0) (fun _ h => by cases h; rfl) rfl
  have hfailed := (hused.next (.raise 1) (fun _ h => by cases h; exact ⟨rfl, by decide⟩) rfl).next
    (.raise 0) (fun _ h => by cases h; exact ⟨rfl, by decide⟩) rfl
  have hscanned := hfailed.next (.scan (fun _ => .perfect) [[1], [2]]) (fun p hp n hn => by
    rcases List.mem_cons.mp hp with rfl | hp
    · cases hn
      decide
    · obtain rfl := List.mem_singleton.mp hp
      cases hn
      decide) rfl
  have hend := (hscanned.next (.unmount 1) trivial rfl).next (.unmount 0) trivial rfl
  exact ⟨_, hend, rfl, sane_of_reachable hend⟩

/-- **The code does not wait its turn.**  Two callbacks of one device fail together, and the second
deletes the object that the first has destroyed once more.  And `connect_to_device` returns for a
device that is mounted: the first object stays mounted, and the map has lost it. -/
theorem not_sane :
    (∃ s, Reachable (fun _ _ => True) s ∧ s.tracker.destroyed = [0, 0] ∧ ¬Sane s) ∧
      ∃ s, Reachable (fun _ _ => True) s ∧ s.remounted = [[1]] ∧
        (∃ n, s.tracker.heap 0 = some n ∧ n.mounted = true ∧
          s.tracker.instances.lookup n.deviceSerial = some 1) ∧ ¬Sane s := by
  constructor
  · have hs : Reachable (fun _ _ => True) _ := Reachable.new.replay (fun _ _ => trivial)
      [.connect .perfect [1], .enter 0, .enter 0, .raise 0, .raise 0, .unmount 0, .unmount 0] rfl
    refine ⟨_, hs, rfl, fun hsane => ?_⟩
    exact (List.nodup_cons.mp hsane.once).1 (List.mem_singleton_self 0)
  · have hs : Reachable (fun _ _ => True) _ := Reachable.new.replay (fun _ _ => trivial)
      [.connect .perfect [1], .connect .perfect [1]] rfl
    refine ⟨_, hs, rfl, ⟨_, rfl, rfl, rfl⟩, fun hsane => ?_⟩
    cases hsane.throws

end Process

end NandroidFS
