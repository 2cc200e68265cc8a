import NandroidFS.Mount.Callbacks

/-!
# The ports of the devices

Every `Nandroid` is given a local port, which `adb` forwards to its agent.  The port is the value of
`current_port`, a counter of 16 bits that begins at 25989 and goes on with every object that is
made, whether it is connected or not.  Nobody looks whether a port is in use, and nothing is given
back, so the `p`-th object has the port `25989 + p`, without what does not fit.

After 39547 objects the counter is `0`, and after 65536 it comes to the ports that it has given out
before.

* `Numbered`: pointers and ports are counted together.
* `Counts`: the calls that make objects make them one after the other.
* `Process.portsApart_iff`: the ports are those of one object each, and none is `0`, exactly if no
  object is made while `current_port` is `0`.
* `Process.not_portsApart`: a device stays mounted while others come and go, and a later one gets
  its port.
-/

namespace NandroidFS

namespace DeviceTracker

variable {t t' : DeviceTracker} {serial : Serial} {p q : Pointer} {n m : Nandroid}
  {attempt : Serial → Attempt} {devices : List Serial}

/-- No two objects that are alive have one port, and no port is `0`. -/
structure PortsApart (t : DeviceTracker) : Prop where
  nonzero : ∀ p n, t.heap p = some n → n.portNum ≠ 0
  distinct : ∀ p q n m, t.heap p = some n → t.heap q = some m → n.portNum = m.portNum → p = q

/-- The tracker while the object of a call is connected. -/
def ConnectCall.during (c : ConnectCall) : DeviceTracker :=
  c.tracker.allocate (Nandroid.new c.serial c.tracker.currentPort)

/-! ## Counting -/

/-- The port of the `p`-th object. -/
def portOf (p : ℕ) : UInt16 := 25989 + UInt16.ofNat p

theorem toNat_portOf (p : ℕ) : (portOf p).toNat = (25989 + p) % 65536 := by
  rw [portOf, UInt16.toNat_add, UInt16.toNat_ofNat']
  show (25989 + p % 65536) % 65536 = _
  omega

theorem portOf_succ (p : ℕ) : portOf (p + 1) = portOf p + 1 := by
  apply UInt16.toNat.inj
  rw [UInt16.toNat_add, toNat_portOf, toNat_portOf]
  show _ = ((25989 + p) % 65536 + 1) % 65536
  omega

theorem portOf_eq_zero_iff (p : ℕ) : portOf p = 0 ↔ (25989 + p) % 65536 = 0 := by
  rw [← UInt16.toNat_inj, toNat_portOf]
  rfl

theorem portOf_ne_zero {p : ℕ} (hp : p < 39547) : portOf p ≠ 0 := by
  rw [Ne, portOf_eq_zero_iff]
  omega

theorem portOf_inj {p q : ℕ} (hp : p < 39547) (hq : q < 39547) (h : portOf p = portOf q) :
    p = q := by
  have heq : (portOf p).toNat = (portOf q).toNat := by rw [h]
  rw [toNat_portOf, toNat_portOf] at heq
  omega

/-- The pointers and the ports are counted together. -/
structure Numbered (t : DeviceTracker) : Prop where
  current : t.currentPort = portOf t.nextPointer
  alive : ∀ p n, t.heap p = some n → p < t.nextPointer ∧ n.portNum = portOf p

theorem numbered_new : new.Numbered where
  current := rfl
  alive p n h := by cases h

theorem Numbered.allocate (ht : t.Numbered) (hn : n.portNum = t.currentPort) :
    (t.allocate n).Numbered where
  current := by
    show t.currentPort + 1 = portOf (t.nextPointer + 1)
    rw [portOf_succ, ht.current]
  alive q m hq := by
    rcases heap_allocate_eq_some.mp hq with ⟨rfl, rfl⟩ | ⟨-, hq⟩
    · exact ⟨Nat.lt_succ_self _, hn.trans ht.current⟩
    · obtain ⟨hlt, hport⟩ := ht.alive q m hq
      exact ⟨Nat.lt_succ_of_lt hlt, hport⟩

/-- Objects may be destroyed. -/
theorem Numbered.of_heap (ht : t.Numbered) (hport : t'.currentPort = t.currentPort)
    (hnext : t'.nextPointer = t.nextPointer)
    (hheap : ∀ p n, t'.heap p = some n → t.heap p = some n) : t'.Numbered where
  current := by rw [hport, hnext, ht.current]
  alive q m hq := by
    rw [hnext]
    exact ht.alive q m (hheap q m hq)

theorem Numbered.discarding (ht : t.Numbered) (hn : n.portNum = t.currentPort) :
    (t.discarding n).Numbered :=
  (ht.allocate hn).of_heap rfl rfl fun q m hq => by
    obtain ⟨hne, hold⟩ := heap_discarding_eq_some.mp hq
    exact (Function.update_of_ne hne _ _).trans hold

theorem Numbered.registering (ht : t.Numbered) (hn : n.portNum = t.currentPort) :
    (t.registering serial n).Numbered :=
  (ht.allocate hn).of_heap rfl rfl fun _ _ hq => hq

theorem Numbered.retiring (ht : t.Numbered) (serial : Serial) (p : Pointer) :
    (t.retiring serial p).Numbered :=
  ht.of_heap rfl rfl fun _ _ hq => (heap_retiring_eq_some.mp hq).2

/-- As long as the counter has not come to `0`, the ports are apart. -/
theorem Numbered.portsApart (ht : t.Numbered) (hle : t.nextPointer ≤ 39547) : t.PortsApart where
  nonzero p n hp := by
    obtain ⟨hlt, hport⟩ := ht.alive p n hp
    rw [hport]
    exact portOf_ne_zero (Nat.lt_of_lt_of_le hlt hle)
  distinct p q n m hp hq hpq := by
    obtain ⟨hpt, hport⟩ := ht.alive p n hp
    obtain ⟨hqt, hport'⟩ := ht.alive q m hq
    rw [hport, hport'] at hpq
    exact portOf_inj (Nat.lt_of_lt_of_le hpt hle) (Nat.lt_of_lt_of_le hqt hle) hpq

/-! ## Calls -/

/-- The calls of a scan in which the constructor has not raised. -/
def made (attempt : Serial → Attempt) (devices : List Serial) (t : DeviceTracker) :
    List ConnectCall :=
  (calls attempt devices t).filter fun c => c.attempt.serial

/-- The objects of these calls are made one after the other, from `t` on. -/
structure Counts (cs : List ConnectCall) (t : DeviceTracker) : Prop where
  pointers : cs.map (fun c => c.tracker.nextPointer) = List.range' t.nextPointer cs.length
  numbered : ∀ c ∈ cs, c.tracker.Numbered

variable {cs cs' : List ConnectCall}

theorem counts_nil (t : DeviceTracker) : Counts [] t :=
  ⟨rfl, by simp⟩

theorem Counts.append (h : Counts cs t) (h' : Counts cs' t')
    (hnext : t'.nextPointer = t.nextPointer + cs.length) : Counts (cs ++ cs') t where
  pointers := by
    rw [List.map_append, h.pointers, h'.pointers, hnext, List.length_append,
      List.range'_append_1]
  numbered c hc := (List.mem_append.mp hc).elim (h.numbered c) (h'.numbered c)

theorem counts_singleton {c : ConnectCall} (hc : c.tracker.Numbered) : Counts [c] c.tracker where
  pointers := rfl
  numbered c' hc' := by
    obtain rfl := List.mem_singleton.mp hc'
    exact hc

theorem Counts.nextPointer_lt {c : ConnectCall} (h : Counts cs t) (hc : c ∈ cs) :
    c.tracker.nextPointer < t.nextPointer + cs.length := by
  have hmem := List.mem_map_of_mem (f := fun c : ConnectCall => c.tracker.nextPointer) hc
  rw [h.pointers, List.mem_range'_1] at hmem
  exact hmem.2

/-- One device makes one object, or none. -/
theorem made_cons (attempt : Serial → Attempt) (serial : Serial) (devices : List Serial)
    (ht : t.Numbered) :
    (∃ t₁ cs, t.tryDevice attempt serial = .done t₁ ∧
      made attempt (serial :: devices) t = cs ++ made attempt devices t₁ ∧
      Counts cs t ∧ t₁.Numbered ∧ t₁.nextPointer = t.nextPointer + cs.length) ∨
    t.tryDevice attempt serial = .terminated ∧
      Counts (made attempt (serial :: devices) t) t := by
  have hone : Counts [⟨t, serial, attempt serial⟩] t := counts_singleton ht
  rcases tryDevice_cases attempt serial t with ⟨hold, heq⟩ | ⟨hnew, hs, -, heq⟩ |
    ⟨hnew, -, ⟨hs, -, heq⟩ | ⟨e, hs, -, heq⟩ | ⟨hs, -, heq⟩⟩
  · refine Or.inl ⟨t, [], heq, ?_, counts_nil t, ht, rfl⟩
    rw [made, calls_cons_of_not_isNew hold]
    rfl
  · refine Or.inr ⟨heq, ?_⟩
    rw [made, calls_cons_of_terminated hnew heq, List.filter_singleton, hs]
    exact hone
  · -- the constructor has raised, and the counter has not gone on
    refine Or.inl ⟨_, [], heq, ?_, counts_nil t, ht.of_heap rfl rfl fun _ _ h => h, rfl⟩
    rw [made, calls_cons_of_done hnew heq, List.filter_cons_of_neg (by simp [hs])]
    rfl
  · have hdiscarding :
        (t.discarding ((Nandroid.new serial t.currentPort).reached (some e))).Numbered :=
      ht.discarding (Nandroid.reached_portNum _ _)
    refine Or.inl ⟨_, [_], heq, ?_, hone, hdiscarding.of_heap rfl rfl fun _ _ h => h, rfl⟩
    rw [made, calls_cons_of_done hnew heq, List.filter_cons_of_pos (by simp [hs])]
    rfl
  · refine Or.inl ⟨_, [_], heq, ?_, hone, ht.registering (Nandroid.reached_portNum _ _), rfl⟩
    rw [made, calls_cons_of_done hnew heq, List.filter_cons_of_pos (by simp [hs])]
    rfl

/-- **The first pass**: what it makes is counted, and if it comes to its end so is everything. -/
theorem counts_made (attempt : Serial → Attempt) : ∀ (devices : List Serial) (t : DeviceTracker),
    t.Numbered → Counts (made attempt devices t) t ∧
      ∀ t', devices.foldlM (tryDevice attempt) t = .done t' →
        t'.Numbered ∧ t'.nextPointer = t.nextPointer + (made attempt devices t).length := by
  intro devices
  induction devices with
  | nil =>
    intro t ht
    refine ⟨counts_nil t, fun t' h => ?_⟩
    obtain rfl := Fate.done.inj h
    exact ⟨ht, rfl⟩
  | cons d devices ih =>
    intro t ht
    rw [List.foldlM_cons]
    rcases made_cons attempt d devices ht with
      ⟨t₁, cs, heq, hmade, hcs, ht₁, hnext⟩ | ⟨heq, hcs⟩
    · obtain ⟨hrest, hend⟩ := ih t₁ ht₁
      rw [hmade, heq, Fate.done_bind]
      refine ⟨hcs.append hrest hnext, fun t' h => ?_⟩
      obtain ⟨ht', hnext'⟩ := hend t' h
      refine ⟨ht', ?_⟩
      rw [hnext', hnext, List.length_append, Nat.add_assoc]
    · rw [heq]
      exact ⟨hcs, fun t' h => by cases h⟩

/-- **One scan.** -/
theorem Numbered.updateConnectedDevices (ht : t.Numbered)
    (h : t.updateConnectedDevices attempt devices = .done t') :
    t'.Numbered ∧ t'.nextPointer = t.nextPointer + (made attempt devices t).length := by
  unfold DeviceTracker.updateConnectedDevices at h
  rcases hfirst : devices.foldlM (tryDevice attempt) t with t₁ | _ | _
  · rw [hfirst, Fate.done_bind] at h
    obtain ⟨ht₁, hnext⟩ := (counts_made attempt devices t ht).2 t₁ hfirst
    rw [← hnext]
    refine Fate.foldlM_done (P := fun t => t.Numbered ∧ t.nextPointer = t₁.nextPointer)
      (fun t₂ serial t₃ h₂ hremove => ?_) _ ⟨ht₁, rfl⟩ h
    rcases removeDevice_done hremove with rfl | ⟨p, rfl⟩
    · exact h₂
    · exact ⟨h₂.1.retiring serial p, h₂.2⟩
  · rw [hfirst] at h
    cases h
  · rw [hfirst] at h
    cases h

end DeviceTracker

/-! ## Runs -/

namespace Process

open DeviceTracker

variable {s s' : Process} {a : ProcessAct} {as : List ProcessAct}

/-- The calls of a step that make objects. -/
def made (s : Process) : ProcessAct → List ConnectCall
  | .scan attempt devices => DeviceTracker.made attempt devices s.tracker
  | .connect a serial => if a.serial then [⟨s.tracker, serial, a⟩] else []
  | _ => []

theorem made_connect (s : Process) (a : Attempt) (serial : Serial) :
    s.made (.connect a serial) = if a.serial then [⟨s.tracker, serial, a⟩] else [] := rfl

/-- The calls of a run that make objects.  A run ends where a step is not possible. -/
def objects : List ProcessAct → Process → List ConnectCall
  | [], _ => []
  | a :: as, s => (s.next a).elim [] fun s' => s.made a ++ objects as s'

/-- The tracker at all moments of a run: between the steps, and while an object is connected. -/
def moments : List ProcessAct → Process → List DeviceTracker
  | [], s => [s.tracker]
  | a :: as, s => s.tracker :: (s.next a).elim [] fun s' =>
      (s.made a).map ConnectCall.during ++ moments as s'

/-- A step has counted its objects, unless the process has ended. -/
def Advances (s s' : Process) (count : ℕ) : Prop :=
  s'.tracker.Numbered ∧ (s'.tracker.nextPointer = s.tracker.nextPointer + count ∨
    s'.status ≠ .running ∧ s'.tracker = s.tracker)

theorem advances_settle {α : Type} {k : α → Process} {x : Fate α} {count : ℕ}
    (hs : s.tracker.Numbered) (hk : ∀ r, x = .done r → (k r).tracker.Numbered ∧
      (k r).tracker.nextPointer = s.tracker.nextPointer + count) :
    Advances s (s.settle k x) count := by
  cases x with
  | done r => exact ⟨(hk r rfl).1, Or.inl (hk r rfl).2⟩
  | terminated => exact ⟨hs, Or.inr ⟨Status.noConfusion, rfl⟩⟩
  | undefined => exact ⟨hs, Or.inr ⟨Status.noConfusion, rfl⟩⟩

/-- **One step.** -/
theorem advances_next (hs : s.tracker.Numbered) (hnext : s.next a = some s') :
    Counts (s.made a) s.tracker ∧ Advances s s' (s.made a).length := by
  have same (hmade : s.made a = []) (htracker : s'.tracker.Numbered)
      (hpointer : s'.tracker.nextPointer = s.tracker.nextPointer) :
      Counts (s.made a) s.tracker ∧ Advances s s' (s.made a).length := by
    rw [hmade]
    exact ⟨counts_nil _, htracker, Or.inl hpointer⟩
  cases (step_of_next hnext).2 with
  | @scan attempt devices =>
    exact ⟨(counts_made attempt devices s.tracker hs).1,
      advances_settle hs fun t ht => hs.updateConnectedDevices ht⟩
  | @connect attempt serial =>
    rw [made_connect]
    rcases connectToDeviceInternal_eq attempt serial s.tracker with
      ⟨hserial, -, -, heq⟩ | ⟨hserial, -, heq⟩ | ⟨e, hserial, -, -, heq⟩ | ⟨hserial, -, -, heq⟩
    · rw [hserial]
      refine ⟨counts_nil _, advances_settle hs fun r hr => ?_⟩
      obtain rfl := Fate.done.inj (heq.symm.trans hr)
      exact ⟨hs, rfl⟩
    · rw [hserial]
      refine ⟨counts_singleton hs, advances_settle hs fun r hr => ?_⟩
      cases heq.symm.trans hr
    · rw [hserial]
      refine ⟨counts_singleton hs, advances_settle hs fun r hr => ?_⟩
      obtain rfl := Fate.done.inj (heq.symm.trans hr)
      exact ⟨hs.discarding (Nandroid.reached_portNum _ _), rfl⟩
    · rw [hserial]
      refine ⟨counts_singleton hs, advances_settle hs fun r hr => ?_⟩
      obtain rfl := Fate.done.inj (heq.symm.trans hr)
      exact ⟨hs.registering (Nandroid.reached_portNum _ _), rfl⟩
  | @unmount i p n hi hn =>
    refine ⟨counts_nil _, advances_settle hs fun t ht => ?_⟩
    rw [unmountDevice_eq hn] at ht
    split at ht
    · obtain rfl := Fate.done.inj ht
      exact ⟨hs.retiring n.deviceSerial p, rfl⟩
    · cases ht
  | touches ha =>
    cases a with
    | use => exact same rfl hs rfl
    | raise => exact same rfl hs rfl
    | _ => exact ha.elim
  | deletes => exact same rfl { hs with } rfl
  | _ => exact same rfl hs rfl

theorem objects_of_not_running (as : List ProcessAct) (hs : s.status ≠ .running) :
    objects as s = [] := by
  cases as with
  | nil => rfl
  | cons a as =>
    have hnext : s.next a = none := if_pos hs
    rw [objects, hnext]
    rfl

/-- **A run**: its objects are counted, and no moment of it has seen more objects than the run
makes. -/
theorem counts_objects (as : List ProcessAct) : ∀ s : Process, s.tracker.Numbered →
    Counts (objects as s) s.tracker ∧ ∀ t ∈ moments as s,
      t.Numbered ∧ t.nextPointer ≤ s.tracker.nextPointer + (objects as s).length := by
  induction as with
  | nil =>
    intro s hs
    refine ⟨counts_nil _, fun t ht => ?_⟩
    obtain rfl := List.mem_singleton.mp ht
    exact ⟨hs, le_rfl⟩
  | cons a as ih =>
    intro s hs
    rcases hnext : s.next a with _ | s'
    · simp only [objects, moments, hnext, Option.elim_none]
      refine ⟨counts_nil _, fun t ht => ?_⟩
      obtain rfl := List.mem_singleton.mp ht
      exact ⟨hs, le_rfl⟩
    · obtain ⟨hmade, hs', hadvance⟩ := advances_next hs hnext
      obtain ⟨hrest, hmoments⟩ := ih s' hs'
      simp only [objects, moments, hnext, Option.elim_some, List.mem_cons, List.mem_append,
        List.mem_map, List.length_append]
      refine ⟨?_, ?_⟩
      · rcases hadvance with hcount | ⟨hended, -⟩
        · exact hmade.append hrest hcount
        · rw [objects_of_not_running as hended, List.append_nil]
          exact hmade
      · rintro t (rfl | ⟨c, hc, rfl⟩ | ht)
        · exact ⟨hs, Nat.le_add_right _ _⟩
        · have hlt := hmade.nextPointer_lt hc
          refine ⟨(hmade.numbered c hc).allocate rfl, ?_⟩
          exact (Nat.succ_le_of_lt hlt).trans (Nat.add_le_add_left (Nat.le_add_right _ _) _)
        · obtain ⟨hnumbered, hle⟩ := hmoments t ht
          refine ⟨hnumbered, hle.trans ?_⟩
          rcases hadvance with hcount | ⟨-, hsame⟩
          · rw [hcount, Nat.add_assoc]
          · rw [hsame]
            exact Nat.add_le_add_left (Nat.le_add_left _ _) _

theorem during_mem_moments {c : ConnectCall} (as : List ProcessAct) :
    ∀ s : Process, c ∈ objects as s → c.during ∈ moments as s := by
  induction as with
  | nil =>
    intro s hc
    cases hc
  | cons a as ih =>
    intro s hc
    rcases hnext : s.next a with _ | s'
    · rw [objects, hnext] at hc
      cases hc
    · simp only [objects, hnext, Option.elim_some, List.mem_append] at hc
      simp only [moments, hnext, Option.elim_some]
      rcases hc with hc | hc
      · exact List.mem_cons_of_mem _ (List.mem_append_left _ (List.mem_map_of_mem hc))
      · exact List.mem_cons_of_mem _ (List.mem_append_right _ (ih s' hc))

/-- The object that is being connected is alive, with the port that `current_port` was. -/
theorem heap_during (c : ConnectCall) :
    c.during.heap c.tracker.nextPointer =
      some (Nandroid.new c.serial c.tracker.currentPort) :=
  Function.update_self _ _ _

/-- **When no two devices share a port.**  In a run of scans, connections, callbacks and unmounts of
any length, the objects that are alive at any moment have different ports, and none has the port
`0`, exactly if no object is made while `current_port` is `0`; and this is so exactly if the run
makes at most 39547 objects. -/
theorem portsApart_iff (as : List ProcessAct) :
    ((∀ t ∈ moments as .new, t.PortsApart) ↔
      ∀ c ∈ objects as .new, c.tracker.currentPort ≠ 0) ∧
    ((∀ c ∈ objects as .new, c.tracker.currentPort ≠ 0) ↔
      (objects as .new).length ≤ 39547) := by
  obtain ⟨hcounts, hmoments⟩ := counts_objects as .new numbered_new
  have hnonzero (h : ∀ t ∈ moments as .new, t.PortsApart) :
      ∀ c ∈ objects as .new, c.tracker.currentPort ≠ 0 :=
    fun c hc => (h _ (during_mem_moments as .new hc)).nonzero _ _ (heap_during c)
  have hfew (h : ∀ c ∈ objects as .new, c.tracker.currentPort ≠ 0) :
      (objects as .new).length ≤ 39547 := by
    by_contra hmany
    have hlt : 39547 < (objects as .new).length := not_le.mp hmany
    -- the call that makes the object 39547
    set c := (objects as .new)[39547] with hc
    have hpointer : c.tracker.nextPointer = 39547 := by
      have hget := List.getElem_of_eq hcounts.pointers (i := 39547) (by simpa using hlt)
      rw [List.getElem_map, List.getElem_range'] at hget
      exact hget
    have hmem : c ∈ objects as .new := List.getElem_mem hlt
    refine h c hmem ?_
    rw [(hcounts.numbered c hmem).current, hpointer]
    rfl
  have hapart (h : (objects as .new).length ≤ 39547) : ∀ t ∈ moments as .new, t.PortsApart := by
    intro t ht
    obtain ⟨hnumbered, hle⟩ := hmoments t ht
    refine hnumbered.portsApart (hle.trans ?_)
    show 0 + (objects as .new).length ≤ 39547
    rwa [Nat.zero_add]
  exact ⟨⟨hnonzero, fun h => hapart (hfew h)⟩, ⟨hfew, fun h => hnonzero (hapart h)⟩⟩

/-! ### A port that is given out twice -/

/-- A device is plugged in next to the first one, which stays, and is taken away again. -/
def plug (serial : Serial) (a : Attempt) : List ProcessAct :=
  [.scan (fun _ => a) [[1], serial], .scan (fun _ => .perfect) [[1]]]

/-- The first device is mounted, and nothing else; so many objects have been made, and these devices
have been put aside. -/
structure Docked (count : ℕ) (failed : List Serial) (s : Process) : Prop where
  running : s.status = .running
  tidy : s.tracker.Tidy
  numbered : s.tracker.Numbered
  pointer : s.tracker.nextPointer = count
  first : s.tracker.instances.lookup [1] = some 0
  only : ∀ serial ∈ s.tracker.instances, serial = [1]
  failed : ∀ serial, serial ∈ s.tracker.failedToConnect ↔ serial ∈ failed

theorem not_isNew_of_lookup {t : DeviceTracker} {serial : Serial} {p : Pointer}
    (h : t.instances.lookup serial = some p) : ¬t.IsNew serial :=
  fun hnew => hnew.1 (AList.lookup_isSome.mp (by rw [h]; rfl))

/-- A scan in which nothing fails early is a step. -/
theorem next_scan {attempt : Serial → Attempt} {devices : List Serial}
    {t' : DeviceTracker} (hs : s.status = .running)
    (h : s.tracker.updateConnectedDevices attempt devices = .done t') :
    s.next (.scan attempt devices) = some { s with tracker := t' } := by
  unfold Process.next
  rw [if_neg (not_not.mpr hs)]
  simp only [h]
  rfl

section Docked

variable {count : ℕ} {failed : List Serial} {serial : Serial} {a : Attempt}

theorem Docked.isNew (h : Docked count failed s) (hne : serial ≠ [1]) (hfailed : serial ∉ failed) :
    s.tracker.IsNew serial :=
  ⟨fun hmem => hne (h.only serial hmem), fun hmem => hfailed ((h.failed serial).mp hmem)⟩

/-- The one call of a scan that finds another device. -/
theorem Docked.calls (h : Docked count failed s) (hne : serial ≠ [1]) (hfailed : serial ∉ failed)
    (hlate : ¬a.FailsEarly) :
    DeviceTracker.calls (fun _ => a) [[1], serial] s.tracker = [⟨s.tracker, serial, a⟩] := by
  have hnew := h.isNew hne hfailed
  obtain ⟨t₁, heq, -⟩ := tryDevice_of_isNew (fun _ => a) h.tidy hnew hlate
  rw [calls_cons_of_not_isNew (not_isNew_of_lookup h.first), calls_cons_of_done hnew heq]
  rfl

/-- The scan that finds it makes one object. -/
theorem Docked.visit (h : Docked count failed s) (hne : serial ≠ [1]) (hfailed : serial ∉ failed)
    (hserial : a.serial = true) (hlate : ¬a.FailsEarly) :
    ∃ t₁, s.next (.scan (fun _ => a) [[1], serial]) = some { s with tracker := t₁ } ∧
      t₁.Tidy ∧ t₁.Numbered ∧ t₁.nextPointer = count + 1 ∧
      t₁.instances.lookup [1] = some 0 ∧
      ∀ serial', serial' ∈ t₁.failedToConnect ↔
        serial' ∈ failed ∨ serial = serial' ∧ a.failure ≠ none := by
  obtain ⟨t₁, hdone, ht₁, hscanned, hput, -⟩ :=
    scanned_updateConnectedDevices (fun _ => a) [[1], serial] h.tidy fun _ _ _ => hlate
  obtain ⟨hnumbered, hpointer⟩ := h.numbered.updateConnectedDevices hdone
  have hcalls := h.calls hne hfailed hlate
  refine ⟨t₁, next_scan h.running hdone, ht₁, hnumbered, ?_, ?_, fun serial' => ?_⟩
  · rw [hpointer, h.pointer, DeviceTracker.made, hcalls,
      List.filter_cons_of_pos (by simp [hserial])]
    rfl
  · exact hscanned.stays [1] List.mem_cons_self 0 h.first
  · rw [hput, hcalls, h.failed]
    simp

/-- The scan that finds only the first device makes none. -/
theorem next_scan_first {t₁ : DeviceTracker} (hs : s.status = .running)
    (htracker : s.tracker = t₁) (ht₁ : t₁.Tidy) (hnumbered : t₁.Numbered)
    (hfirst : t₁.instances.lookup [1] = some 0) (hpointer : t₁.nextPointer = count)
    (hput : ∀ serial, serial ∈ t₁.failedToConnect ↔ serial ∈ failed) :
    ∃ s', s.next (.scan (fun _ => .perfect) [[1]]) = some s' ∧ Docked count failed s' := by
  subst htracker
  obtain ⟨t₂, hdone, ht₂, hscanned, hput₂, -⟩ := scanned_updateConnectedDevices
    (fun _ => .perfect) [[1]] ht₁ fun _ _ _ => not_failsEarly_perfect
  obtain ⟨hnumbered₂, hpointer₂⟩ := hnumbered.updateConnectedDevices hdone
  have hcalls : DeviceTracker.calls (fun _ => .perfect) [[1]] s.tracker = [] :=
    calls_cons_of_not_isNew (not_isNew_of_lookup hfirst)
  refine ⟨_, next_scan hs hdone, hs, ht₂, hnumbered₂, ?_, ?_, fun serial hmem => ?_,
    fun serial => ?_⟩
  · show t₂.nextPointer = count
    rw [hpointer₂, hpointer, DeviceTracker.made, hcalls]
    rfl
  · exact hscanned.stays [1] List.mem_cons_self 0 hfirst
  · exact List.mem_singleton.mp ((hscanned.mounted serial).mp hmem).1
  · show serial ∈ t₂.failedToConnect ↔ _
    rw [hput₂, hcalls, hput]
    simp

theorem replay_append {bs : List ProcessAct} {s'' : Process} (h : replay as s = some s')
    (h' : replay bs s' = some s'') : replay (as ++ bs) s = some s'' := by
  induction as generalizing s with
  | nil =>
    obtain rfl := Option.some.inj h
    exact h'
  | cons a as ih =>
    rw [List.cons_append, replay]
    rw [replay] at h
    rcases hnext : s.next a with _ | s₁
    · rw [hnext] at h
      cases h
    · rw [hnext] at h
      exact ih h

/-- What comes after a run is part of the longer run. -/
theorem moments_subset_append (bs : List ProcessAct) (h : replay as s = some s') :
    moments bs s' ⊆ moments (as ++ bs) s := by
  induction as generalizing s with
  | nil =>
    obtain rfl := Option.some.inj h
    exact List.Subset.refl _
  | cons a as ih =>
    rw [replay] at h
    rcases hnext : s.next a with _ | s₁
    · rw [hnext] at h
      cases h
    · rw [hnext] at h
      intro t ht
      simp only [List.cons_append, moments, hnext, Option.elim_some]
      exact List.mem_cons_of_mem _ (List.mem_append_right _ (ih h ht))

theorem Docked.plug (h : Docked count failed s) (hne : serial ≠ [1]) (hfailed : serial ∉ failed)
    (hserial : a.serial = true) (hlate : ¬a.FailsEarly) {failed' : List Serial}
    (hput : ∀ serial', serial' ∈ failed' ↔ serial' ∈ failed ∨ serial = serial' ∧ a.failure ≠ none) :
    ∃ s', replay (plug serial a) s = some s' ∧ Docked (count + 1) failed' s' := by
  obtain ⟨t₁, hnext, ht₁, hnumbered, hpointer, hfirst, hput₁⟩ :=
    h.visit hne hfailed hserial hlate
  obtain ⟨s', hnext', hs'⟩ := next_scan_first (s := { s with tracker := t₁ }) h.running rfl ht₁
    hnumbered hfirst hpointer fun serial' => (hput₁ serial').trans (hput serial').symm
  refine ⟨s', ?_, hs'⟩
  rw [Process.plug, replay, hnext, Option.bind_some, replay, hnext', Option.bind_some]
  rfl

/-- The second device, many times. -/
theorem Docked.replug (h : Docked count failed s) (hfailed : [2] ∉ failed) (times : ℕ) :
    ∃ s', replay (List.replicate times (Process.plug [2] .perfect)).flatten s = some s' ∧
      Docked (count + times) failed s' := by
  induction times generalizing s count with
  | zero => exact ⟨s, rfl, h⟩
  | succ times ih =>
    obtain ⟨s₁, hrun, hs₁⟩ := h.plug (by decide) hfailed rfl not_failsEarly_perfect fun serial' =>
      (or_iff_left fun hfailure => hfailure.2 rfl).symm
    obtain ⟨s', hrun', hs'⟩ := ih hs₁
    refine ⟨s', ?_, by rwa [Nat.add_right_comm, Nat.add_assoc] at hs'⟩
    rw [List.replicate_succ, List.flatten_cons]
    exact replay_append hrun hrun'

/-- When another device is found, its object and that of the first are alive together. -/
theorem Docked.exists_moment (h : Docked count failed s) (hne : serial ≠ [1])
    (hfailed : serial ∉ failed) (hserial : a.serial = true) (hlate : ¬a.FailsEarly)
    (hrun : replay as .new = some s) (later : List ProcessAct) :
    ∃ t ∈ moments (as ++ .scan (fun _ => a) [[1], serial] :: later) .new, ∃ n m,
      t.heap 0 = some n ∧ n.mounted = true ∧ n.portNum = portOf 0 ∧
      t.heap count = some m ∧ m.portNum = portOf count ∧ 0 < count := by
  obtain ⟨t₁, hnext, -⟩ := h.visit hne hfailed hserial hlate
  have hmade : ⟨s.tracker, serial, a⟩ ∈ s.made (.scan (fun _ => a) [[1], serial]) := by
    show _ ∈ DeviceTracker.made _ _ _
    rw [DeviceTracker.made, h.calls hne hfailed hlate,
      List.filter_cons_of_pos (by simp [hserial])]
    exact List.mem_cons_self
  have hobjects : ⟨s.tracker, serial, a⟩ ∈
      objects (.scan (fun _ => a) [[1], serial] :: later) s := by
    rw [objects, hnext, Option.elim_some]
    exact List.mem_append_left _ hmade
  obtain ⟨n, hn, -⟩ := h.tidy.entry [1] 0 h.first
  obtain ⟨hlt, hport⟩ := h.numbered.alive 0 n hn
  have hheap := heap_during ⟨s.tracker, serial, a⟩
  refine ⟨_, moments_subset_append _ hrun (during_mem_moments _ s hobjects), n, _, ?_,
    h.tidy.mounted 0 n hn, hport, h.pointer ▸ hheap, ?_, h.pointer ▸ hlt⟩
  · exact (Function.update_of_ne (Nat.ne_of_lt hlt) _ _).trans hn
  · show s.tracker.currentPort = portOf count
    rw [h.numbered.current, h.pointer]

end Docked

/-- The first device is mounted. -/
theorem docked_new :
    ∃ s, replay [.scan (fun _ => .perfect) [[1]]] .new = some s ∧ Docked 1 [] s := by
  obtain ⟨t, hdone, ht, hscanned, hput, -⟩ := scanned_updateConnectedDevices (fun _ => .perfect)
    [[1]] tidy_new fun _ _ _ => not_failsEarly_perfect
  obtain ⟨hnumbered, hpointer⟩ := numbered_new.updateConnectedDevices hdone
  have hexplicit : DeviceTracker.new.updateConnectedDevices (fun _ => .perfect) [[1]] =
      .done _ := rfl
  have hfirst : t.instances.lookup [1] = some 0 := by
    obtain rfl := Fate.done.inj (hexplicit.symm.trans hdone)
    rfl
  refine ⟨{ Process.new with tracker := t }, ?_, rfl, ht, hnumbered, hpointer, hfirst,
    fun serial hmem => List.mem_singleton.mp ((hscanned.mounted serial).mp hmem).1,
    fun serial => ?_⟩
  · rw [replay, next_scan rfl hdone]
    rfl
  · obtain rfl := Fate.done.inj (hexplicit.symm.trans hdone)
    exact Iff.rfl

/-- Everything succeeds, but no connection can be made: there is no port `0` to connect to. -/
def refused : Attempt := { Attempt.perfect with connects := false }

/-- A second device is plugged in 39546 times next to the first.  Then a third device gets the port
`0`, and is put aside.  The second device is plugged in 25989 times more. -/
def replugged : List ProcessAct :=
  ([.scan (fun _ => .perfect) [[1]]] ++ (List.replicate 39546 (plug [2] .perfect)).flatten) ++
    (plug [3] refused ++ ((List.replicate 25988 (plug [2] .perfect)).flatten ++
      [.scan (fun _ => .perfect) [[1], [2]]]))

theorem not_failsEarly_refused : ¬refused.FailsEarly := by
  rintro ⟨e, he, hearly⟩
  obtain rfl : e = .connection := (Option.some.inj he).symm
  exact hearly

/-- **Devices come to share a port.**  In this run the third device is connected with the port `0`;
and when the second device is plugged in for the last time, its object is given the port of the
first, which is still mounted. -/
theorem not_portsApart :
    (∃ t ∈ moments replugged .new, (∃ n, t.heap 39547 = some n ∧ n.portNum = 0) ∧
      ¬t.PortsApart) ∧
    ∃ t ∈ moments replugged .new, (∃ n m, t.heap 0 = some n ∧ n.mounted = true ∧
      t.heap 65536 = some m ∧ n.portNum = m.portNum) ∧ ¬t.PortsApart := by
  obtain ⟨s₁, hrun₁, hs₁⟩ := docked_new
  obtain ⟨s₂, hrun₂, hs₂⟩ := hs₁.replug List.not_mem_nil 39546
  have hput (serial : Serial) :
      serial ∈ [([3] : Serial)] ↔ serial ∈ [] ∨ [3] = serial ∧ refused.failure ≠ none := by
    have hfailure : refused.failure ≠ none := nofun
    simp [hfailure, eq_comm]
  have hthird : ([3] : Serial) ≠ [1] := by decide
  have hsecond : ([2] : Serial) ≠ [1] := by decide
  obtain ⟨s₃, hrun₃, hs₃⟩ :=
    hs₂.plug hthird List.not_mem_nil rfl not_failsEarly_refused hput
  obtain ⟨s₄, hrun₄, hs₄⟩ := hs₃.replug (by decide) 25988
  have hrefused := replay_append hrun₁ hrun₂
  have hlast := replay_append hrefused (replay_append hrun₃ hrun₄)
  constructor
  · obtain ⟨t, ht, -, m, -, -, -, hm, hport, -⟩ :=
      hs₂.exists_moment hthird List.not_mem_nil rfl not_failsEarly_refused hrefused _
    have hzero : m.portNum = 0 := hport
    exact ⟨t, ht, ⟨m, hm, hzero⟩, fun h => h.nonzero _ _ hm hzero⟩
  · obtain ⟨t, ht, n, m, hn, hmounted, hport, hm, hport', -⟩ :=
      hs₄.exists_moment hsecond (by decide) rfl not_failsEarly_perfect hlast []
    have hsame : n.portNum = m.portNum := hport.trans hport'.symm
    have hdistinct : (0 : ℕ) ≠ 65536 := by decide
    refine ⟨t, ?_, ⟨n, m, hn, hmounted, hm, hsame⟩, fun h => ?_⟩
    · simpa only [replugged, List.append_assoc] using ht
    · exact hdistinct (h.distinct _ _ _ _ hn hm hsame)

end Process

end NandroidFS
