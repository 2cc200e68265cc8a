import NandroidFS.Mount.AuthorizedDevices
import NandroidFS.Mount.Lifetimes

/-!
# Runs of scans

What the tracker is for: after a scan the devices that are mounted are the authorized ones, but for
those that could not be connected, and these are not tried again.  A scan works towards this in two
passes, over the devices that are listed and then over the devices that are mounted.

`ConnectCall` is a call of `connect_to_device_internal` by a scan, and `calls` lists those of one
scan. This is what "tried" means here; a call is remembered with the tracker as it found it.

* `Tidy`: the objects that are alive are mounted and in the map.
* `Tried`, `Removed`: what the two passes do, from what is done with one device.
* `scans_spec`: what holds of every run of scans, however the calls end.
* `mem_instances_iff_authorizes`: whether a drive stays, from the output of `adb`.
-/

namespace NandroidFS

namespace DeviceTracker

variable {t t' t₁ : DeviceTracker} {serial : Serial} {p : Pointer} {n : Nandroid}
  {attempt : Serial → Attempt} {devices : List Serial}

/-- A call of `connect_to_device_internal`: the tracker before it, and how the outside answers. -/
structure ConnectCall where
  tracker : DeviceTracker
  serial : Serial
  attempt : Attempt

/-- The calls that the first pass of a scan makes, in their order. -/
def calls (attempt : Serial → Attempt) : List Serial → DeviceTracker → List ConnectCall
  | [], _ => []
  | serial :: devices, t =>
      let later := match t.tryDevice attempt serial with
        | .done t' => calls attempt devices t'
        | _ => []
      if t.IsNew serial then ⟨t, serial, attempt serial⟩ :: later else later

theorem calls_cons_of_not_isNew (h : ¬t.IsNew serial) :
    calls attempt (serial :: devices) t = calls attempt devices t := by
  rw [calls, if_neg h, tryDevice, if_neg h]
  rfl

theorem calls_cons_of_done (hnew : t.IsNew serial) (h : t.tryDevice attempt serial = .done t') :
    calls attempt (serial :: devices) t =
      ⟨t, serial, attempt serial⟩ :: calls attempt devices t' := by
  rw [calls, if_pos hnew, h]

theorem calls_cons_of_terminated (hnew : t.IsNew serial)
    (h : t.tryDevice attempt serial = .terminated) :
    calls attempt (serial :: devices) t = [⟨t, serial, attempt serial⟩] := by
  rw [calls, if_pos hnew, h]

/-! ## Objects and the map -/

/-- Every object is mounted, and so is in the map. -/
structure Tidy (t : DeviceTracker) : Prop extends Sound t where
  mounted : ∀ p n, t.heap p = some n → n.mounted = true

theorem tidy_new : new.Tidy where
  toSound := sound_new
  mounted p n h := by cases h

theorem Tidy.lookup (ht : t.Tidy) (hn : t.heap p = some n) :
    t.instances.lookup n.deviceSerial = some p :=
  ht.registered p n hn (ht.mounted p n hn)

theorem Tidy.mem_instances (ht : t.Tidy) (hn : t.heap p = some n) :
    n.deviceSerial ∈ t.instances :=
  AList.lookup_isSome.mp (by rw [ht.lookup hn]; rfl)

theorem Tidy.discarding (ht : t.Tidy) (n : Nandroid) : (t.discarding n).Tidy where
  toSound := ht.toSound.discarding n
  mounted q m hq := ht.mounted q m (heap_discarding_eq_some.mp hq).2

theorem Tidy.putAside (ht : t.Tidy) (serial : Serial) : (t.putAside serial).Tidy :=
  { ht with }

theorem Tidy.registering (ht : t.Tidy) (hnew : serial ∉ t.instances)
    (hserial : n.deviceSerial = serial) (hjoins : n.joins = true) (hmounted : n.mounted = true) :
    (t.registering serial n).Tidy where
  toSound := ht.toSound.registering hnew hserial hjoins
  mounted q m hq := by
    rcases heap_registering_eq_some.mp hq with ⟨-, rfl⟩ | ⟨-, hq⟩
    · exact hmounted
    · exact ht.mounted q m hq

theorem Tidy.retiring (ht : t.Tidy) (hn : t.heap p = some n)
    (hown : t.instances.lookup n.deviceSerial = some p) :
    (t.retiring n.deviceSerial p).Tidy where
  toSound := ht.toSound.retiring hn hown
  mounted q m hq := ht.mounted q m (heap_retiring_eq_some.mp hq).2

/-! ## The first pass -/

/-- What it does to a tracker to try a new device. -/
structure TriedOne (attempt : Serial → Attempt) (serial : Serial) (t t₁ : DeviceTracker) :
    Prop where
  tidy : t₁.Tidy
  kept : ∀ s p, t.instances.lookup s = some p → t₁.instances.lookup s = some p
  instances : ∀ s, s ∈ t₁.instances ↔
    s ∈ t.instances ∨ serial = s ∧ (attempt serial).failure = none
  failed : ∀ s, s ∈ t₁.failedToConnect ↔
    s ∈ t.failedToConnect ∨ serial = s ∧ (attempt serial).failure ≠ none

/-- A device is put aside, and the others are as they were. -/
theorem triedOne_putAside {e : Failure} (he : (attempt serial).failure = some e) (ht₁ : t₁.Tidy)
    (hinstances : t₁.instances = t.instances)
    (hfailed : t₁.failedToConnect = t.failedToConnect) :
    TriedOne attempt serial t (t₁.putAside serial) where
  tidy := ht₁.putAside serial
  kept s p hp := by
    show t₁.instances.lookup s = some p
    rwa [hinstances]
  instances s := by
    show s ∈ t₁.instances ↔ _
    simp [hinstances, he]
  failed s := by
    show s ∈ serial :: t₁.failedToConnect ↔ _
    rw [hfailed, List.mem_cons, or_comm, eq_comm, he]
    simp

theorem triedOne_registering (he : (attempt serial).failure = none) (ht : t.Tidy)
    (hnew : serial ∉ t.instances) (hserial : n.deviceSerial = serial) (hjoins : n.joins = true)
    (hmounted : n.mounted = true) : TriedOne attempt serial t (t.registering serial n) where
  tidy := ht.registering hnew hserial hjoins hmounted
  kept s p hp := by
    have hne : s ≠ serial := by
      rintro rfl
      exact hnew (AList.lookup_isSome.mp (by rw [hp]; rfl))
    exact (AList.lookup_insert_ne hne).trans hp
  instances s := by
    show s ∈ t.instances.insert serial t.nextPointer ↔ _
    rw [AList.mem_insert, or_comm, eq_comm, he]
    simp
  failed s := by
    rw [he]
    simp [DeviceTracker.registering, allocate]

theorem tryDevice_of_isNew (attempt : Serial → Attempt) (ht : t.Tidy) (hnew : t.IsNew serial)
    (hlate : ¬(attempt serial).FailsEarly) :
    ∃ t₁, t.tryDevice attempt serial = .done t₁ ∧ TriedOne attempt serial t t₁ := by
  rcases tryDevice_cases attempt serial t with ⟨hold, -⟩ | ⟨-, -, hearly, -⟩ |
    ⟨-, -, ⟨-, he, heq⟩ | ⟨e, -, he, heq⟩ | ⟨-, he, heq⟩⟩
  · exact (hold hnew).elim
  · exact (hlate hearly).elim
  · exact ⟨_, heq, triedOne_putAside he ht rfl rfl⟩
  · exact ⟨_, heq, triedOne_putAside he (ht.discarding _) rfl rfl⟩
  · exact ⟨_, heq, triedOne_registering he ht hnew.1 (Nandroid.reached_deviceSerial _ _) rfl rfl⟩

/-- What was not new does not become new. -/
theorem TriedOne.isNew {s : Serial} (h : TriedOne attempt serial t t₁) (hnew : t₁.IsNew s) :
    t.IsNew s :=
  ⟨fun hmem => hnew.1 ((h.instances s).mpr (Or.inl hmem)),
    fun hmem => hnew.2 ((h.failed s).mpr (Or.inl hmem))⟩

/-- The device itself is not new any more. -/
theorem TriedOne.not_isNew (h : TriedOne attempt serial t t₁) : ¬t₁.IsNew serial := by
  rintro ⟨hinstances, hfailed⟩
  by_cases hfailure : (attempt serial).failure = none
  · exact hinstances ((h.instances serial).mpr (Or.inr ⟨rfl, hfailure⟩))
  · exact hfailed ((h.failed serial).mpr (Or.inr ⟨rfl, hfailure⟩))

/-- What the first pass of a scan does. -/
structure Tried (attempt : Serial → Attempt) (devices : List Serial) (t t' : DeviceTracker) :
    Prop where
  tidy : t'.Tidy
  kept : ∀ serial p, t.instances.lookup serial = some p → t'.instances.lookup serial = some p
  instances : ∀ serial, serial ∈ t'.instances ↔ serial ∈ t.instances ∨
    ∃ c ∈ calls attempt devices t, c.serial = serial ∧ c.attempt.failure = none
  failed : ∀ serial, serial ∈ t'.failedToConnect ↔ serial ∈ t.failedToConnect ∨
    ∃ c ∈ calls attempt devices t, c.serial = serial ∧ c.attempt.failure ≠ none
  found : ∀ c ∈ calls attempt devices t, c.serial ∈ devices ∧ t.IsNew c.serial ∧
    c.tracker.Tidy ∧ c.tracker.IsNew c.serial
  once : ((calls attempt devices t).map ConnectCall.serial).Nodup
  settled : ∀ serial ∈ devices, ¬t'.IsNew serial

theorem tried_nil (attempt : Serial → Attempt) (ht : t.Tidy) : Tried attempt [] t t where
  tidy := ht
  kept _ _ h := h
  instances _ := by simp [DeviceTracker.calls]
  failed _ := by simp [DeviceTracker.calls]
  found := by simp [DeviceTracker.calls]
  once := List.nodup_nil
  settled := by simp

theorem Tried.isNew (h : Tried attempt devices t t') (hnew : t'.IsNew serial) :
    t.IsNew serial :=
  ⟨fun hmem => hnew.1 ((h.instances serial).mpr (Or.inl hmem)),
    fun hmem => hnew.2 ((h.failed serial).mpr (Or.inl hmem))⟩

/-- A new device before the others. -/
theorem Tried.cons (ht : t.Tidy) (hnew : t.IsNew serial)
    (heq : t.tryDevice attempt serial = .done t₁) (hone : TriedOne attempt serial t t₁)
    (h : Tried attempt devices t₁ t') : Tried attempt (serial :: devices) t t' where
  tidy := h.tidy
  kept s p hp := h.kept s p (hone.kept s p hp)
  instances s := by
    rw [h.instances, hone.instances, calls_cons_of_done hnew heq, or_assoc]
    simp only [List.mem_cons, exists_eq_or_imp]
  failed s := by
    rw [h.failed, hone.failed, calls_cons_of_done hnew heq, or_assoc]
    simp only [List.mem_cons, exists_eq_or_imp]
  found := by
    rw [calls_cons_of_done hnew heq, List.forall_mem_cons]
    refine ⟨⟨List.mem_cons_self, hnew, ht, hnew⟩, fun c hc => ?_⟩
    obtain ⟨hdev, hnew', hrest⟩ := h.found c hc
    exact ⟨List.mem_cons_of_mem serial hdev, hone.isNew hnew', hrest⟩
  once := by
    rw [calls_cons_of_done hnew heq, List.map_cons, List.nodup_cons]
    refine ⟨fun hmem => ?_, h.once⟩
    -- the calls that follow are for devices that are still new
    obtain ⟨c, hc, hcs : c.serial = serial⟩ := List.mem_map.mp hmem
    exact hone.not_isNew (hcs ▸ (h.found c hc).2.1)
  settled := by
    rw [List.forall_mem_cons]
    exact ⟨fun hnew' => hone.not_isNew (h.isNew hnew'), h.settled⟩

/-- A device that is not new makes no difference. -/
theorem Tried.cons_of_not_isNew (hold : ¬t.IsNew serial) (h : Tried attempt devices t t') :
    Tried attempt (serial :: devices) t t' := by
  have hcalls : calls attempt (serial :: devices) t = calls attempt devices t :=
    calls_cons_of_not_isNew hold
  refine ⟨h.tidy, h.kept, ?_, ?_, ?_, ?_, ?_⟩
  · rw [hcalls]
    exact h.instances
  · rw [hcalls]
    exact h.failed
  · rw [hcalls]
    intro c hc
    obtain ⟨hdev, hrest⟩ := h.found c hc
    exact ⟨List.mem_cons_of_mem serial hdev, hrest⟩
  · rw [hcalls]
    exact h.once
  · rw [List.forall_mem_cons]
    exact ⟨fun hnew => hold (h.isNew hnew), h.settled⟩

theorem tried_foldlM : ∀ (devices : List Serial) (t : DeviceTracker), t.Tidy →
    t.NoneFailsEarly attempt devices →
      ∃ t', devices.foldlM (tryDevice attempt) t = .done t' ∧ Tried attempt devices t t' := by
  intro devices
  induction devices with
  | nil => exact fun t ht _ => ⟨t, rfl, tried_nil attempt ht⟩
  | cons d devices ih =>
    intro t ht hlate
    rw [List.foldlM_cons]
    by_cases hnew : t.IsNew d
    · obtain ⟨t₁, heq, hone⟩ :=
        tryDevice_of_isNew attempt ht hnew (hlate d List.mem_cons_self hnew)
      have hlate₁ : t₁.NoneFailsEarly attempt devices := fun serial hs hnew' =>
        hlate serial (List.mem_cons_of_mem d hs) (hone.isNew hnew')
      obtain ⟨t', heq', h⟩ := ih t₁ hone.tidy hlate₁
      rw [heq, Fate.done_bind]
      exact ⟨t', heq', h.cons ht hnew heq hone⟩
    · have heq : t.tryDevice attempt d = .done t := by
        rw [tryDevice, if_neg hnew]
        rfl
      obtain ⟨t', heq', h⟩ := ih t ht fun serial hs => hlate serial (List.mem_cons_of_mem d hs)
      rw [heq, Fate.done_bind]
      exact ⟨t', heq', h.cons_of_not_isNew hnew⟩

/-! ## The second pass -/

/-- What the second pass of a scan does: it removes these devices. -/
structure Removed (serials : List Serial) (t t' : DeviceTracker) : Prop where
  tidy : t'.Tidy
  lookup : ∀ serial, serial ∉ serials →
    t'.instances.lookup serial = t.instances.lookup serial
  gone : ∀ serial ∈ serials, serial ∉ t'.instances
  failed : t'.failedToConnect = t.failedToConnect
  destroyed : t.destroyed ⊆ t'.destroyed
  retired : ∀ serial ∈ serials, ∀ p, t.instances.lookup serial = some p → p ∈ t'.destroyed

theorem removed_nil (ht : t.Tidy) : Removed [] t t where
  tidy := ht
  lookup _ _ := rfl
  gone := by simp
  failed := rfl
  destroyed := List.Subset.refl _
  retired := by simp

theorem Removed.notMem (h : Removed devices t t') (hmem : serial ∉ t.instances) :
    serial ∉ t'.instances := by
  by_cases hs : serial ∈ devices
  · exact h.gone serial hs
  · rwa [← AList.lookup_eq_none, h.lookup serial hs, AList.lookup_eq_none]

/-- A device that has no entry makes no difference. -/
theorem Removed.cons_of_none (hlookup : t.instances.lookup serial = none)
    (h : Removed devices t t') : Removed (serial :: devices) t t' where
  tidy := h.tidy
  lookup s hs := h.lookup s (List.ne_and_not_mem_of_not_mem_cons hs).2
  gone := by
    rw [List.forall_mem_cons]
    exact ⟨h.notMem (AList.lookup_eq_none.mp hlookup), h.gone⟩
  failed := h.failed
  destroyed := h.destroyed
  retired := by
    rw [List.forall_mem_cons]
    refine ⟨fun p hp => ?_, h.retired⟩
    rw [hlookup] at hp
    cases hp

/-- A device that is removed before the others. -/
theorem Removed.cons (hlookup : t.instances.lookup serial = some p)
    (h : Removed devices (t.retiring serial p) t') : Removed (serial :: devices) t t' := by
  have hgone : serial ∉ (t.retiring serial p).instances := by
    show serial ∉ t.instances.erase serial
    rw [AList.mem_erase]
    exact fun hmem => hmem.1 rfl
  have hother {s : Serial} (hs : s ≠ serial) :
      (t.retiring serial p).instances.lookup s = t.instances.lookup s :=
    AList.lookup_erase_ne hs
  have hp : p ∈ t'.destroyed := h.destroyed List.mem_cons_self
  refine ⟨h.tidy, fun s hs => ?_, ?_, h.failed, ?_, ?_⟩
  · obtain ⟨hne, hs⟩ := List.ne_and_not_mem_of_not_mem_cons hs
    exact (h.lookup s hs).trans (hother hne)
  · rw [List.forall_mem_cons]
    exact ⟨h.notMem hgone, h.gone⟩
  · exact fun q hq => h.destroyed (List.mem_cons_of_mem p hq)
  · intro s hs q hq
    by_cases hss : s = serial
    · rw [hss, hlookup] at hq
      exact Option.some.inj hq ▸ hp
    · exact h.retired s (List.mem_of_ne_of_mem hss hs) q ((hother hss).trans hq)

theorem removed_foldlM : ∀ (serials : List Serial) (t : DeviceTracker), t.Tidy →
    ∃ t', serials.foldlM removeDevice t = .done t' ∧ Removed serials t t' := by
  intro serials
  induction serials with
  | nil => exact fun t ht => ⟨t, rfl, removed_nil ht⟩
  | cons d serials ih =>
    intro t ht
    rw [List.foldlM_cons]
    rcases hlookup : t.instances.lookup d with _ | p
    · have heq : t.removeDevice d = .done t := by
        rw [removeDevice, hlookup]
      obtain ⟨t', heq', h⟩ := ih t ht
      rw [heq, Fate.done_bind]
      exact ⟨t', heq', h.cons_of_none hlookup⟩
    · obtain ⟨n, hn, rfl, hjoins⟩ := ht.entry d p hlookup
      obtain ⟨t', heq', h⟩ := ih _ (ht.retiring hn hlookup)
      rw [removeDevice_eq hlookup hn, if_pos hjoins, Fate.done_bind]
      exact ⟨t', heq', h.cons hlookup⟩

/-! ## A scan -/

/-- What a scan is for.  An instance that is dropped has not been destroyed before, and is destroyed
once; all that is alive afterwards is mounted and in the map. -/
structure Scanned (attempt : Serial → Attempt) (devices : List Serial) (t t' : DeviceTracker) :
    Prop where
  mounted : ∀ serial, serial ∈ t'.instances ↔ serial ∈ devices ∧
    (serial ∈ t.instances ∨
      ∃ c ∈ calls attempt devices t, c.serial = serial ∧ c.attempt.failure = none)
  handled : ∀ serial ∈ devices, serial ∈ t'.instances ∨ serial ∈ t'.failedToConnect
  once : ((calls attempt devices t).map ConnectCall.serial).Nodup
  stays : ∀ serial ∈ devices, ∀ p, t.instances.lookup serial = some p →
    t'.instances.lookup serial = some p
  dropped : ∀ serial ∉ devices, ∀ p, t.instances.lookup serial = some p →
    t'.heap p = none ∧ t.destroyed.count p = 0 ∧ t'.destroyed.count p = 1
  live : ∀ p n, t'.heap p = some n →
    n.mounted = true ∧ t'.instances.lookup n.deviceSerial = some p

/-- The pointer of an entry has not been destroyed. -/
theorem Tidy.notMem_destroyed (ht : t.Tidy) (hp : t.instances.lookup serial = some p) :
    p ∉ t.destroyed := by
  obtain ⟨n, hn, -⟩ := ht.entry serial p hp
  intro hmem
  rw [(ht.gone p hmem).1] at hn
  cases hn

/-- **The two passes together.** -/
theorem Tried.scanned {t₁ : DeviceTracker} (ht : t.Tidy) (h : Tried attempt devices t t₁)
    (h' : Removed (t₁.instances.keys.filter (· ∉ devices)) t₁ t') :
    Scanned attempt devices t t' := by
  have hremoved (s : Serial) :
      s ∈ t₁.instances.keys.filter (· ∉ devices) ↔ s ∈ t₁.instances ∧ s ∉ devices := by
    rw [List.mem_filter, AList.mem_keys, decide_eq_true_iff]
  have hstays (s : Serial) (hs : s ∈ devices) : t'.instances.lookup s = t₁.instances.lookup s :=
    h'.lookup s fun hmem => ((hremoved s).mp hmem).2 hs
  have hinstances (s : Serial) : s ∈ t'.instances ↔ s ∈ devices ∧ s ∈ t₁.instances := by
    by_cases hs : s ∈ devices
    · rw [← AList.lookup_isSome, hstays s hs, AList.lookup_isSome, and_iff_right hs]
    · refine iff_of_false (fun hmem => ?_) fun hmem => hs hmem.1
      by_cases h₁ : s ∈ t₁.instances
      · exact h'.gone s ((hremoved s).mpr ⟨h₁, hs⟩) hmem
      · exact h'.notMem h₁ hmem
  refine ⟨fun s => ?_, fun s hs => ?_, h.once, fun s hs p hp => ?_, fun s hs p hp => ?_,
    fun p n hn => ⟨h'.tidy.mounted p n hn, h'.tidy.lookup hn⟩⟩
  · rw [hinstances, h.instances]
  · by_contra hnot
    obtain ⟨hinst, hfailed⟩ := not_or.mp hnot
    refine h.settled s hs ⟨fun hmem => hinst ((hinstances s).mpr ⟨hs, hmem⟩), fun hmem => ?_⟩
    rw [h'.failed] at hfailed
    exact hfailed hmem
  · exact (hstays s hs).trans (h.kept s p hp)
  · have hp₁ := h.kept s p hp
    have hmem : s ∈ t₁.instances := AList.lookup_isSome.mp (by rw [hp₁]; rfl)
    have hdestroyed := h'.retired s ((hremoved s).mpr ⟨hmem, hs⟩) p hp₁
    exact ⟨(h'.tidy.gone p hdestroyed).1, List.count_eq_zero.mpr (ht.notMem_destroyed hp),
      List.count_eq_one_of_mem h'.tidy.once hdestroyed⟩

/-- **One scan**, in which no new device fails before its agent has been started. -/
theorem scanned_updateConnectedDevices (attempt : Serial → Attempt) (devices : List Serial)
    (ht : t.Tidy) (hlate : t.NoneFailsEarly attempt devices) :
    ∃ t', t.updateConnectedDevices attempt devices = .done t' ∧ t'.Tidy ∧
      Scanned attempt devices t t' ∧
      (∀ serial, serial ∈ t'.failedToConnect ↔ serial ∈ t.failedToConnect ∨
        ∃ c ∈ calls attempt devices t, c.serial = serial ∧ c.attempt.failure ≠ none) ∧
      ∀ c ∈ calls attempt devices t,
        t.IsNew c.serial ∧ c.tracker.Tidy ∧ c.tracker.IsNew c.serial := by
  obtain ⟨t₁, heq, h⟩ := tried_foldlM devices t ht hlate
  obtain ⟨t', heq', h'⟩ := removed_foldlM (t₁.instances.keys.filter (· ∉ devices)) t₁ h.tidy
  refine ⟨t', ?_, h'.tidy, h.scanned ht h', fun s => ?_, fun c hc => (h.found c hc).2⟩
  · rw [updateConnectedDevices, heq, Fate.done_bind]
    exact heq'
  · rw [h'.failed]
    exact h.failed s

/-- A scan that comes to its end has met no device that fails early. -/
theorem noneFailsEarly_of_done (ht : t.Valid)
    (h : t.updateConnectedDevices attempt devices = .done t') :
    t.NoneFailsEarly attempt devices := by
  rcases foldlM_tryDevice attempt devices t ht with ⟨-, heq⟩ | ⟨hlate, -⟩
  · rw [updateConnectedDevices, heq] at h
    cases h
  · exact hlate

/-! ## Runs -/

/-- The runs of scans, from a new tracker, with all calls in their order. -/
inductive Scans : List ConnectCall → DeviceTracker → Prop
  | new : Scans [] .new
  | scan {log : List ConnectCall} {t t' : DeviceTracker} (attempt : Serial → Attempt)
      (devices : List Serial) (h : Scans log t)
      (hscan : t.updateConnectedDevices attempt devices = .done t') :
      Scans (log ++ calls attempt devices t) t'

/-- What a run of scans keeps. -/
structure Keeping (log : List ConnectCall) (t : DeviceTracker) : Prop where
  tidy : t.Tidy
  failed : ∀ c ∈ log, c.attempt.failure ≠ none → c.serial ∈ t.failedToConnect
  again : log.Pairwise fun earlier later =>
    earlier.serial = later.serial → earlier.attempt.failure = none
  live : ∀ c ∈ log, ∀ p n, c.tracker.heap p = some n → n.deviceSerial ≠ c.serial

theorem Keeping.scan {log : List ConnectCall} (h : Keeping log t)
    (hscan : t.updateConnectedDevices attempt devices = .done t') :
    Keeping (log ++ calls attempt devices t) t' := by
  obtain ⟨t'', hdone, ht', hscanned, hfailed, hcalls⟩ := scanned_updateConnectedDevices attempt
    devices h.tidy (noneFailsEarly_of_done h.tidy.toValid hscan)
  obtain rfl := Fate.done.inj (hscan.symm.trans hdone)
  refine ⟨ht', fun c hc hfailure => ?_, List.pairwise_append.mpr ⟨h.again, ?_, ?_⟩, fun c hc => ?_⟩
  · rw [hfailed]
    rcases List.mem_append.mp hc with hc | hc
    · exact Or.inl (h.failed c hc hfailure)
    · exact Or.inr ⟨c, hc, rfl, hfailure⟩
  · -- in one scan no two calls are for one device
    exact (List.pairwise_map.mp hscanned.once).imp fun hne heq => (hne heq).elim
  · intro earlier hearlier later hlater heq
    by_contra hfailure
    have hmem := h.failed earlier hearlier hfailure
    rw [heq] at hmem
    exact (hcalls later hlater).1.2 hmem
  · rcases List.mem_append.mp hc with hc | hc
    · exact h.live c hc
    · rintro p n hn heq
      obtain ⟨-, htidy, hnew⟩ := hcalls c hc
      exact hnew.1 (heq ▸ htidy.mem_instances hn)

theorem Scans.keeping {log : List ConnectCall} (h : Scans log t) : Keeping log t := by
  induction h with
  | new => exact ⟨tidy_new, by simp, List.Pairwise.nil, by simp⟩
  | scan attempt devices _ hscan ih => exact ih.scan hscan

/-- **Runs of scans.**  A device is never tried while an instance of it is alive, nor again after it
has failed once.  And the next scan, whatever devices it finds and whichever of them fail, comes to
its end and does what it is for, if the failures are those that a scan can catch: no new device
fails before its agent has been started. -/
theorem scans_spec {log : List ConnectCall} (h : Scans log t) :
    (log.Pairwise fun earlier later =>
      earlier.serial = later.serial → earlier.attempt.failure = none) ∧
    (∀ c ∈ log, ∀ p n, c.tracker.heap p = some n → n.deviceSerial ≠ c.serial) ∧
    ∀ attempt devices, t.NoneFailsEarly attempt devices →
      ∃ t', t.updateConnectedDevices attempt devices = .done t' ∧
        Scanned attempt devices t t' := by
  have hkeeping := h.keeping
  refine ⟨hkeeping.again, hkeeping.live, fun attempt devices hlate => ?_⟩
  obtain ⟨t', hdone, -, hscanned, -⟩ :=
    scanned_updateConnectedDevices attempt devices hkeeping.tidy hlate
  exact ⟨t', hdone, hscanned⟩

/-- **What decides whether a drive stays**: after a scan of the output of `adb`, a device that was
mounted is mounted exactly if one of the lines says that it is authorized. -/
theorem mem_instances_iff_authorizes {log : List ConnectCall} (h : Scans log t)
    (output : ByteString) (hdevices : listAuthorizedAdbDevices output = some devices)
    (hlate : t.NoneFailsEarly attempt devices) :
    ∃ t', t.updateConnectedDevices attempt devices = .done t' ∧
      ∀ serial ∈ t.instances, serial ∈ t'.instances ↔
        ∃ line ∈ Lines.ended newline output,
          Authorizes (popIfLast carriageReturn line) serial := by
  obtain ⟨t', hdone, -, hscanned, -⟩ :=
    scanned_updateConnectedDevices attempt devices h.keeping.tidy hlate
  refine ⟨t', hdone, fun serial hmem => ?_⟩
  rw [listAuthorizedAdbDevices_eq] at hdevices
  obtain rfl := Option.some.inj hdevices
  rw [hscanned.mounted, mem_foldl_handleEndedLine, or_iff_right List.not_mem_nil]
  exact and_iff_left (Or.inl hmem)

theorem not_failsEarly_perfect : ¬Attempt.perfect.FailsEarly := by
  rintro ⟨e, he, -⟩
  cases he

/-- The agent of the second device does not get ready.  In the next scan the first device is gone,
the second is still there, and there is a third. -/
theorem scans_spec_three :
    ∃ log t t', Scans log t ∧ t.failedToConnect = [[2]] ∧
      (log.Pairwise fun earlier later =>
        earlier.serial = later.serial → earlier.attempt.failure = none) ∧
      t.updateConnectedDevices (fun _ => .perfect) [[2], [3]] = .done t' ∧
      t.instances.lookup [1] = some 0 ∧ t'.heap 0 = none ∧ t'.destroyed.count 0 = 1 := by
  have hrun : Scans _ _ := Scans.new.scan
    (fun serial => { Attempt.perfect with agentReady := serial ≠ [2] }) [[1], [2]] rfl
  have hspec := scans_spec hrun
  obtain ⟨t', hdone, hscanned⟩ := hspec.2.2 (fun _ => .perfect) [[2], [3]]
    fun _ _ _ => not_failsEarly_perfect
  obtain ⟨hnone, -, hone⟩ := hscanned.dropped [1] (by decide) 0 rfl
  exact ⟨_, _, t', hrun, rfl, hspec.1, hdone, rfl, hnone, hone⟩

end DeviceTracker

end NandroidFS
