import NandroidFS.Mount.DeviceTracker

/-!
# The lifetimes of the mounted devices

The objects of a tracker and its map belong to each other as long as nobody is destroyed by pointer
who is not in the map, and nobody is registered for a device that has an entry.

* `DeviceTracker.Sound`: every mounted object is in the map, and nobody is destroyed twice.
* `Sound.connect`, `Sound.retiring`, `Sound.updateConnectedDevices`: what keeps it so.
* `Valid.updateConnectedDevices`, `Valid.connectToDevice`, `Valid.unmountDevice`: what is left of it
  in any case.
-/

namespace NandroidFS

namespace DeviceTracker

variable {t t' : DeviceTracker} {serial : Serial} {p : Pointer} {n : Nandroid}

/-- Every mounted object is in the map, and what has been destroyed is gone. -/
structure Sound (t : DeviceTracker) : Prop extends Valid t where
  registered : ∀ p n, t.heap p = some n → n.mounted = true →
    t.instances.lookup n.deviceSerial = some p
  gone : ∀ p ∈ t.destroyed, t.heap p = none ∧ p < t.nextPointer
  once : t.destroyed.Nodup

theorem sound_new : new.Sound where
  toValid := valid_new
  registered p n h := by cases h
  gone p h := by cases h
  once := List.nodup_nil

theorem Sound.nextPointer_notMem (ht : t.Sound) : t.nextPointer ∉ t.destroyed :=
  fun h => Nat.lt_irrefl _ (ht.gone _ h).2

theorem Sound.discarding (ht : t.Sound) (n : Nandroid) : (t.discarding n).Sound where
  toValid := ht.toValid.discarding n
  registered q m hq := ht.registered q m (heap_discarding_eq_some.mp hq).2
  gone q hq := by
    rcases List.mem_cons.mp hq with rfl | hq
    · exact ⟨by simp [DeviceTracker.discarding], Nat.lt_succ_self _⟩
    · obtain ⟨hnone, hlt⟩ := ht.gone q hq
      refine ⟨?_, Nat.lt_succ_of_lt hlt⟩
      simp only [DeviceTracker.discarding, Function.update_of_ne (Nat.ne_of_lt hlt)]
      exact hnone
  once := List.nodup_cons.mpr ⟨ht.nextPointer_notMem, ht.once⟩

theorem Sound.registering (ht : t.Sound) (hnew : serial ∉ t.instances)
    (hserial : n.deviceSerial = serial) (hjoins : n.joins = true) :
    (t.registering serial n).Sound where
  toValid := ht.toValid.registering hserial hjoins
  registered q m hq hm := by
    rcases heap_registering_eq_some.mp hq with ⟨rfl, rfl⟩ | ⟨-, hq⟩
    · rw [hserial]
      exact AList.lookup_insert _
    · have hold := ht.registered q m hq hm
      -- nobody was mounted for this device before
      have hne : m.deviceSerial ≠ serial := by
        rintro rfl
        exact hnew (AList.lookup_isSome.mp (by rw [hold]; rfl))
      exact (AList.lookup_insert_ne hne).trans hold
  gone q hq := by
    obtain ⟨hnone, hlt⟩ := ht.gone q hq
    refine ⟨?_, Nat.lt_succ_of_lt hlt⟩
    simp only [DeviceTracker.registering, allocate, Function.update_of_ne (Nat.ne_of_lt hlt)]
    exact hnone
  once := ht.once

/-- Connecting a device that has no entry. -/
theorem Sound.connect (ht : t.Sound) (hnew : serial ∉ t.instances) (a : Attempt) :
    (t.connectToDeviceInternal a serial).Ensures fun r => r.2.Sound := by
  rcases connectToDeviceInternal_eq a serial t with
    ⟨-, -, -, heq⟩ | ⟨-, -, heq⟩ | ⟨e, -, -, -, heq⟩ | ⟨-, -, -, heq⟩
  · rw [heq]
    exact ht
  · rw [heq]
    trivial
  · rw [heq]
    exact ht.discarding _
  · rw [heq]
    exact ht.registering hnew (Nandroid.reached_deviceSerial _ _) rfl

theorem Sound.retiring (ht : t.Sound) (hn : t.heap p = some n)
    (hown : t.instances.lookup n.deviceSerial = some p) :
    (t.retiring n.deviceSerial p).Sound where
  toValid := ht.toValid.retiring hn
  registered q m hq hm := by
    obtain ⟨hqp, hq⟩ := heap_retiring_eq_some.mp hq
    have hold := ht.registered q m hq hm
    have hne : m.deviceSerial ≠ n.deviceSerial := by
      intro heq
      rw [heq, hown] at hold
      exact hqp (Option.some.inj hold).symm
    exact (AList.lookup_erase_ne hne).trans hold
  gone q hq := by
    rcases List.mem_cons.mp hq with rfl | hq
    · exact ⟨by simp [DeviceTracker.retiring], ht.fresh q n hn⟩
    · obtain ⟨hnone, hlt⟩ := ht.gone q hq
      refine ⟨?_, hlt⟩
      have hqp : q ≠ p := by
        rintro rfl
        rw [hnone] at hn
        cases hn
      simp only [DeviceTracker.retiring, Function.update_of_ne hqp]
      exact hnone
  once := by
    refine List.nodup_cons.mpr ⟨fun hp => ?_, ht.once⟩
    rw [(ht.gone p hp).1] at hn
    cases hn

theorem unmountDevice_eq (hn : t.heap p = some n) :
    t.unmountDevice p =
      if n.joins then .done (t.retiring n.deviceSerial p) else .terminated := by
  unfold unmountDevice
  simp only [hn]
  unfold delete
  simp only [hn]
  rfl

/-- A scan keeps the tracker sound. -/
theorem Sound.updateConnectedDevices (ht : t.Sound) (attempt : Serial → Attempt)
    (devices : List Serial) : (t.updateConnectedDevices attempt devices).Ensures Sound := by
  unfold DeviceTracker.updateConnectedDevices
  refine (Fate.ensures_foldlM (fun t serial ht => ?_) devices ht).bind fun t₁ ht₁ => ?_
  · unfold tryDevice
    split
    · next hnew =>
      refine (Sound.connect ht hnew.1 (attempt serial)).bind fun r hr => ?_
      rcases r with ⟨_ | _, t'⟩
      · exact { hr with }
      · exact hr
    · exact ht
  · refine Fate.ensures_foldlM (fun t serial ht => ?_) _ ht₁
    rcases hlookup : t.instances.lookup serial with _ | p
    · unfold removeDevice
      rw [hlookup]
      exact ht
    · obtain ⟨n, hn, rfl, hjoins⟩ := ht.entry serial p hlookup
      rw [removeDevice_eq hlookup hn, if_pos hjoins]
      exact Sound.retiring ht hn hlookup

/-! ### The map alone

The map leads to objects that can be destroyed even where lifetimes are not in order. -/

theorem Valid.updateConnectedDevices {t' : DeviceTracker} (ht : t.Valid)
    {attempt : Serial → Attempt} {devices : List Serial}
    (h : t.updateConnectedDevices attempt devices = .done t') : t'.Valid := by
  unfold DeviceTracker.updateConnectedDevices at h
  rcases foldlM_tryDevice attempt devices t ht with ⟨-, heq⟩ | ⟨-, t₁, heq, ht₁, -⟩
  · rw [heq] at h
    cases h
  · obtain ⟨t₂, heq', ht₂, -⟩ :=
      foldlM_removeDevice (t₁.instances.keys.filter (· ∉ devices)) t₁ ht₁
    rw [heq, Fate.done_bind, heq'] at h
    obtain rfl := Fate.done.inj h
    exact ht₂

theorem Valid.connectToDevice (ht : t.Valid) {a : Attempt}
    {r : Except Failure Pointer × DeviceTracker} (h : t.connectToDevice a serial = .done r) :
    r.2.Valid := by
  rcases connectToDeviceInternal_eq a serial t with
    ⟨-, -, -, heq⟩ | ⟨-, -, heq⟩ | ⟨e, -, -, -, heq⟩ | ⟨-, -, -, heq⟩
  · obtain rfl := Fate.done.inj (heq.symm.trans h)
    exact ht
  · cases heq.symm.trans h
  · obtain rfl := Fate.done.inj (heq.symm.trans h)
    exact ht.discarding _
  · obtain rfl := Fate.done.inj (heq.symm.trans h)
    exact ht.registering (Nandroid.reached_deviceSerial _ _) rfl

theorem Valid.unmountDevice {t' : DeviceTracker} (ht : t.Valid)
    (h : t.unmountDevice p = .done t') : t'.Valid := by
  rcases hn : t.heap p with _ | n
  · unfold DeviceTracker.unmountDevice at h
    rw [hn] at h
    cases h
  · rw [unmountDevice_eq hn] at h
    split at h
    · obtain rfl := Fate.done.inj h
      exact ht.retiring hn
    · cases h

end DeviceTracker

end NandroidFS
