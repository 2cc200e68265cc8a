import Mathlib.Data.List.AList
import NandroidFS.Mount.Nandroid

/-!
# The devices that are mounted

`DeviceTracker.cpp`.  The tracker owns a `Nandroid` for each device and knows it by a raw pointer,
so the objects that are alive are part of the state.  Every method here runs under
`device_man_mtx`.

A method may end in three ways.  It returns or raises, the process ends because a destructor raised
(`Fate.terminated`), or it has used a pointer to an object that is no more and nothing can be
said (`Fate.undefined`).

The main result is about one scan, `copes_iff`: the devices that fail to connect are put aside and
the others are connected, exactly if no new device fails before its agent has been started.
-/

namespace NandroidFS

abbrev Serial := ByteString

/-- A `Nandroid*`. -/
abbrev Pointer := ℕ

/-- How a method ends. -/
inductive Fate (α : Type) where
  | done (a : α)
  | terminated
  | undefined

namespace Fate

variable {α β : Type}

def bind : Fate α → (α → Fate β) → Fate β
  | .done a, f => f a
  | .terminated, _ => .terminated
  | .undefined, _ => .undefined

instance : Monad Fate where
  pure := .done
  bind := .bind

@[simp] theorem done_bind (a : α) (f : α → Fate β) : (Fate.done a >>= f) = f a := rfl

/-- The method does nothing undefined, and if it comes to its end `P` holds. -/
def Ensures (P : α → Prop) : Fate α → Prop
  | .done a => P a
  | .terminated => True
  | .undefined => False

theorem Ensures.bind {P : α → Prop} {Q : β → Prop} {x : Fate α} {f : α → Fate β}
    (hx : x.Ensures P) (hf : ∀ a, P a → (f a).Ensures Q) : (x >>= f).Ensures Q := by
  cases x with
  | done a => exact hf a hx
  | terminated => trivial
  | undefined => exact hx

/-- The rule for loops. -/
theorem ensures_foldlM {P : α → Prop} {f : α → β → Fate α} (hf : ∀ a b, P a → (f a b).Ensures P)
    (bs : List β) {a : α} (ha : P a) : (bs.foldlM f a).Ensures P := by
  induction bs generalizing a with
  | nil => exact ha
  | cons b bs ih =>
    rw [List.foldlM_cons]
    exact (hf a b ha).bind fun a' ha' => ih ha'

/-- The rule for loops that come to their end. -/
theorem foldlM_done {P : α → Prop} {f : α → β → Fate α}
    (hf : ∀ a b a', P a → f a b = .done a' → P a') (bs : List β) {a a' : α} (ha : P a)
    (h : bs.foldlM f a = .done a') : P a' := by
  induction bs generalizing a with
  | nil =>
    obtain rfl := Fate.done.inj h
    exact ha
  | cons b bs ih =>
    rw [List.foldlM_cons] at h
    rcases hb : f a b with a₁ | _ | _
    · rw [hb, done_bind] at h
      exact ih (hf a b a₁ ha hb) h
    · rw [hb] at h
      cases h
    · rw [hb] at h
      cases h

end Fate

/-- `DeviceTracker`, with the objects that are alive.  `destroyed` lists those whose destructor has
come to its end. -/
structure DeviceTracker where
  instances : AList fun _ : Serial => Pointer
  failedToConnect : List Serial
  currentPort : UInt16
  heap : Pointer → Option Nandroid
  nextPointer : Pointer
  destroyed : List Pointer

namespace DeviceTracker

def new : DeviceTracker where
  instances := ∅
  failedToConnect := []
  currentPort := 25989
  heap := fun _ => none
  nextPointer := 0
  destroyed := []

/-- `delete`. -/
def delete (p : Pointer) (t : DeviceTracker) : Fate DeviceTracker :=
  match t.heap p with
  | none => .undefined
  | some n =>
      if n.joins then
        .done { t with
          heap := Function.update t.heap p none
          destroyed := p :: t.destroyed }
      else .terminated

/-- `new Nandroid(…)`, and `begin`. -/
def allocate (n : Nandroid) (t : DeviceTracker) : DeviceTracker :=
  { t with
    heap := Function.update t.heap t.nextPointer (some n)
    nextPointer := t.nextPointer + 1
    currentPort := t.currentPort + 1 }

/-- `connect_to_device_internal`: it does not look whether there is an instance already. -/
def connectToDeviceInternal (a : Attempt) (serial : Serial) (t : DeviceTracker) :
    Fate (Except Failure Pointer × DeviceTracker) :=
  if !a.serial then .done (.error .serial, t)
  else
    let p := t.nextPointer
    match (Nandroid.new serial t.currentPort).begin a with
    | (.ok (), n) =>
        .done (.ok p, { t.allocate n with instances := (t.allocate n).instances.insert serial p })
    | (.error e, n) => do
        let t' ← (t.allocate n).delete p
        return (.error e, t')

/-- `connect_to_device`. -/
def connectToDevice (a : Attempt) (serial : Serial) (t : DeviceTracker) :
    Fate (Except Failure Pointer × DeviceTracker) :=
  t.connectToDeviceInternal a serial

/-- `unmount_device`: the entry is found by the serial number of the object. -/
def unmountDevice (handle : Pointer) (t : DeviceTracker) : Fate DeviceTracker :=
  match t.heap handle with
  | none => .undefined
  | some n => { t with instances := t.instances.erase n.deviceSerial }.delete handle

/-- Not yet mounted, and not put aside. -/
def IsNew (t : DeviceTracker) (serial : Serial) : Prop :=
  serial ∉ t.instances ∧ serial ∉ t.failedToConnect

instance (t : DeviceTracker) (serial : Serial) : Decidable (t.IsNew serial) :=
  inferInstanceAs (Decidable (_ ∧ _))

/-- What a scan does with one authorized device. -/
def tryDevice (attempt : Serial → Attempt) (t : DeviceTracker) (serial : Serial) :
    Fate DeviceTracker :=
  if t.IsNew serial then do
    match ← t.connectToDeviceInternal (attempt serial) serial with
    | (.ok _, t') => return t'
    | (.error _, t') => return { t' with failedToConnect := serial :: t'.failedToConnect }
  else return t

/-- What a scan does with a device that is no longer there. -/
def removeDevice (t : DeviceTracker) (serial : Serial) : Fate DeviceTracker :=
  match t.instances.lookup serial with
  | none => .done t
  | some p => do
      let t' ← t.delete p
      return { t' with instances := t'.instances.erase serial }

/-- `update_connected_devices`, once `adb` has listed the devices.  The set and the map are iterated
in some order. -/
def updateConnectedDevices (attempt : Serial → Attempt) (devices : List Serial)
    (t : DeviceTracker) : Fate DeviceTracker := do
  let t₁ ← devices.foldlM (tryDevice attempt) t
  let toRemove := t₁.instances.keys.filter (· ∉ devices)
  toRemove.foldlM removeDevice t₁

/-! ## What a device does to the others -/

/-- The entries of the map point to objects that are alive and that can be destroyed. -/
structure Valid (t : DeviceTracker) : Prop where
  fresh : ∀ p n, t.heap p = some n → p < t.nextPointer
  entry : ∀ serial p, t.instances.lookup serial = some p →
    ∃ n, t.heap p = some n ∧ n.deviceSerial = serial ∧ n.joins = true

theorem valid_new : new.Valid where
  fresh p n h := by cases h
  entry serial p h := by cases h

variable {t t' t'' : DeviceTracker} {serial : Serial} {p : Pointer} {n : Nandroid} {a : Attempt}
  {attempt : Serial → Attempt}

theorem Valid.nextPointer (ht : t.Valid) : t.heap t.nextPointer = none := by
  rcases h : t.heap t.nextPointer with _ | n
  · rfl
  · exact (Nat.lt_irrefl _ (ht.fresh _ n h)).elim

/-- A scan has not touched the device: it is mounted or put aside as before, and no object was made
for it. -/
structure Keeps (t t' : DeviceTracker) (serial : Serial) : Prop where
  instances : serial ∈ t'.instances ↔ serial ∈ t.instances
  failed : serial ∈ t'.failedToConnect ↔ serial ∈ t.failedToConnect
  objects : ∀ p n, t'.heap p = some n → n.deviceSerial = serial → t.heap p = some n

theorem Keeps.refl (t : DeviceTracker) (serial : Serial) : Keeps t t serial :=
  ⟨Iff.rfl, Iff.rfl, fun _ _ h _ => h⟩

theorem Keeps.trans (h : Keeps t t' serial) (h' : Keeps t' t'' serial) : Keeps t t'' serial where
  instances := h'.instances.trans h.instances
  failed := h'.failed.trans h.failed
  objects p n hn hs := h.objects p n (h'.objects p n hn hs) hs

theorem Keeps.isNew (h : Keeps t t' serial) : t'.IsNew serial ↔ t.IsNew serial := by
  unfold IsNew
  rw [h.instances, h.failed]

/-- The scan has dealt with a new device: it is mounted, or it is put aside and nothing is left of
it. -/
def Handled (attempt : Serial → Attempt) (t t' : DeviceTracker) (serial : Serial) : Prop :=
  match (attempt serial).failure with
  | none => serial ∈ t'.instances
  | some _ => serial ∉ t'.instances ∧ serial ∈ t'.failedToConnect ∧
      ∀ p n, t'.heap p = some n → n.deviceSerial = serial → t.heap p = some n

theorem Handled.not_isNew (h : Handled attempt t t' serial) : ¬t'.IsNew serial := by
  unfold Handled at h
  rintro ⟨hinst, hfailed⟩
  split at h
  · exact hinst h
  · exact hfailed h.2.1

theorem Handled.keeps_right (h : Handled attempt t t' serial) (h' : Keeps t' t'' serial) :
    Handled attempt t t'' serial := by
  unfold Handled at h ⊢
  split
  · next hnone =>
    rw [hnone] at h
    exact h'.instances.mpr h
  · next hsome =>
    rw [hsome] at h
    refine ⟨fun hmem => h.1 (h'.instances.mp hmem), h'.failed.mpr h.2.1, fun p n hn hs => ?_⟩
    exact h.2.2 p n (h'.objects p n hn hs) hs

theorem Handled.keeps_left (h : Keeps t t' serial) (h' : Handled attempt t' t'' serial) :
    Handled attempt t t'' serial := by
  unfold Handled at h' ⊢
  split
  · next hnone =>
    rw [hnone] at h'
    exact h'
  · next hsome =>
    rw [hsome] at h'
    exact ⟨h'.1, h'.2.1, fun p n hn hs => h.objects p n (h'.2.2 p n hn hs) hs⟩

/-! ## Connecting -/

/-- An object was made and has been destroyed again. -/
def discarding (t : DeviceTracker) (n : Nandroid) : DeviceTracker :=
  { t.allocate n with
    heap := Function.update t.heap t.nextPointer none
    destroyed := t.nextPointer :: t.destroyed }

/-- An object was made and is in the map. -/
def registering (t : DeviceTracker) (serial : Serial) (n : Nandroid) : DeviceTracker :=
  { t.allocate n with instances := t.instances.insert serial t.nextPointer }

theorem heap_allocate_eq_some {m : Nandroid} :
    (t.allocate n).heap p = some m ↔
      p = t.nextPointer ∧ n = m ∨ p ≠ t.nextPointer ∧ t.heap p = some m := by
  show Function.update t.heap t.nextPointer (some n) p = some m ↔ _
  by_cases hp : p = t.nextPointer
  · simp [hp]
  · simp [hp]

theorem heap_discarding_eq_some {m : Nandroid} :
    (t.discarding n).heap p = some m ↔ p ≠ t.nextPointer ∧ t.heap p = some m := by
  show Function.update t.heap t.nextPointer none p = some m ↔ _
  by_cases hp : p = t.nextPointer
  · simp [hp]
  · simp [hp]

theorem heap_registering_eq_some {m : Nandroid} :
    (t.registering serial n).heap p = some m ↔
      p = t.nextPointer ∧ n = m ∨ p ≠ t.nextPointer ∧ t.heap p = some m :=
  heap_allocate_eq_some

/-- The object that fails is destroyed, if that is possible. -/
theorem delete_allocate (t : DeviceTracker) (n : Nandroid) :
    (t.allocate n).delete t.nextPointer =
      if n.joins then .done (t.discarding n) else .terminated := by
  unfold delete discarding allocate
  simp only [Function.update_self, Function.update_idem]

/-- **Everything that `connect_to_device_internal` can do.** -/
theorem connectToDeviceInternal_eq (a : Attempt) (serial : Serial) (t : DeviceTracker) :
    (a.serial = false ∧ a.failure = some .serial ∧ ¬a.FailsEarly ∧
      t.connectToDeviceInternal a serial = .done (.error .serial, t)) ∨
    (a.serial = true ∧ a.FailsEarly ∧ t.connectToDeviceInternal a serial = .terminated) ∨
    (∃ e, a.serial = true ∧ a.failure = some e ∧ ¬a.FailsEarly ∧
      t.connectToDeviceInternal a serial =
        .done (.error e,
          t.discarding ((Nandroid.new serial t.currentPort).reached (some e)))) ∨
    (a.serial = true ∧ a.failure = none ∧ ¬a.FailsEarly ∧ t.connectToDeviceInternal a serial =
      .done (.ok t.nextPointer,
        t.registering serial ((Nandroid.new serial t.currentPort).reached none))) := by
  unfold connectToDeviceInternal
  rcases hserial : a.serial with _ | _
  · have hfailure : a.failure = some .serial := by
      unfold Attempt.failure
      rw [hserial]
      rfl
    refine Or.inl ⟨rfl, hfailure, ?_, by simp⟩
    rintro ⟨e, he, hearly⟩
    obtain rfl := Option.some.inj (hfailure.symm.trans he)
    exact hearly
  · right
    have hjoins := Nandroid.joins_reached serial t.currentPort hserial
    simp only [Bool.not_true, Bool.false_eq_true, if_false, Nandroid.begin_eq _ hserial]
    by_cases hearly : a.FailsEarly
    · left
      obtain ⟨e, he, -⟩ := id hearly
      rw [he] at hjoins ⊢
      simp only [Option.elim_some, delete_allocate, if_neg fun h => hjoins.mp h hearly]
      exact ⟨trivial, hearly, rfl⟩
    · right
      rcases hfailure : a.failure with _ | e
      · exact Or.inr ⟨trivial, rfl, hearly, rfl⟩
      · rw [hfailure] at hjoins
        left
        simp only [Option.elim_some, delete_allocate, if_pos (hjoins.mpr hearly)]
        exact ⟨e, trivial, rfl, hearly, rfl⟩

theorem Valid.discarding (ht : t.Valid) (n : Nandroid) : (t.discarding n).Valid where
  fresh q m hq := Nat.lt_succ_of_lt (ht.fresh q m (heap_discarding_eq_some.mp hq).2)
  entry serial q hq := by
    obtain ⟨m, hm, hrest⟩ := ht.entry serial q hq
    exact ⟨m, heap_discarding_eq_some.mpr ⟨Nat.ne_of_lt (ht.fresh q m hm), hm⟩, hrest⟩

theorem Valid.registering (ht : t.Valid) (hserial : n.deviceSerial = serial)
    (hjoins : n.joins = true) : (t.registering serial n).Valid where
  fresh q m hq := by
    rcases heap_registering_eq_some.mp hq with ⟨rfl, -⟩ | ⟨-, hq⟩
    · exact Nat.lt_succ_self _
    · exact Nat.lt_succ_of_lt (ht.fresh q m hq)
  entry serial' q hq := by
    by_cases hss : serial' = serial
    · subst hss
      simp only [DeviceTracker.registering, AList.lookup_insert, Option.some.injEq] at hq
      subst hq
      exact ⟨n, heap_registering_eq_some.mpr (Or.inl ⟨rfl, rfl⟩), hserial, hjoins⟩
    · simp only [DeviceTracker.registering, AList.lookup_insert_ne hss] at hq
      obtain ⟨m, hm, hrest⟩ := ht.entry serial' q hq
      have hne : q ≠ t.nextPointer := Nat.ne_of_lt (ht.fresh q m hm)
      exact ⟨m, heap_registering_eq_some.mpr (Or.inr ⟨hne, hm⟩), hrest⟩

theorem keeps_discarding (t : DeviceTracker) (n : Nandroid) (serial : Serial) :
    Keeps t (t.discarding n) serial where
  instances := Iff.rfl
  failed := Iff.rfl
  objects _ _ hq _ := (heap_discarding_eq_some.mp hq).2

theorem keeps_registering {serial' : Serial} (hserial : n.deviceSerial = serial)
    (hne : serial' ≠ serial) : Keeps t (t.registering serial n) serial' where
  instances := by
    show serial' ∈ t.instances.insert serial t.nextPointer ↔ _
    rw [AList.mem_insert]
    exact or_iff_right hne
  failed := Iff.rfl
  objects q m hq hm := by
    rcases heap_registering_eq_some.mp hq with ⟨-, rfl⟩ | ⟨-, hq⟩
    · exact (hne (hm.symm.trans hserial)).elim
    · exact hq

/-! ## Scanning -/

/-- Putting a device aside. -/
def putAside (t : DeviceTracker) (serial : Serial) : DeviceTracker :=
  { t with failedToConnect := serial :: t.failedToConnect }

theorem keeps_putAside {serial' : Serial} (hne : serial' ≠ serial) :
    Keeps t (t.putAside serial) serial' where
  instances := Iff.rfl
  failed := by
    show serial' ∈ serial :: t.failedToConnect ↔ _
    rw [List.mem_cons]
    exact or_iff_right hne
  objects _ _ h _ := h

theorem handled_putAside {e : Failure} (he : (attempt serial).failure = some e)
    (hnew : t.IsNew serial) (hkeeps : Keeps t t' serial) :
    Handled attempt t (t'.putAside serial) serial := by
  unfold Handled
  rw [he]
  exact ⟨fun hmem => hnew.1 (hkeeps.instances.mp hmem), List.mem_cons_self, hkeeps.objects⟩

/-- **Everything that a scan can do with one device.** -/
theorem tryDevice_cases (attempt : Serial → Attempt) (serial : Serial) (t : DeviceTracker) :
    (¬t.IsNew serial ∧ t.tryDevice attempt serial = .done t) ∨
    (t.IsNew serial ∧ (attempt serial).serial = true ∧ (attempt serial).FailsEarly ∧
      t.tryDevice attempt serial = .terminated) ∨
    (t.IsNew serial ∧ ¬(attempt serial).FailsEarly ∧
      (((attempt serial).serial = false ∧ (attempt serial).failure = some .serial ∧
        t.tryDevice attempt serial = .done (t.putAside serial)) ∨
      (∃ e, (attempt serial).serial = true ∧ (attempt serial).failure = some e ∧
        t.tryDevice attempt serial = .done
          ((t.discarding ((Nandroid.new serial t.currentPort).reached (some e))).putAside serial)) ∨
      ((attempt serial).serial = true ∧ (attempt serial).failure = none ∧
        t.tryDevice attempt serial = .done
          (t.registering serial ((Nandroid.new serial t.currentPort).reached none))))) := by
  unfold tryDevice
  by_cases hnew : t.IsNew serial
  · rw [if_pos hnew]
    right
    rcases connectToDeviceInternal_eq (attempt serial) serial t with
      ⟨hs, he, hlate, heq⟩ | ⟨hs, hearly, heq⟩ | ⟨e, hs, he, hlate, heq⟩ | ⟨hs, he, hlate, heq⟩
    · exact Or.inr ⟨hnew, hlate, Or.inl ⟨hs, he, by rw [heq]; rfl⟩⟩
    · exact Or.inl ⟨hnew, hs, hearly, by rw [heq]; rfl⟩
    · exact Or.inr ⟨hnew, hlate, Or.inr (Or.inl ⟨e, hs, he, by rw [heq]; rfl⟩)⟩
    · exact Or.inr ⟨hnew, hlate, Or.inr (Or.inr ⟨hs, he, by rw [heq]; rfl⟩)⟩
  · rw [if_neg hnew]
    exact Or.inl ⟨hnew, rfl⟩

/-- **What a scan does with one device.**  A new device that fails early ends the process.
Otherwise a new device is dealt with and all others are left alone. -/
theorem tryDevice_spec (ht : t.Valid) (attempt : Serial → Attempt) (serial : Serial) :
    (t.IsNew serial ∧ (attempt serial).FailsEarly ∧ t.tryDevice attempt serial = .terminated) ∨
    ¬(t.IsNew serial ∧ (attempt serial).FailsEarly) ∧
      ∃ t', t.tryDevice attempt serial = .done t' ∧ t'.Valid ∧
        (∀ serial', serial' ≠ serial ∨ ¬t.IsNew serial → Keeps t t' serial') ∧
        (t.IsNew serial → Handled attempt t t' serial) := by
  rcases tryDevice_cases attempt serial t with ⟨hold, heq⟩ | ⟨hnew, -, hearly, heq⟩ |
    ⟨hnew, hlate, ⟨-, he, heq⟩ | ⟨e, -, he, heq⟩ | ⟨-, he, heq⟩⟩
  · exact Or.inr ⟨fun h => hold h.1, t, heq, ht, fun serial' _ => Keeps.refl t serial',
      fun h => (hold h).elim⟩
  · exact Or.inl ⟨hnew, hearly, heq⟩
  · refine Or.inr ⟨fun h => hlate h.2, t.putAside serial, heq, ?_, ?_, fun _ => ?_⟩
    · exact ⟨ht.fresh, ht.entry⟩
    · exact fun serial' hs => keeps_putAside (hs.resolve_right (not_not.mpr hnew))
    · exact handled_putAside he hnew (Keeps.refl t serial)
  · have hkeeps := keeps_discarding t ((Nandroid.new serial t.currentPort).reached (some e))
    have hvalid := ht.discarding ((Nandroid.new serial t.currentPort).reached (some e))
    refine Or.inr ⟨fun h => hlate h.2, (t.discarding _).putAside serial, heq, ?_, ?_, fun _ => ?_⟩
    · exact ⟨hvalid.fresh, hvalid.entry⟩
    · exact fun serial' hs =>
        (hkeeps serial').trans (keeps_putAside (hs.resolve_right (not_not.mpr hnew)))
    · exact handled_putAside he hnew (hkeeps serial)
  · refine Or.inr ⟨fun h => hlate h.2, t.registering serial _, heq, ?_, ?_, fun _ => ?_⟩
    · exact ht.registering (Nandroid.reached_deviceSerial _ _) rfl
    · exact fun serial' hs => keeps_registering (Nandroid.reached_deviceSerial _ _)
        (hs.resolve_right (not_not.mpr hnew))
    · unfold Handled
      rw [he]
      show serial ∈ t.instances.insert serial t.nextPointer
      exact (AList.mem_insert _).mpr (Or.inl rfl)

/-- No new device among these fails early. -/
def NoneFailsEarly (attempt : Serial → Attempt) (devices : List Serial) (t : DeviceTracker) :
    Prop :=
  ∀ serial ∈ devices, t.IsNew serial → ¬(attempt serial).FailsEarly

/-- The first loop of a scan. -/
theorem foldlM_tryDevice (attempt : Serial → Attempt) (devices : List Serial) :
    ∀ t : DeviceTracker, t.Valid →
      (¬t.NoneFailsEarly attempt devices ∧ devices.foldlM (tryDevice attempt) t = .terminated) ∨
      t.NoneFailsEarly attempt devices ∧
        ∃ t', devices.foldlM (tryDevice attempt) t = .done t' ∧ t'.Valid ∧
          (∀ serial, ¬t.IsNew serial → Keeps t t' serial) ∧
          ∀ serial ∈ devices, t.IsNew serial → Handled attempt t t' serial := by
  induction devices with
  | nil =>
    intro t ht
    refine Or.inr ⟨fun serial hs => (List.not_mem_nil hs).elim, t, rfl, ht,
      fun serial _ => Keeps.refl t serial, fun serial hs => (List.not_mem_nil hs).elim⟩
  | cons d devices ih =>
    intro t ht
    rw [List.foldlM_cons]
    rcases tryDevice_spec ht attempt d with ⟨hnew, hearly, heq⟩ | ⟨hnot, t₁, heq, ht₁, hkeeps, hd⟩
    · exact Or.inl ⟨fun hall => hall d List.mem_cons_self hnew hearly, by rw [heq]; rfl⟩
    · rw [heq, Fate.done_bind]
      -- the other devices are as new as they were, and `d` is not new any more
      have hothers :
          t₁.NoneFailsEarly attempt devices ↔ t.NoneFailsEarly attempt (d :: devices) := by
        constructor
        · intro hall serial hs hnew
          by_cases hsd : serial = d
          · subst hsd
            exact fun hearly => hnot ⟨hnew, hearly⟩
          · refine hall serial (List.mem_of_ne_of_mem hsd hs) ?_
            exact (hkeeps serial (Or.inl hsd)).isNew.mpr hnew
        · intro hall serial hs hnew
          refine hall serial (List.mem_cons_of_mem _ hs) ?_
          by_cases hsd : serial = d
          · subst hsd
            by_contra hold
            exact hold ((hkeeps serial (Or.inr hold)).isNew.mp hnew)
          · exact (hkeeps serial (Or.inl hsd)).isNew.mp hnew
      rw [← hothers]
      refine (ih t₁ ht₁).imp_right ?_
      rintro ⟨hall, t', heq', ht', hkeeps', hhandled⟩
      refine ⟨hall, t', heq', ht', fun serial hold => ?_, fun serial hs hnew => ?_⟩
      · have hkept : Keeps t t₁ serial := by
          by_cases hsd : serial = d
          · subst hsd
            exact hkeeps serial (Or.inr hold)
          · exact hkeeps serial (Or.inl hsd)
        exact hkept.trans (hkeeps' serial fun h => hold (hkept.isNew.mp h))
      · by_cases hsd : serial = d
        · subst hsd
          exact (hd hnew).keeps_right (hkeeps' serial (hd hnew).not_isNew)
        · have hkept := hkeeps serial (Or.inl hsd)
          exact Handled.keeps_left hkept
            (hhandled serial (List.mem_of_ne_of_mem hsd hs) (hkept.isNew.mpr hnew))

/-- The end of an object, and of the entry that belongs to it. -/
def retiring (t : DeviceTracker) (serial : Serial) (p : Pointer) : DeviceTracker :=
  { t with
    instances := t.instances.erase serial
    heap := Function.update t.heap p none
    destroyed := p :: t.destroyed }

theorem heap_retiring_eq_some {q : Pointer} {m : Nandroid} :
    (t.retiring serial p).heap q = some m ↔ q ≠ p ∧ t.heap q = some m := by
  show Function.update t.heap p none q = some m ↔ _
  by_cases hq : q = p
  · simp [hq]
  · simp [hq]

/-- What was in the map for another device points to another object. -/
theorem Valid.retiring (ht : t.Valid) (hn : t.heap p = some n) :
    (t.retiring n.deviceSerial p).Valid where
  fresh q m hq := ht.fresh q m (heap_retiring_eq_some.mp hq).2
  entry serial q hq := by
    have hne : serial ≠ n.deviceSerial := by
      rintro rfl
      simp [DeviceTracker.retiring] at hq
    simp only [DeviceTracker.retiring, AList.lookup_erase_ne hne] at hq
    obtain ⟨m, hm, hms, hmj⟩ := ht.entry serial q hq
    have hqp : q ≠ p := by
      rintro rfl
      obtain rfl := Option.some.inj (hn.symm.trans hm)
      exact hne hms.symm
    exact ⟨m, heap_retiring_eq_some.mpr ⟨hqp, hm⟩, hms, hmj⟩

theorem removeDevice_eq (hlookup : t.instances.lookup serial = some p) (hn : t.heap p = some n) :
    t.removeDevice serial =
      if n.joins then .done (t.retiring serial p) else .terminated := by
  unfold removeDevice
  simp only [hlookup]
  unfold delete
  simp only [hn]
  split <;> rfl

/-- Removing a device that comes to its end. -/
theorem removeDevice_done (h : t.removeDevice serial = .done t') :
    t' = t ∨ ∃ p, t' = t.retiring serial p := by
  rcases hlookup : t.instances.lookup serial with _ | p
  · rw [removeDevice, hlookup] at h
    exact Or.inl (Fate.done.inj h).symm
  · rcases hn : t.heap p with _ | n
    · rw [removeDevice, hlookup] at h
      simp only [delete, hn] at h
      cases h
    · rw [removeDevice_eq hlookup hn] at h
      split at h
      · exact Or.inr ⟨p, (Fate.done.inj h).symm⟩
      · cases h

/-- A device that is gone can always be removed, and nothing else is touched. -/
theorem removeDevice_spec (ht : t.Valid) (serial : Serial) :
    ∃ t', t.removeDevice serial = .done t' ∧ t'.Valid ∧
      ∀ serial', serial' ≠ serial → Keeps t t' serial' := by
  rcases hlookup : t.instances.lookup serial with _ | p
  · refine ⟨t, ?_, ht, fun serial' _ => Keeps.refl t serial'⟩
    unfold removeDevice
    rw [hlookup]
  · obtain ⟨n, hn, rfl, hjoins⟩ := ht.entry serial p hlookup
    refine ⟨t.retiring n.deviceSerial p, ?_, ht.retiring hn, fun serial' hne => ⟨?_, Iff.rfl, ?_⟩⟩
    · rw [removeDevice_eq hlookup hn, if_pos hjoins]
    · show serial' ∈ t.instances.erase n.deviceSerial ↔ _
      rw [AList.mem_erase]
      exact and_iff_right hne
    · exact fun q m hq _ => (heap_retiring_eq_some.mp hq).2

/-- The second loop of a scan. -/
theorem foldlM_removeDevice (serials : List Serial) :
    ∀ t : DeviceTracker, t.Valid →
      ∃ t', serials.foldlM removeDevice t = .done t' ∧ t'.Valid ∧
        ∀ serial, serial ∉ serials → Keeps t t' serial := by
  induction serials with
  | nil =>
    intro t ht
    exact ⟨t, rfl, ht, fun serial _ => Keeps.refl t serial⟩
  | cons d serials ih =>
    intro t ht
    obtain ⟨t₁, heq, ht₁, hkeeps⟩ := removeDevice_spec ht d
    obtain ⟨t', heq', ht', hkeeps'⟩ := ih t₁ ht₁
    refine ⟨t', ?_, ht', fun serial hs => ?_⟩
    · rw [List.foldlM_cons, heq, Fate.done_bind, heq']
    · obtain ⟨hne, hs⟩ := List.ne_and_not_mem_of_not_mem_cons hs
      exact (hkeeps serial hne).trans (hkeeps' serial hs)

/-- **A scan copes with the devices that fail.**  It ends by itself, and every authorized device
that was new is now mounted or, if one of the steps of its `begin` failed, is put aside, without an
entry and without an object. -/
def Copes (attempt : Serial → Attempt) (devices : List Serial) (t : DeviceTracker) : Prop :=
  ∃ t', t.updateConnectedDevices attempt devices = .done t' ∧
    ∀ serial ∈ devices, t.IsNew serial → Handled attempt t t' serial

/-- **When a scan copes**: exactly if no new device fails before the thread of its agent has been
started. -/
theorem copes_iff (attempt : Serial → Attempt) (devices : List Serial) {t : DeviceTracker}
    (ht : t.Valid) : t.Copes attempt devices ↔ t.NoneFailsEarly attempt devices := by
  unfold Copes updateConnectedDevices
  rcases foldlM_tryDevice attempt devices t ht with ⟨hnot, heq⟩ | ⟨hall, t₁, heq, ht₁, -, hhandled⟩
  · rw [heq]
    constructor
    · rintro ⟨t', hdone, -⟩
      cases hdone
    · exact fun h => (hnot h).elim
  · rw [heq, Fate.done_bind]
    refine iff_of_true ?_ hall
    obtain ⟨t', heq', -, hkeeps⟩ :=
      foldlM_removeDevice (t₁.instances.keys.filter (· ∉ devices)) t₁ ht₁
    refine ⟨t', heq', fun serial hs hnew => ?_⟩
    refine (hhandled serial hs hnew).keeps_right (hkeeps serial ?_)
    -- an authorized device is not removed
    intro hmem
    exact of_decide_eq_true (List.mem_filter.mp hmem).2 hs

/-- The agent of the first device does not get ready; the device is put aside and the second is
mounted. -/
theorem copes_iff_agentNotReady :
    new.Copes (fun serial => { Attempt.perfect with agentReady := serial ≠ [1] }) [[1], [2]] := by
  refine (copes_iff _ _ valid_new).mpr ?_
  rintro serial - - ⟨e, he, hearly⟩
  by_cases hserial : serial = [1]
  · subst hserial
    obtain rfl : e = .agentNotReady := (Option.some.inj he).symm
    exact hearly
  · simp [Attempt.failure, Attempt.perfect, hserial, mountFilesystem, driveLetters] at he

/-- The first device is unplugged while the agent is copied to it: the process ends, and the second
device is not even tried. -/
theorem not_copes_push :
    new.updateConnectedDevices (fun serial => { Attempt.perfect with push := serial ≠ [1] })
        [[1], [2]] = .terminated ∧
      ¬new.Copes (fun serial => { Attempt.perfect with push := serial ≠ [1] }) [[1], [2]] := by
  have hends : new.updateConnectedDevices
      (fun serial => { Attempt.perfect with push := serial ≠ [1] }) [[1], [2]] = .terminated := rfl
  refine ⟨hends, ?_⟩
  rintro ⟨t', hdone, -⟩
  rw [hends] at hdone
  cases hdone

end DeviceTracker

end NandroidFS
