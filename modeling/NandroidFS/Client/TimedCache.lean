import Mathlib.Logic.Function.Basic
import NandroidFS.Client.Connection

/-!
# The caches of the client

`TimedCache.hpp`: a map from paths to data with the time each was stored.  Data is handed out while
it is not older than `cached_item_valid_for`, and swept out now and then.  Every definition here is
one section of code under the mutex of the cache; `cache` looks at the clock twice, once for the
datum and once more when it sweeps.

Times are in nanoseconds.  `Caches` is the pair of caches of a `Connection`, and `Caches.perform` is
what each call of a method does to them.

* `TimedCache.getCached_cache`: what can be found after a store, sweep or no sweep.
* `Caches.find_perform`: a call that is not a store makes nothing findable, and a store makes
  findable what it stores.
-/

namespace NandroidFS

structure CachedData (T : Type) where
  data : T
  fetchedAt : ℕ
  deriving DecidableEq

structure TimedCache (T : Type) where
  cacheScanInterval : ℕ
  cachedItemValidFor : ℕ
  lastCacheScan : ℕ
  cachedData : ByteString → Option (CachedData T)

namespace TimedCache

variable {T : Type}

def new (cacheScanInterval cachedItemValidFor now : ℕ) : TimedCache T where
  cacheScanInterval := cacheScanInterval
  cachedItemValidFor := cachedItemValidFor
  lastCacheScan := now
  cachedData := fun _ => none

/-- `cached_data.contains`. -/
def contains (c : TimedCache T) (filePath : ByteString) : Bool :=
  (c.cachedData filePath).isSome

def getCached (c : TimedCache T) (filePath : ByteString) (now : ℕ) : Option T :=
  match c.cachedData filePath with
  | none => none
  | some cached => if now - cached.fetchedAt ≤ c.cachedItemValidFor then some cached.data else none

/-- The sweep: what is out of date is removed. -/
def cleanCache (c : TimedCache T) (now : ℕ) : TimedCache T :=
  { c with cachedData := fun filePath =>
      (c.cachedData filePath).filter fun cached =>
        !decide (now - cached.fetchedAt > c.cachedItemValidFor) }

/-- `cached_data[file_path] = …`. -/
def assign (c : TimedCache T) (filePath : ByteString) (datum : T) (now : ℕ) : TimedCache T :=
  { c with cachedData := Function.update c.cachedData filePath (some ⟨datum, now⟩) }

def cache (c : TimedCache T) (filePath : ByteString) (datum : T) (now later : ℕ) : TimedCache T :=
  if now - c.lastCacheScan > c.cacheScanInterval then
    cleanCache { c.assign filePath datum now with lastCacheScan := now } later
  else c.assign filePath datum now

/-- `cached_data.erase`. -/
def erase (c : TimedCache T) (filePath : ByteString) : TimedCache T :=
  { c with cachedData := Function.update c.cachedData filePath none }

variable {c : TimedCache T} {filePath key : ByteString} {datum v : T} {now later t : ℕ}

theorem getCached_eq_some :
    c.getCached key t = some v ↔
      ∃ fetchedAt, c.cachedData key = some ⟨v, fetchedAt⟩ ∧
        t - fetchedAt ≤ c.cachedItemValidFor := by
  unfold getCached
  constructor
  · intro h
    rcases hkey : c.cachedData key with _ | ⟨data, fetchedAt⟩
    · rw [hkey] at h
      cases h
    · simp only [hkey] at h
      by_cases hle : t - fetchedAt ≤ c.cachedItemValidFor
      · rw [if_pos hle] at h
        obtain rfl := Option.some.inj h
        exact ⟨fetchedAt, rfl, hle⟩
      · rw [if_neg hle] at h
        cases h
  · rintro ⟨fetchedAt, hkey, hle⟩
    rw [hkey]
    exact if_pos hle

/-- What has been found once could have been found before, if it was there. -/
theorem getCached_mono (h : c.getCached key later = some v) (hle : now ≤ later) :
    c.getCached key now = some v := by
  obtain ⟨fetchedAt, hkey, hvalid⟩ := getCached_eq_some.mp h
  refine getCached_eq_some.mpr ⟨fetchedAt, hkey, ?_⟩
  omega

theorem getCached_of_not_contains (h : c.contains key = false) (t : ℕ) :
    c.getCached key t = none := by
  have hnone : c.cachedData key = none := Option.isNone_iff_eq_none.mp (by
    rw [← Option.not_isSome]
    exact congrArg (!·) h)
  unfold getCached
  rw [hnone]

theorem getCached_erase_self (t : ℕ) : (c.erase key).getCached key t = none := by
  unfold getCached erase
  simp only [Function.update_self]

/-- Nothing becomes findable when something is removed. -/
theorem getCached_of_erase (h : (c.erase filePath).getCached key t = some v) :
    c.getCached key t = some v := by
  by_cases hkey : key = filePath
  · rw [hkey, getCached_erase_self] at h
    cases h
  · unfold getCached erase at h
    simp only [Function.update_of_ne hkey] at h
    exact h

/-- A sweep only removes, and leaves what is not out of date. -/
theorem cachedData_cleanCache_eq_some {d : CachedData T} :
    (c.cleanCache now).cachedData key = some d ↔
      c.cachedData key = some d ∧ now - d.fetchedAt ≤ c.cachedItemValidFor := by
  unfold cleanCache
  simp only [Option.filter_eq_some_iff, Bool.not_eq_true', decide_eq_false_iff_not, not_lt]

/-- **The sweep cannot be seen**: from then on, what can be found is what could be found. -/
theorem getCached_cleanCache (hle : now ≤ t) :
    (c.cleanCache now).getCached key t = c.getCached key t := by
  have key_iff (v : T) :
      (c.cleanCache now).getCached key t = some v ↔ c.getCached key t = some v := by
    rw [getCached_eq_some, getCached_eq_some]
    constructor
    · rintro ⟨fetchedAt, hkey, hvalid⟩
      exact ⟨fetchedAt, (cachedData_cleanCache_eq_some.mp hkey).1, hvalid⟩
    · rintro ⟨fetchedAt, hkey, hvalid⟩
      have hstays : now - fetchedAt ≤ c.cachedItemValidFor :=
        (Nat.sub_le_sub_right hle fetchedAt).trans hvalid
      exact ⟨fetchedAt, cachedData_cleanCache_eq_some.mpr ⟨hkey, hstays⟩, hvalid⟩
  exact Option.ext key_iff

theorem getCached_assign :
    (c.assign filePath datum now).getCached key t =
      if key = filePath then if t - now ≤ c.cachedItemValidFor then some datum else none
      else c.getCached key t := by
  unfold getCached assign
  by_cases hkey : key = filePath
  · simp only [hkey, Function.update_self, if_pos]
  · simp only [Function.update_of_ne hkey, if_neg hkey]

/-- **What can be found after a store.** -/
theorem getCached_cache (hle : later ≤ t) :
    (c.cache filePath datum now later).getCached key t =
      if key = filePath then if t - now ≤ c.cachedItemValidFor then some datum else none
      else c.getCached key t := by
  unfold cache
  split
  · rw [getCached_cleanCache hle]
    exact getCached_assign
  · exact getCached_assign

theorem cachedData_of_erase {d : CachedData T} (h : (c.erase filePath).cachedData key = some d) :
    c.cachedData key = some d := by
  unfold erase at h
  by_cases hkey : key = filePath
  · simp only [hkey, Function.update_self] at h
    cases h
  · simpa only [Function.update_of_ne hkey] using h

theorem cachedData_of_assign {d : CachedData T}
    (h : (c.assign filePath datum now).cachedData key = some d) :
    (key = filePath ∧ d = ⟨datum, now⟩) ∨ c.cachedData key = some d := by
  unfold assign at h
  by_cases hkey : key = filePath
  · simp only [hkey, Function.update_self] at h
    exact Or.inl ⟨hkey, (Option.some.inj h).symm⟩
  · exact Or.inr (by simpa only [Function.update_of_ne hkey] using h)

/-- **What is in the map after a store**: what was stored, stamped with the time of the store, or
what was there before. -/
theorem cachedData_of_cache {d : CachedData T}
    (h : (c.cache filePath datum now later).cachedData key = some d) :
    (key = filePath ∧ d = ⟨datum, now⟩) ∨ c.cachedData key = some d := by
  unfold cache at h
  split at h
  · have hswept := (cachedData_cleanCache_eq_some.mp h).1
    exact cachedData_of_assign hswept
  · exact cachedData_of_assign h

/-- A store leaves what it stores, whether or not it sweeps, unless the sweep takes too long. -/
theorem cachedData_cache_self (h : later - now ≤ c.cachedItemValidFor) :
    (c.cache filePath datum now later).cachedData filePath = some ⟨datum, now⟩ := by
  have hassign : (c.assign filePath datum now).cachedData filePath = some ⟨datum, now⟩ :=
    Function.update_self _ _ _
  unfold cache
  split
  · exact cachedData_cleanCache_eq_some.mpr ⟨hassign, h⟩
  · exact hassign

/-- A store under another key leaves what is not out of date when it ends. -/
theorem cachedData_cache_of_ne {d : CachedData T} (hne : key ≠ filePath)
    (hkey : c.cachedData key = some d) (h : later - d.fetchedAt ≤ c.cachedItemValidFor) :
    (c.cache filePath datum now later).cachedData key = some d := by
  have hassign : (c.assign filePath datum now).cachedData key = some d :=
    (Function.update_of_ne hne _ _).trans hkey
  unfold cache
  split
  · exact cachedData_cleanCache_eq_some.mpr ⟨hassign, h⟩
  · exact hassign

theorem cachedData_erase_of_ne (hne : key ≠ filePath) :
    (c.erase filePath).cachedData key = c.cachedData key :=
  Function.update_of_ne hne _ _

@[simp] theorem cachedItemValidFor_cache :
    (c.cache filePath datum now later).cachedItemValidFor = c.cachedItemValidFor := by
  unfold cache
  split <;> rfl

end TimedCache

/-! ## The two caches of a connection -/

/-- What is cached: the stat of a path, or the names in a directory. -/
inductive Key where
  | stat (path : ByteString)
  | list (path : ByteString)
  deriving DecidableEq

@[reducible] def Key.Value : Key → Type
  | .stat _ => FileStat
  | .list _ => List ByteString

/-- `stat_cache` and `dir_list_cache`. -/
structure Caches where
  stat : TimedCache FileStat
  list : TimedCache (List ByteString)

/-- `STAT_CACHE_PERIOD`, 200 milliseconds. -/
def STAT_CACHE_PERIOD : ℕ := 200 * 1000000

/-- `STAT_SCAN_PERIOD`, 5000 milliseconds. -/
def STAT_SCAN_PERIOD : ℕ := 5000 * 1000000

namespace Caches

/-- The caches of a new connection. -/
def new (now : ℕ) : Caches where
  stat := .new STAT_SCAN_PERIOD STAT_CACHE_PERIOD now
  list := .new STAT_SCAN_PERIOD STAT_CACHE_PERIOD now

/-- What a look-up gives. -/
def find (c : Caches) (now : ℕ) : (key : Key) → Option key.Value
  | .stat path => c.stat.getCached path now
  | .list path => c.list.getCached path now

/-- What a call does to the caches.  It begins at `now` and ends at `later`. -/
def perform (now later : ℕ) : (e : ConnAct) → Caches → e.Res × Caches
  | .getStat path, c => (c.stat.getCached path now, c)
  | .hasStat path, c => (c.stat.contains path, c)
  | .eraseStat path, c => ((), { c with stat := c.stat.erase path })
  | .putStat path stat, c => ((), { c with stat := c.stat.cache path stat now later })
  | .getList path, c => (c.list.getCached path now, c)
  | .hasList path, c => (c.list.contains path, c)
  | .eraseList path, c => ((), { c with list := c.list.erase path })
  | .putList path names, c => ((), { c with list := c.list.cache path names now later })
  | .lock, c => ((), c)
  | .consumeStat _ _, c => ((), c)

end Caches

/-- The call stores a value under a key. -/
def ConnAct.Puts : ConnAct → (key : Key) → key.Value → Prop
  | .putStat path stat, .stat path', stat' => path = path' ∧ stat = stat'
  | .putList path names, .list path', names' => path = path' ∧ names = names'
  | _, _, _ => False

/-- The call has made sure that nothing is stored under a key: it has removed it, or has seen that
there is nothing to remove. -/
def ConnAct.Clears : (e : ConnAct) → e.Res → Key → Prop
  | .eraseStat path, _, .stat path' => path = path'
  | .hasStat path, found, .stat path' => path = path' ∧ found = false
  | .eraseList path, _, .list path' => path = path'
  | .hasList path, found, .list path' => path = path' ∧ found = false
  | _, _, _ => False

/-- The call changes neither cache. -/
def ConnAct.ReadOnly : ConnAct → Prop
  | .eraseStat _ => False
  | .putStat _ _ => False
  | .eraseList _ => False
  | .putList _ _ => False
  | _ => True

namespace Caches

variable {c : Caches} {e : ConnAct} {key : Key} {v : key.Value} {now later : ℕ}

theorem find_mono (h : c.find later key = some v) (hle : now ≤ later) :
    c.find now key = some v := by
  cases key with
  | stat path => exact TimedCache.getCached_mono h hle
  | list path => exact TimedCache.getCached_mono h hle

theorem perform_of_readOnly (he : e.ReadOnly) : (perform now later e c).2 = c := by
  cases e with
  | eraseStat path => exact he.elim
  | putStat path stat => exact he.elim
  | eraseList path => exact he.elim
  | putList path names => exact he.elim
  | _ => rfl

/-- **Only a store makes something findable**, and only what it stores. -/
theorem find_perform (hle : now ≤ later)
    (h : (perform now later e c).2.find later key = some v) :
    e.Puts key v ∨ c.find now key = some v := by
  by_cases he : e.ReadOnly
  · rw [perform_of_readOnly he] at h
    exact Or.inr (find_mono h hle)
  cases e with
  | eraseStat path =>
    right
    cases key with
    | stat path' => exact TimedCache.getCached_mono (TimedCache.getCached_of_erase h) hle
    | list path' => exact TimedCache.getCached_mono h hle
  | eraseList path =>
    right
    cases key with
    | stat path' => exact TimedCache.getCached_mono h hle
    | list path' => exact TimedCache.getCached_mono (TimedCache.getCached_of_erase h) hle
  | putStat path stat =>
    cases key with
    | stat path' =>
      simp only [perform, find, TimedCache.getCached_cache (le_refl later)] at h
      by_cases hpath : path' = path
      · rw [if_pos hpath] at h
        split at h
        · exact Or.inl ⟨hpath.symm, Option.some.inj h⟩
        · cases h
      · rw [if_neg hpath] at h
        exact Or.inr (TimedCache.getCached_mono h hle)
    | list path' => exact Or.inr (TimedCache.getCached_mono h hle)
  | putList path names =>
    cases key with
    | stat path' => exact Or.inr (TimedCache.getCached_mono h hle)
    | list path' =>
      simp only [perform, find, TimedCache.getCached_cache (le_refl later)] at h
      by_cases hpath : path' = path
      · rw [if_pos hpath] at h
        split at h
        · exact Or.inl ⟨hpath.symm, Option.some.inj h⟩
        · cases h
      · rw [if_neg hpath] at h
        exact Or.inr (TimedCache.getCached_mono h hle)
  | _ => exact (he trivial).elim

/-- A call that clears a key leaves nothing to be found there. -/
theorem find_of_clears (h : e.Clears (perform now later e c).1 key) (t : ℕ) :
    (perform now later e c).2.find t key = none := by
  cases e with
  | eraseStat path =>
    cases key with
    | stat path' =>
      obtain rfl : path = path' := h
      exact TimedCache.getCached_erase_self t
    | list path' => exact h.elim
  | hasStat path =>
    cases key with
    | stat path' =>
      obtain ⟨rfl, hfound⟩ := h
      exact TimedCache.getCached_of_not_contains hfound t
    | list path' => exact h.elim
  | eraseList path =>
    cases key with
    | stat path' => exact h.elim
    | list path' =>
      obtain rfl : path = path' := h
      exact TimedCache.getCached_erase_self t
  | hasList path =>
    cases key with
    | stat path' => exact h.elim
    | list path' =>
      obtain ⟨rfl, hfound⟩ := h
      exact TimedCache.getCached_of_not_contains hfound t
  | _ => exact h.elim

end Caches

end NandroidFS
