import NandroidFS.Client.TimedMap

/-!
# How long the cache keeps what it has

A look-up that finds an entry out of date leaves it where it is.  Entries leave the map in a sweep,
and a sweep is part of a store, if the last one was long enough ago.  So the map is never swept
while nothing is stored, and an entry may be much older than `cached_item_valid_for`.

What can be said is about the last sweep.  It has removed what was out of date by its own reading of
the clock, which is not earlier than the one by which it was due; and what has been stored since is
newer than the sweep.

* `Swept`: no entry is older than the last sweep by more than `cached_item_valid_for`.
* `fetchedAt_of_run`: so it is in every run, and a store leaves nothing that is older than the two
  periods together.
-/

namespace NandroidFS

namespace TimedCache

variable {T : Type} {c : TimedCache T} {filePath key : ByteString} {datum : T} {now later : ℕ}

/-- No entry is older than the last sweep by more than `cached_item_valid_for`. -/
def Swept (c : TimedCache T) : Prop :=
  ∀ key d, c.cachedData key = some d → c.lastCacheScan ≤ d.fetchedAt + c.cachedItemValidFor

theorem swept_new (cacheScanInterval cachedItemValidFor now : ℕ) :
    (new cacheScanInterval cachedItemValidFor now : TimedCache T).Swept := by
  intro key d h
  cases h

theorem Swept.erase (h : c.Swept) (filePath : ByteString) : (c.erase filePath).Swept :=
  fun key d hd => h key d (cachedData_of_erase hd)

/-- What is stored after the last sweep is newer than it. -/
theorem Swept.assign (h : c.Swept) (hnow : c.lastCacheScan ≤ now) :
    (c.assign filePath datum now).Swept := by
  intro key d hd
  rcases cachedData_of_assign hd with ⟨-, rfl⟩ | hd
  · exact Nat.le_add_right_of_le hnow
  · exact h key d hd

/-- A sweep makes up for any time that has passed since the last one. -/
theorem swept_cleanCache (hscan : c.lastCacheScan ≤ later) : (c.cleanCache later).Swept := by
  intro key d hd
  obtain ⟨-, hvalid⟩ := cachedData_cleanCache_eq_some.mp hd
  show c.lastCacheScan ≤ d.fetchedAt + c.cachedItemValidFor
  omega

theorem Swept.cache (h : c.Swept) (hnow : c.lastCacheScan ≤ now) (hlater : now ≤ later) :
    (c.cache filePath datum now later).Swept := by
  unfold TimedCache.cache
  split
  · exact swept_cleanCache hlater
  · exact h.assign hnow

theorem lastCacheScan_cache_le (hnow : c.lastCacheScan ≤ now) :
    (c.cache filePath datum now later).lastCacheScan ≤ now := by
  unfold TimedCache.cache
  split
  · exact le_rfl
  · exact hnow

/-- After a store the last sweep is not long ago. -/
theorem le_lastCacheScan_cache :
    now ≤ (c.cache filePath datum now later).lastCacheScan + c.cacheScanInterval := by
  unfold TimedCache.cache
  split
  · exact Nat.le_add_right now _
  · next hrecent =>
    show now ≤ c.lastCacheScan + c.cacheScanInterval
    omega

@[simp] theorem cacheScanInterval_cache :
    (c.cache filePath datum now later).cacheScanInterval = c.cacheScanInterval := by
  unfold TimedCache.cache
  split <;> rfl

/-! ## Runs -/

variable {s s' : Shared T} {log : List (Event T)} {scanInterval validFor created : ℕ}

/-- What a run keeps. -/
structure Retains (scanInterval validFor : ℕ) (s : Shared T) : Prop where
  scanInterval : s.cache.cacheScanInterval = scanInterval
  validFor : s.cache.cachedItemValidFor = validFor
  clock : s.cache.lastCacheScan ≤ s.clock
  swept : s.cache.Swept

theorem Retains.next {a : Act T} {e : Event T} (h : Retains scanInterval validFor s)
    (hstep : next s a = some (e, s')) : Retains scanInterval validFor s' := by
  rcases next_cases hstep with ⟨thread, key, now, -, -, hle, rfl⟩ |
    ⟨thread, key, datum, now, later, -, -, hnow, hlater, rfl⟩ | ⟨thread, key, -, -, rfl⟩ |
    ⟨thread, key, -, -, -, rfl⟩ | ⟨thread, key, -, -, rfl⟩
  · exact { h with clock := h.clock.trans hle }
  · have hscan : s.cache.lastCacheScan ≤ now := h.clock.trans hnow
    exact {
      scanInterval := cacheScanInterval_cache.trans h.scanInterval
      validFor := cachedItemValidFor_cache.trans h.validFor
      clock := (lastCacheScan_cache_le hscan).trans hlater
      swept := h.swept.cache hscan hlater }
  · exact { h with }
  · exact h
  · exact { h with swept := h.swept.erase key }

theorem Run.retains (h : Run (Shared.new scanInterval validFor created) log s) :
    Retains scanInterval validFor s := by
  induction h with
  | nil => exact ⟨rfl, rfl, le_rfl, swept_new scanInterval validFor created⟩
  | cons a _ hstep ih => exact ih.next hstep

/-- **What the map retains.**  In every run of any number of threads, no entry is older than the
last sweep by more than `cached_item_valid_for`; and when a store at `now` has come to its end, no
entry was fetched before `now - (cache_scan_interval + cached_item_valid_for)`. -/
theorem fetchedAt_of_run (h : Run (Shared.new scanInterval validFor created) log s) :
    (∀ key d, s.cache.cachedData key = some d →
      s.cache.lastCacheScan ≤ d.fetchedAt + validFor) ∧
    ∀ thread filePath datum now before, log = .stored thread filePath datum now :: before →
      ∀ key d, s.cache.cachedData key = some d →
        now ≤ d.fetchedAt + (scanInterval + validFor) := by
  have hkept := h.retains
  have hswept : ∀ key d, s.cache.cachedData key = some d →
      s.cache.lastCacheScan ≤ d.fetchedAt + validFor := by
    intro key d hd
    have := hkept.swept key d hd
    rwa [hkept.validFor] at this
  refine ⟨hswept, ?_⟩
  rintro thread filePath datum now before rfl key d hd
  -- the store is the last section of the run
  cases h with
  | @cons _ s₁ _ _ a hrun hstep =>
    rcases next_cases hstep with ⟨_, _, _, he, -⟩ |
      ⟨thread', filePath', datum', now', later, he, -, -, -, rfl⟩ | ⟨_, _, he, -⟩ | ⟨_, _, he, -⟩ |
      ⟨_, _, he, -⟩
    · cases he
    · obtain ⟨rfl, rfl, rfl, rfl⟩ := Event.stored.inj he
      have hrecent : now ≤ (s₁.cache.cache filePath datum now later).lastCacheScan + scanInterval :=
        hrun.retains.scanInterval ▸ le_lastCacheScan_cache
      calc
        now ≤ (s₁.cache.cache filePath datum now later).lastCacheScan + scanInterval := hrecent
        _ ≤ d.fetchedAt + validFor + scanInterval := Nat.add_le_add_right (hswept key d hd) _
        _ = d.fetchedAt + (scanInterval + validFor) := by omega
    · cases he
    · cases he
    · cases he

/-- A second store comes too early for a sweep: an entry stays that no look-up would return. -/
theorem fetchedAt_of_run_early :
    ∃ s : Shared ℕ, s.cache.cachedData [1] = some ⟨7, 2⟩ ∧ s.cache.getCached [1] 9 = none ∧
      s.cache.lastCacheScan ≤ 2 + 5 ∧ 9 ≤ 2 + (10 + 5) := by
  have hrun : Run (Shared.new 10 5 0) [.stored 0 [2] 8 9, .stored 0 [1] 7 2] _ :=
    .cons (.cache 0 [2] 8 9 9) (.cons (.cache 0 [1] 7 2 2) .nil rfl) rfl
  have hkept := fetchedAt_of_run hrun
  exact ⟨_, rfl, rfl, hkept.1 [1] ⟨7, 2⟩ rfl, hkept.2 0 [2] 8 9 _ rfl [1] ⟨7, 2⟩ rfl⟩

end TimedCache

end NandroidFS
