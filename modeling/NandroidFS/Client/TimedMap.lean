import NandroidFS.Client.TimedCache

/-!
# The cache as a timed map

What a `TimedCache` is for: a map in which an entry is there from the moment it was stored, until
it is overwritten, removed, or older than the cache allows.  `answer` says this of a list of calls,
each of them atomic.

The code is not that simple.  Old entries leave the map in a sweep with a clock reading of its own,
and `invalidate` looks under a shared lock first and erases under a unique lock later, with other
threads in between.  `next` is one section under the mutex, `Run` any interleaving of such sections.
`Event.call` places each call at the section with which it ends: a look-up, a store, an erasure, or
a first look of `invalidate` that finds nothing.  The main result, `getCached_eq_answer`, is that
every run answers as the map does.
-/

namespace NandroidFS

variable {T : Type}

/-! ## The map -/

/-- A call, as if it were one step. -/
inductive MapCall (T : Type) where
  | getCached (key : ByteString) (now : ℕ)
  | cache (key : ByteString) (datum : T) (now : ℕ)
  | invalidate (key : ByteString)

namespace MapCall

/-- The call decides what is under `key`. -/
def effective (key : ByteString) : MapCall T → Bool
  | .getCached _ _ => false
  | .cache key' _ _ => key' = key
  | .invalidate key' => key' = key

/-- The last effective call on `key`.  The latest call stands first. -/
def last (key : ByteString) (calls : List (MapCall T)) : Option (MapCall T) :=
  calls.find? (effective key)

/-- What a look-up at `t` finds, if `call` was the last effective call. -/
def answer (validFor t : ℕ) : Option (MapCall T) → Option T
  | some (.cache _ datum now) => if t - now ≤ validFor then some datum else none
  | _ => none

variable {key : ByteString} {calls : List (MapCall T)} {c : MapCall T} {validFor t : ℕ} {v : T}

theorem last_cons_of_effective (h : c.effective key = true) : last key (c :: calls) = some c := by
  unfold last
  rw [List.find?_cons_of_pos h]

theorem last_cons_of_not_effective (h : c.effective key = false) :
    last key (c :: calls) = last key calls := by
  unfold last
  rw [List.find?_cons_of_neg (by rw [h]; exact Bool.false_ne_true)]

/-- A look-up finds exactly what was stored last, if it is not too old. -/
theorem answer_last_eq_some :
    answer validFor t (last key calls) = some v ↔
      ∃ now, last key calls = some (.cache key v now) ∧ t - now ≤ validFor := by
  rcases hlast : last key calls with _ | c
  · simp [answer]
  · have heff : c.effective key = true := List.find?_some hlast
    cases c with
    | getCached key' now => simp [answer]
    | invalidate key' => simp [answer]
    | cache key' datum now =>
      obtain rfl : key' = key := by simpa [effective] using heff
      simp only [answer]
      constructor
      · intro h
        split at h
        · next hle => exact ⟨now, by rw [Option.some.inj h], hle⟩
        · cases h
      · rintro ⟨now', heq, hle⟩
        simp only [Option.some.injEq, MapCall.cache.injEq, true_and] at heq
        obtain ⟨rfl, rfl⟩ := heq
        exact if_pos hle

end MapCall

/-! ## Threads on the cache -/

namespace TimedCache

/-- The sections of code that a thread may run under the mutex, with the clock readings made in
them.  `invalidate` is the first look of that call, `erase` what it does when it has found
something. -/
inductive Act (T : Type) where
  | getCached (thread : ℕ) (key : ByteString) (now : ℕ)
  | cache (thread : ℕ) (key : ByteString) (datum : T) (now later : ℕ)
  | invalidate (thread : ℕ) (key : ByteString)
  | erase (thread : ℕ)

/-- A section that was run, with what it saw. -/
inductive Event (T : Type) where
  | got (thread : ℕ) (key : ByteString) (now : ℕ) (result : Option T)
  | stored (thread : ℕ) (key : ByteString) (datum : T) (now : ℕ)
  | found (thread : ℕ) (key : ByteString)
  | missed (thread : ℕ) (key : ByteString)
  | erased (thread : ℕ) (key : ByteString)
  deriving DecidableEq

def Event.thread : Event T → ℕ
  | .got thread _ _ _ => thread
  | .stored thread _ _ _ => thread
  | .found thread _ => thread
  | .missed thread _ => thread
  | .erased thread _ => thread

/-- The call that ends with the section. -/
def Event.call : Event T → Option (MapCall T)
  | .got _ key now _ => some (.getCached key now)
  | .stored _ key datum now => some (.cache key datum now)
  | .found _ _ => none
  | .missed _ key => some (.invalidate key)
  | .erased _ key => some (.invalidate key)

/-- The calls that have ended, the latest first. -/
def calls (log : List (Event T)) : List (MapCall T) :=
  log.filterMap Event.call

/-- A cache with its threads: the key that a thread is about to erase, and the last reading of the
clock. -/
structure Shared (T : Type) where
  cache : TimedCache T
  erasing : ℕ → Option ByteString
  clock : ℕ

def Shared.new (cacheScanInterval cachedItemValidFor now : ℕ) : Shared T where
  cache := .new cacheScanInterval cachedItemValidFor now
  erasing := fun _ => none
  clock := now

/-- One section.  A thread in the middle of `invalidate` makes no other call, and the clock does not
go back. -/
def next (s : Shared T) : Act T → Option (Event T × Shared T)
  | .getCached thread key now =>
      if s.erasing thread = none ∧ s.clock ≤ now then
        some (.got thread key now (s.cache.getCached key now), { s with clock := now })
      else none
  | .cache thread key datum now later =>
      if s.erasing thread = none ∧ s.clock ≤ now ∧ now ≤ later then
        some (.stored thread key datum now,
          { s with cache := s.cache.cache key datum now later, clock := later })
      else none
  | .invalidate thread key =>
      if s.erasing thread = none then
        if s.cache.contains key then
          some (.found thread key,
            { s with erasing := Function.update s.erasing thread (some key) })
        else some (.missed thread key, s)
      else none
  | .erase thread =>
      match s.erasing thread with
      | none => none
      | some key =>
          some (.erased thread key,
            { s with
              cache := s.cache.erase key
              erasing := Function.update s.erasing thread none })

/-- The runs of any number of threads, with their events, the latest first. -/
inductive Run (start : Shared T) : List (Event T) → Shared T → Prop
  | nil : Run start [] start
  | cons {log : List (Event T)} {s s' : Shared T} {e : Event T} (a : Act T) :
      Run start log s → next s a = some (e, s') → Run start (e :: log) s'

/-- **What a section does.** -/
theorem next_cases {s s' : Shared T} {a : Act T} {e : Event T} (h : next s a = some (e, s')) :
    (∃ thread key now, e = .got thread key now (s.cache.getCached key now) ∧
      s.erasing thread = none ∧ s.clock ≤ now ∧ s' = { s with clock := now }) ∨
    (∃ thread key datum now later, e = .stored thread key datum now ∧ s.erasing thread = none ∧
      s.clock ≤ now ∧ now ≤ later ∧
      s' = { s with cache := s.cache.cache key datum now later, clock := later }) ∨
    (∃ thread key, e = .found thread key ∧ s.erasing thread = none ∧
      s' = { s with erasing := Function.update s.erasing thread (some key) }) ∨
    (∃ thread key, e = .missed thread key ∧ s.erasing thread = none ∧
      s.cache.contains key = false ∧ s' = s) ∨
    (∃ thread key, e = .erased thread key ∧ s.erasing thread = some key ∧
      s' = { s with
        cache := s.cache.erase key
        erasing := Function.update s.erasing thread none }) := by
  cases a with
  | getCached thread key now =>
    simp only [next] at h
    split at h
    · next hguard =>
      obtain ⟨rfl, rfl⟩ := Prod.mk.inj (Option.some.inj h)
      exact Or.inl ⟨thread, key, now, rfl, hguard.1, hguard.2, rfl⟩
    · cases h
  | cache thread key datum now later =>
    simp only [next] at h
    split at h
    · next hguard =>
      obtain ⟨rfl, rfl⟩ := Prod.mk.inj (Option.some.inj h)
      exact Or.inr (Or.inl ⟨thread, key, datum, now, later, rfl, hguard.1, hguard.2.1,
        hguard.2.2, rfl⟩)
    · cases h
  | invalidate thread key =>
    simp only [next] at h
    split at h
    · next hidle =>
      split at h
      · obtain ⟨rfl, rfl⟩ := Prod.mk.inj (Option.some.inj h)
        exact Or.inr (Or.inr (Or.inl ⟨thread, key, rfl, hidle, rfl⟩))
      · next hmissed =>
        obtain ⟨rfl, rfl⟩ := Prod.mk.inj (Option.some.inj h)
        exact Or.inr (Or.inr (Or.inr (Or.inl ⟨thread, key, rfl, hidle,
          Bool.eq_false_iff.mpr hmissed, rfl⟩)))
    · cases h
  | erase thread =>
    rcases hkey : s.erasing thread with _ | key
    · simp only [next, hkey] at h
      cases h
    · simp only [next, hkey] at h
      obtain ⟨rfl, rfl⟩ := Prod.mk.inj (Option.some.inj h)
      exact Or.inr (Or.inr (Or.inr (Or.inr ⟨thread, key, rfl, hkey, rfl⟩)))

/-! ## The runs answer as the map -/

variable {start s s' : Shared T} {log : List (Event T)} {key : ByteString} {t : ℕ}

/-- The two agree on every look-up from now on. -/
def Agrees (validFor : ℕ) (s : Shared T) (log : List (Event T)) : Prop :=
  s.cache.cachedItemValidFor = validFor ∧
    ∀ key t, s.clock ≤ t →
      s.cache.getCached key t = MapCall.answer validFor t (MapCall.last key (calls log))

theorem calls_cons_of_call {e : Event T} {c : MapCall T} (h : e.call = some c) :
    calls (e :: log) = c :: calls log :=
  List.filterMap_cons_some h

theorem calls_cons_of_none {e : Event T} (h : e.call = none) : calls (e :: log) = calls log :=
  List.filterMap_cons_none h

theorem getCached_erase_of_ne {c : TimedCache T} {key' : ByteString} (h : key' ≠ key) (t : ℕ) :
    (c.erase key).getCached key' t = c.getCached key' t := by
  unfold getCached erase
  simp only [Function.update_of_ne h]

/-- A look-up changes nothing but the clock. -/
theorem Agrees.got {validFor thread now : ℕ} {result : Option T} (h : Agrees validFor s log)
    (hle : s.clock ≤ now) :
    Agrees validFor { s with clock := now } (.got thread key now result :: log) := by
  refine ⟨h.1, fun key' t ht => ?_⟩
  rw [calls_cons_of_call rfl, MapCall.last_cons_of_not_effective rfl]
  exact h.2 key' t (le_trans hle ht)

theorem Agrees.stored {validFor thread now later : ℕ} {datum : T} (h : Agrees validFor s log)
    (hnow : s.clock ≤ now) (hlater : now ≤ later) :
    Agrees validFor { s with cache := s.cache.cache key datum now later, clock := later }
      (.stored thread key datum now :: log) := by
  refine ⟨(cachedItemValidFor_cache).trans h.1, fun key' t ht => ?_⟩
  rw [calls_cons_of_call rfl, getCached_cache ht]
  split
  · next heq =>
    subst heq
    rw [MapCall.last_cons_of_effective (by simp [MapCall.effective]), MapCall.answer, h.1]
  · next hne =>
    have hother : (MapCall.cache key datum now).effective key' = false := by
      simp [MapCall.effective, Ne.symm hne]
    rw [MapCall.last_cons_of_not_effective hother]
    exact h.2 key' t (le_trans hnow (le_trans hlater ht))

/-- The first look of `invalidate` that finds something changes nothing yet. -/
theorem Agrees.found {validFor thread : ℕ} (h : Agrees validFor s log) :
    Agrees validFor { s with erasing := Function.update s.erasing thread (some key) }
      (.found thread key :: log) := by
  refine ⟨h.1, fun key' t ht => ?_⟩
  rw [calls_cons_of_none rfl]
  exact h.2 key' t ht

/-- Where `invalidate` finds nothing, a removal would change nothing: what the map may still hold
there is too old. -/
theorem Agrees.missed {validFor thread : ℕ} (h : Agrees validFor s log)
    (hmissed : s.cache.contains key = false) : Agrees validFor s (.missed thread key :: log) := by
  refine ⟨h.1, fun key' t ht => ?_⟩
  rw [calls_cons_of_call rfl]
  by_cases heq : key = key'
  · subst heq
    rw [MapCall.last_cons_of_effective (by simp [MapCall.effective]), MapCall.answer,
      getCached_of_not_contains hmissed]
    intro _ _ _ hcache
    cases hcache
  · rw [MapCall.last_cons_of_not_effective (by simp [MapCall.effective, heq])]
    exact h.2 key' t ht

theorem Agrees.erased {validFor thread : ℕ} {erasing : ℕ → Option ByteString}
    (h : Agrees validFor s log) :
    Agrees validFor { s with cache := s.cache.erase key, erasing := erasing }
      (.erased thread key :: log) := by
  refine ⟨h.1, fun key' t ht => ?_⟩
  rw [calls_cons_of_call rfl]
  by_cases heq : key = key'
  · subst heq
    rw [MapCall.last_cons_of_effective (by simp [MapCall.effective]), MapCall.answer]
    · exact getCached_erase_self t
    · intro _ _ _ hcache
      cases hcache
  · rw [MapCall.last_cons_of_not_effective (by simp [MapCall.effective, heq])]
    exact (getCached_erase_of_ne (Ne.symm heq) t).trans (h.2 key' t ht)

/-- **A section keeps the agreement.** -/
theorem Agrees.next {validFor : ℕ} {a : Act T} {e : Event T} (h : Agrees validFor s log)
    (hstep : next s a = some (e, s')) : Agrees validFor s' (e :: log) := by
  rcases next_cases hstep with ⟨thread, key, now, rfl, -, hle, rfl⟩ |
    ⟨thread, key, datum, now, later, rfl, -, hnow, hlater, rfl⟩ | ⟨thread, key, rfl, -, rfl⟩ |
    ⟨thread, key, rfl, -, hmissed, rfl⟩ | ⟨thread, key, rfl, -, rfl⟩
  · exact h.got hle
  · exact h.stored hnow hlater
  · exact h.found
  · exact h.missed hmissed
  · exact h.erased

theorem Run.agrees {scanInterval validFor now : ℕ}
    (h : Run (Shared.new scanInterval validFor now) log s) : Agrees validFor s log := by
  induction h with
  | nil => exact ⟨rfl, fun key t _ => rfl⟩
  | cons a _ hstep ih => exact ih.next hstep

/-- What stands before an event of a run is a run, and the event is the next section of it. -/
theorem Run.before {e : Event T} {before : List (Event T)} (after : List (Event T))
    (h : Run start (after ++ e :: before) s) :
    ∃ s₁ s₂ a, Run start before s₁ ∧ next s₁ a = some (e, s₂) := by
  induction after generalizing s with
  | nil =>
    cases h with
    | cons a hrun hstep => exact ⟨_, _, a, hrun, hstep⟩
  | cons e' after ih =>
    cases h with
    | cons a hrun hstep => exact ih hrun

/-- The last section that a thread ran. -/
def lastOf (thread : ℕ) (log : List (Event T)) : Option (Event T) :=
  log.find? fun e => e.thread = thread

theorem lastOf_cons_self (e : Event T) : lastOf e.thread (e :: log) = some e := by
  simp [lastOf]

theorem lastOf_cons_of_ne {e : Event T} {thread : ℕ} (h : e.thread ≠ thread) :
    lastOf thread (e :: log) = lastOf thread log := by
  simp [lastOf, h]

theorem ne_of_erasing {thread thread' : ℕ} (hidle : s.erasing thread' = none)
    (herasing : s.erasing thread = some key) : thread' ≠ thread := by
  rintro rfl
  rw [hidle] at herasing
  cases herasing

/-- A thread that is about to erase a key has just found it. -/
theorem Run.lastOf_erasing {scanInterval validFor now thread : ℕ}
    (h : Run (Shared.new scanInterval validFor now) log s)
    (herasing : s.erasing thread = some key) : lastOf thread log = some (.found thread key) := by
  induction h generalizing thread key with
  | nil => cases herasing
  | cons a _ hstep ih =>
    rcases next_cases hstep with ⟨thread', key', now, rfl, hidle, -, rfl⟩ |
      ⟨thread', key', datum, now, later, rfl, hidle, -, -, rfl⟩ | ⟨thread', key', rfl, hidle, rfl⟩ |
      ⟨thread', key', rfl, hidle, -, rfl⟩ | ⟨thread', key', rfl, -, rfl⟩
    · exact (lastOf_cons_of_ne (ne_of_erasing hidle herasing)).trans (ih herasing)
    · exact (lastOf_cons_of_ne (ne_of_erasing hidle herasing)).trans (ih herasing)
    · by_cases heq : thread = thread'
      · subst heq
        simp only [Function.update_self, Option.some.injEq] at herasing
        subst herasing
        exact lastOf_cons_self (.found thread key')
      · simp only [Function.update_of_ne heq] at herasing
        rw [lastOf_cons_of_ne (Ne.symm heq)]
        exact ih herasing
    · exact (lastOf_cons_of_ne (ne_of_erasing hidle herasing)).trans (ih herasing)
    · by_cases heq : thread = thread'
      · subst heq
        simp only [Function.update_self] at herasing
        cases herasing
      · simp only [Function.update_of_ne heq] at herasing
        rw [lastOf_cons_of_ne (Ne.symm heq)]
        exact ih herasing

/-- **The cache is a timed map.**  In every run of any number of threads, a look-up returns `v`
exactly if the last effective call on its key stored `v`, and not too long ago.  A sweep is never
seen by a later look-up.  An erasure belongs to the call that found the key: it is the next thing
its thread does, so that each call of `invalidate` is one removal. -/
theorem getCached_eq_answer {scanInterval validFor created : ℕ}
    (h : Run (Shared.new scanInterval validFor created) log s) :
    (∀ after before thread key t result, log = after ++ .got thread key t result :: before →
      ∀ v, result = some v ↔
        ∃ t₀, MapCall.last key (calls before) = some (.cache key v t₀) ∧ t - t₀ ≤ validFor) ∧
    (∀ key now t, now ≤ t → (s.cache.cleanCache now).getCached key t = s.cache.getCached key t) ∧
    (∀ after before thread key, log = after ++ .erased thread key :: before →
      lastOf thread before = some (.found thread key)) := by
  refine ⟨?_, fun key now t hle => getCached_cleanCache hle, ?_⟩
  · rintro after before thread key t result rfl v
    obtain ⟨s₁, s₂, a, hrun, hstep⟩ := h.before after
    rcases next_cases hstep with ⟨thread', key', now, he, -, hle, rfl⟩ |
      ⟨_, _, _, _, _, he, -⟩ | ⟨_, _, he, -⟩ | ⟨_, _, he, -⟩ | ⟨_, _, he, -⟩
    · obtain ⟨rfl, rfl, rfl, rfl⟩ := Event.got.inj he
      rw [hrun.agrees.2 key t hle]
      exact MapCall.answer_last_eq_some
    all_goals cases he
  · rintro after before thread key rfl
    obtain ⟨s₁, s₂, a, hrun, hstep⟩ := h.before after
    rcases next_cases hstep with ⟨_, _, _, he, -⟩ | ⟨_, _, _, _, _, he, -⟩ | ⟨_, _, he, -⟩ |
      ⟨_, _, he, -⟩ | ⟨thread', key', he, herasing, -⟩
    · cases he
    · cases he
    · cases he
    · cases he
    · obtain ⟨rfl, rfl⟩ := Event.erased.inj he
      exact hrun.lastOf_erasing herasing

/-- One thread stores, a second begins to remove, the first stores again, and the second erases what
it did not find: the removal counts where it is made, and a look-up after a third store finds that
one. -/
theorem getCached_eq_answer_interleaved :
    ∃ t₀, MapCall.last [1] (calls [.stored 0 [1] 9 4, .erased 1 [1], .stored 0 [1] 8 3,
      .found 1 [1], .stored 0 [1] 7 2]) = some (.cache [1] 9 t₀) ∧ 6 - t₀ ≤ 5 := by
  have hrun : Run (Shared.new 10 5 0) [.got 0 [1] 6 (some 9), .stored 0 [1] 9 4, .erased 1 [1],
      .stored 0 [1] 8 3, .found 1 [1], .stored 0 [1] 7 2] _ :=
    .cons (.getCached 0 [1] 6) (.cons (.cache 0 [1] 9 4 4) (.cons (.erase 1)
      (.cons (.cache 0 [1] 8 3 3) (.cons (.invalidate 1 [1])
        (.cons (.cache 0 [1] 7 2 2) .nil rfl) rfl) rfl) rfl) rfl) rfl
  exact ((getCached_eq_answer hrun).1 [] _ 0 [1] 6 (some 9) rfl 9).mp rfl

end TimedCache

end NandroidFS
