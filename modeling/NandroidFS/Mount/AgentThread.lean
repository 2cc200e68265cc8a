import NandroidFS.Mount.AgentOutput
import NandroidFS.Mount.Nandroid
import NandroidFS.Streams.Runs

/-!
# The thread of the agent

`Nandroid::begin` starts `invoke_daemon` in a thread of its own and sleeps on `cv_agent_ready` until
that thread has either seen the line that says ready or come to its end.  It keeps
`mtx_agent_ready` from then on until it returns or raises, through the connection and the mounting
of the drive.  The destructor sleeps on `cv_agent_dead` for two seconds at most, and then joins the
thread.

A `Launch` is one `Nandroid` with these two threads.  `ownerStep` and `agentStep` are what each of
them does next, one section under the lock at a time; the pipe of `adb`, time and spurious wake-ups
are outside.  Where the owner has the lock, the agent's thread has to wait for it: this is seen from
where the owner is.

What the owner does between two sections is one step, and that it ends is assumed: the calls of `adb
push`, `adb forward` and `pkill`, the connection with its handshake, and the mounting and unmounting
of the drive.  A daemon that accepts and does not answer would keep `begin` in `recv`, and the lock
with it.

* `Launch.Inv`, `Launch.Inv.step`: the invariant.
* `Launch.begin_agrees`: the `begin` of two threads is the `begin` of one, on an agent that is ready
  only if it has said so.
* `Launch.waits_for_adb`: as long as these calls return, neither thread ever waits for anything but
  the output of `adb`.
-/

namespace NandroidFS

/-- Where the thread is that calls `begin` and, later, the destructor. -/
inductive OwnerPc where
  /-- The steps of `begin` before the thread is started. -/
  | preparing
  /-- About to lock `mtx_agent_ready` and to look at `agent_ready_notified`. -/
  | looking
  /-- In `cv_agent_ready.wait`. -/
  | asleep
  /-- In the constructor of `Connection`, which is assumed to return or to raise. -/
  | connecting
  | mounting
  | begun
  | raised (e : Failure)
  /-- The destructor closes the drive and the connection. -/
  | closing
  /-- About to lock `mtx_agent_ready` and to look at `agent_dead_notified`. -/
  | checking
  /-- In `cv_agent_dead.wait_for`. -/
  | dozing
  | timedOut
  /-- `adb shell pkill nandroid-daemon`. -/
  | killing
  | joining
  | destroyed
  /-- `join` has raised in the destructor. -/
  | terminated
  deriving DecidableEq

/-- Where `invoke_daemon` is. -/
inductive AgentPc where
  | notStarted
  /-- In `ReadFile`. -/
  | reading
  /-- In the loop of `handle_daemon_output`, with the texts that are left. -/
  | handling (texts : List ByteString)
  /-- `adb` has come to its end, or could not be invoked. -/
  | ended
  | finished
  deriving DecidableEq

/-- A `Nandroid` with its two threads.  `chunks` is what has come through the pipe, and `killed`
says that `pkill` has been tried. -/
structure Launch where
  nandroid : Nandroid
  out : AgentOutput
  agentDeadNotified : Bool
  owner : OwnerPc
  agent : AgentPc
  killed : Bool
  chunks : List ByteString
  deriving DecidableEq

namespace Launch

def start (n : Nandroid) : Launch where
  nandroid := n
  out := .new
  agentDeadNotified := false
  owner := .preparing
  agent := .notStarted
  killed := false
  chunks := []

/-- The owner has `mtx_agent_ready`. -/
def Locked : OwnerPc → Prop
  | .connecting => True
  | .mounting => True
  | .killing => True
  | _ => False

instance : DecidablePred Locked := fun pc => by
  cases pc <;> unfold Locked <;> infer_instance

/-- `cv_agent_ready.notify_one`; nobody else waits. -/
def wakeReady : OwnerPc → OwnerPc
  | .asleep => .looking
  | pc => pc

/-- `cv_agent_dead.notify_all`. -/
def wakeDead : OwnerPc → OwnerPc
  | .dozing => .checking
  | pc => pc

/-- The first of the steps before the thread that fails. -/
def earlyFailure (a : Attempt) : Option Failure :=
  if !a.agentPath then some .agentPath
  else if !a.push then some .push
  else if !a.chmod then some .chmod
  else if !a.forward then some .forward
  else none

/-- `begin` after the wait. -/
def afterWait (s : Launch) : Launch :=
  let s := { s with out := { s.out with agentReadyNotified := false } }
  if s.out.agentReady then { s with owner := .connecting }
  else { s with owner := .raised .agentNotReady }

/-- **What `begin` and the destructor do next**; `none` where they wait or are done. -/
def ownerStep (a : Attempt) (s : Launch) : Option Launch :=
  match s.owner with
  | .preparing =>
      match earlyFailure a with
      | some e => some { s with owner := .raised e }
      | none => some { s with
          owner := .looking, agent := .reading
          nandroid := { s.nandroid with agentInvokeThread := true } }
  | .looking =>
      if s.out.agentReadyNotified then some s.afterWait else some { s with owner := .asleep }
  | .asleep => none
  | .connecting =>
      if a.connects then some { s with
        owner := .mounting, nandroid := { s.nandroid with connection := true } }
      else some { s with owner := .raised .connection }
  | .mounting =>
      match mountFilesystem a.create driveLetters with
      | .error e => some { s with owner := .raised (.mount e) }
      | .ok _ => some { s with
          owner := .begun, nandroid := { s.nandroid with mounted := true } }
  | .begun => none
  | .raised _ => some { s with owner := .closing }
  | .closing => some { s with
      owner := .checking, nandroid := { s.nandroid with connection := false, mounted := false } }
  | .checking =>
      if s.agentDeadNotified then some { s with owner := .joining }
      else some { s with owner := .dozing }
  | .dozing => none
  | .timedOut =>
      if s.agentDeadNotified then some { s with owner := .joining }
      else some { s with owner := .killing }
  | .killing => some { s with owner := .joining, killed := true }
  | .joining =>
      if !s.nandroid.joins then some { s with owner := .terminated }
      else if s.agent = .finished then some { s with owner := .destroyed }
      else none
  | .destroyed => none
  | .terminated => none

/-- **What `invoke_daemon` does next**; `none` where it waits for the pipe or for the lock, or is
done.  The lock is taken for a line that says ready, and at the end. -/
def agentStep (s : Launch) : Option Launch :=
  match s.agent with
  | .notStarted => none
  | .reading => none
  | .handling [] => some { s with
      agent := .reading
      out := { s.out with
        agentOutputBuffer := Lines.unfinished newline s.out.agentOutputBuffer } }
  | .handling (text :: texts) =>
      if AGENT_READY_MSG.isPrefixOf text then
        if Locked s.owner then none
        else some { s with
          agent := .handling texts, out := s.out.handleLine text, owner := wakeReady s.owner }
      else some { s with agent := .handling texts, out := s.out.handleLine text }
  | .ended =>
      if Locked s.owner then none
      else some { s with
        agent := .finished, agentDeadNotified := true
        out := { s.out with agentReady := false, agentReadyNotified := true }
        owner := wakeDead (wakeReady s.owner) }
  | .finished => none

/-- A step of one of the two threads.  The two seconds of the destructor pass by themselves. -/
inductive Moves (a : Attempt) : Launch → Launch → Prop
  | owner {s s' : Launch} (h : s.ownerStep a = some s') : Moves a s s'
  | agent {s s' : Launch} (h : s.agentStep = some s') : Moves a s s'
  | timeout {s : Launch} (h : s.owner = .dozing) : Moves a s { s with owner := .timedOut }

/-- What comes from outside: output of the agent, the end of `adb`, somebody who deletes the object,
and wake-ups without a reason. -/
inductive Outside : Launch → Launch → Prop
  | chunk {s : Launch} (h : s.agent = .reading) (c : ByteString) :
      Outside s { s with
        agent := .handling (AgentOutput.callTexts (s.out.agentOutputBuffer ++ c))
        out := { s.out with agentOutputBuffer := s.out.agentOutputBuffer ++ c }
        chunks := s.chunks ++ [c] }
  | ends {s : Launch} (h : s.agent = .reading) : Outside s { s with agent := .ended }
  | delete {s : Launch} (h : s.owner = .begun) : Outside s { s with owner := .closing }
  | wakesReady {s : Launch} (h : s.owner = .asleep) : Outside s { s with owner := .looking }
  | wakesDead {s : Launch} (h : s.owner = .dozing) : Outside s { s with owner := .checking }

/-- A step. -/
inductive Step (a : Attempt) : Launch → Launch → Prop
  | moves {s s' : Launch} (h : Moves a s s') : Step a s s'
  | outside {s s' : Launch} (h : Outside s s') : Step a s s'

/-! ## `begin` in one thread -/

variable {a : Attempt} {n : Nandroid}

theorem ne_agentNotReady_of_earlyFailure {e : Failure} (h : earlyFailure a = some e) :
    e ≠ .agentNotReady := by
  unfold earlyFailure at h
  rintro rfl
  split_ifs at h <;> cases h

theorem begin_of_earlyFailure {e : Failure} (h : earlyFailure a = some e) (ready : Bool) :
    n.begin { a with agentReady := ready } = (.error e, n) := by
  unfold earlyFailure at h
  unfold Nandroid.begin
  split_ifs at h ⊢ <;> simp_all

/-- What `begin` does once the agent has been started. -/
theorem begin_of_earlyFailure_eq_none (h : earlyFailure a = none) (ready : Bool) :
    n.begin { a with agentReady := ready } =
      if ready then
        if a.connects then
          match mountFilesystem a.create driveLetters with
          | .error e =>
              (.error (.mount e), { n with agentInvokeThread := true, connection := true })
          | .ok _ =>
              (.ok (), { n with agentInvokeThread := true, connection := true, mounted := true })
        else (.error .connection, { n with agentInvokeThread := true })
      else (.error .agentNotReady, { n with agentInvokeThread := true }) := by
  unfold earlyFailure at h
  unfold Nandroid.begin
  split_ifs at h with h₁ h₂ h₃ h₄
  rw [if_neg h₁, if_neg h₂, if_neg h₃, if_neg h₄]
  cases ready with
  | false => rfl
  | true =>
    cases a.connects with
    | false => rfl
    | true => rfl

/-! ## The invariant -/

/-- A line of the output says ready. -/
def Printed (s : Launch) : Prop :=
  ∃ line ∈ Lines.ended newline s.chunks.flatten, AGENT_READY_MSG <+: line

/-- A line is there as soon as the chunk with its newline is, and its text is among those of that
chunk. -/
theorem printed_append_iff (chunks : List ByteString) (c : ByteString) :
    (∃ line ∈ Lines.ended newline (chunks ++ [c]).flatten, AGENT_READY_MSG <+: line) ↔
      (∃ line ∈ Lines.ended newline chunks.flatten, AGENT_READY_MSG <+: line) ∨
        ∃ text ∈ AgentOutput.callTexts (Lines.unfinished newline chunks.flatten ++ c),
          AGENT_READY_MSG <+: text := by
  rw [AgentOutput.ended_flatten_append, AgentOutput.callTexts, AgentOutput.exists_taken_iff]
  simp only [List.mem_append, or_and_right, exists_or]
  rfl

/-- The buffer and the texts that are left of it. -/
def Buffered (s : Launch) : Prop :=
  match s.agent with
  | .handling texts =>
      Lines.unfinished newline s.out.agentOutputBuffer =
          Lines.unfinished newline s.chunks.flatten ∧
        ∀ text ∈ texts, AGENT_READY_MSG <+: text → s.Printed
  | _ => s.out.agentOutputBuffer = Lines.unfinished newline s.chunks.flatten

/-- What the flags mean. -/
structure Flags (s : Launch) : Prop where
  ready : s.out.agentReady = true → s.Printed ∧ s.agent ≠ .finished
  notified : s.out.agentReadyNotified = true → s.out.agentReady = true ∨ s.agent = .finished
  dead : s.agentDeadNotified = true ↔ s.agent = .finished

/-- The owner is in the wait of `begin`. -/
def Waiting : OwnerPc → Prop
  | .looking => True
  | .asleep => True
  | _ => False

/-- The agent's thread has a text before it that says ready. -/
def Pending (s : Launch) : Prop :=
  ∃ texts, s.agent = .handling texts ∧ ∃ text ∈ texts, AGENT_READY_MSG <+: text

/-- **No wake-up is lost**: who sleeps is yet to be notified, and as long as `begin` waits the flag
is up if the agent is ready or dead. -/
structure Alert (s : Launch) : Prop where
  asleep : s.owner = .asleep → s.out.agentReadyNotified = false
  dozing : s.owner = .dozing → s.agentDeadNotified = false
  ended : Waiting s.owner → s.agent = .finished → s.out.agentReadyNotified = true
  heard : Waiting s.owner → s.Printed → s.out.agentReadyNotified = true ∨ s.Pending

/-- How far the owner has got, and with what. -/
def Stage (n : Nandroid) (a : Attempt) (s : Launch) : Prop :=
  match s.owner with
  | .preparing => s.nandroid = n
  | .looking => earlyFailure a = none ∧ s.nandroid = { n with agentInvokeThread := true }
  | .asleep => earlyFailure a = none ∧ s.nandroid = { n with agentInvokeThread := true }
  | .connecting => earlyFailure a = none ∧ s.nandroid = { n with agentInvokeThread := true } ∧
      s.Printed ∧ s.agent ≠ .finished
  | .mounting => earlyFailure a = none ∧ a.connects = true ∧
      s.nandroid = { n with agentInvokeThread := true, connection := true } ∧ s.Printed ∧
      s.agent ≠ .finished
  | .begun => s.Printed ∧ n.begin { a with agentReady := true } = (.ok (), s.nandroid)
  | .raised e => ∃ ready, (ready = true → s.Printed) ∧
      (e = .agentNotReady → s.agent = .finished) ∧
      n.begin { a with agentReady := ready } = (.error e, s.nandroid)
  | .closing => True
  | .checking => s.nandroid.connection = false ∧ s.nandroid.mounted = false
  | .dozing => s.nandroid.connection = false ∧ s.nandroid.mounted = false
  | .timedOut => s.nandroid.connection = false ∧ s.nandroid.mounted = false
  | .killing => s.nandroid.connection = false ∧ s.nandroid.mounted = false
  | .joining => s.nandroid.connection = false ∧ s.nandroid.mounted = false ∧
      (s.killed = true ∨ s.agent = .finished)
  | .destroyed => s.nandroid.connection = false ∧ s.nandroid.mounted = false ∧
      s.agent = .finished
  | .terminated => earlyFailure a ≠ none

/-- The thread has been started unless a step before it fails. -/
structure Started (a : Attempt) (s : Launch) : Prop where
  thread : s.agent = .notStarted ↔ s.nandroid.agentInvokeThread = false
  early : s.agent = .notStarted → s.owner = .preparing ∨ earlyFailure a ≠ none
  silent : s.agent = .notStarted → s.chunks = []

/-- **The invariant.** -/
structure Inv (n : Nandroid) (a : Attempt) (s : Launch) : Prop where
  buffered : s.Buffered
  flags : s.Flags
  alert : s.Alert
  stage : s.Stage n a
  started : s.Started a

variable {s s' : Launch}

theorem not_printed_of_chunks_eq_nil (h : s.chunks = []) : ¬s.Printed := by
  rintro ⟨line, hline, -⟩
  rw [h] at hline
  exact List.not_mem_nil hline

theorem inv_start (hn : n.agentInvokeThread = false) : Inv n a (start n) where
  buffered := (Lines.unfinished_of_notMem List.not_mem_nil).symm
  flags := ⟨nofun, nofun, ⟨nofun, nofun⟩⟩
  alert := ⟨nofun, nofun, fun h => h.elim, fun h => h.elim⟩
  stage := rfl
  started := ⟨⟨fun _ => hn, fun _ => rfl⟩, fun _ => .inl rfl, fun _ => rfl⟩

/-! ### The owner moves -/

/-- The owner leaves the wait, or moves on outside it. -/
theorem Inv.of_owner (h : Inv n a s) {pc : OwnerPc} {m : Nandroid} {k : Bool}
    (hstage : Stage n a { s with owner := pc, nandroid := m, killed := k })
    (hwaiting : ¬Waiting pc) (hdozing : pc = .dozing → s.agentDeadNotified = false)
    (hthread : m.agentInvokeThread = s.nandroid.agentInvokeThread)
    (hearly : s.agent = .notStarted → earlyFailure a ≠ none) :
    Inv n a { s with owner := pc, nandroid := m, killed := k } where
  buffered := h.buffered
  flags := ⟨h.flags.ready, h.flags.notified, h.flags.dead⟩
  alert := by
    refine ⟨fun hpc => ?_, hdozing, fun hpc => (hwaiting hpc).elim, fun hpc => (hwaiting hpc).elim⟩
    obtain rfl : pc = .asleep := hpc
    exact (hwaiting trivial).elim
  stage := hstage
  started := ⟨h.started.thread.trans (by rw [hthread]), fun hns => .inr (hearly hns),
    h.started.silent⟩

/-- Past the wait of `begin`, and not asleep. -/
def Awake : OwnerPc → Prop
  | .preparing => False
  | .looking => False
  | .asleep => False
  | .dozing => False
  | _ => True

/-- The owner moves on, from one place where it is awake to another. -/
theorem Inv.goes (h : Inv n a s) (ho : Awake s.owner) {pc : OwnerPc} {m : Nandroid} {k : Bool}
    (hpc : Awake pc) (hthread : m.agentInvokeThread = s.nandroid.agentInvokeThread)
    (hstage : Stage n a { s with owner := pc, nandroid := m, killed := k }) :
    Inv n a { s with owner := pc, nandroid := m, killed := k } := by
  refine h.of_owner hstage (fun hw => ?_) (fun hd => ?_) hthread fun hns => ?_
  · cases pc with
    | looking => exact hpc
    | asleep => exact hpc
    | _ => exact hw
  · rw [hd] at hpc
    exact hpc.elim
  · refine (h.started.early hns).resolve_left fun hprep => ?_
    rw [hprep] at ho
    exact ho

/-- The thread is started. -/
theorem Inv.starts (h : Inv n a s) (hn : n.agentInvokeThread = false) (ho : s.owner = .preparing)
    (he : earlyFailure a = none) :
    Inv n a { s with
      owner := .looking, agent := .reading
      nandroid := { s.nandroid with agentInvokeThread := true } } := by
  have hm : s.nandroid = n := by
    have hstage := h.stage
    unfold Stage at hstage
    rwa [ho] at hstage
  have hns : s.agent = .notStarted := h.started.thread.mpr (by rw [hm, hn])
  have hchunks := h.started.silent hns
  have hbuffer := h.buffered
  unfold Buffered at hbuffer
  rw [hns] at hbuffer
  refine ⟨hbuffer, ⟨fun hr => ?_, fun hr => ?_, ?_⟩, ⟨fun hr => ?_, fun hr => ?_, fun _ hr => ?_,
    fun _ hr => ?_⟩, ⟨he, ?_⟩, ⟨?_, fun hr => ?_, fun hr => ?_⟩⟩
  · exact absurd (h.flags.ready hr).1 (not_printed_of_chunks_eq_nil hchunks)
  · rcases h.flags.notified hr with hready | hfin
    · exact .inl hready
    · rw [hns] at hfin
      cases hfin
  · rw [h.flags.dead, hns]
    exact ⟨nofun, nofun⟩
  · cases hr
  · cases hr
  · cases hr
  · exact absurd hr (not_printed_of_chunks_eq_nil hchunks)
  · rw [hm]
  · exact ⟨nofun, nofun⟩
  · cases hr
  · cases hr

/-- The owner looks at the flag that it has been waiting for. -/
theorem Inv.looks (h : Inv n a s) (ho : s.owner = .looking)
    (hnotified : s.out.agentReadyNotified = true) : Inv n a s.afterWait := by
  have hstage := h.stage
  unfold Stage at hstage
  rw [ho] at hstage
  obtain ⟨he, hm⟩ := hstage
  have hstarted : s.agent ≠ .notStarted := fun hns => by
    have := h.started.thread.mp hns
    rw [hm] at this
    cases this
  have hearly : ∀ pc, s.agent = .notStarted → pc = OwnerPc.preparing ∨ earlyFailure a ≠ none :=
    fun pc hns => absurd hns hstarted
  unfold afterWait
  by_cases hready : s.out.agentReady = true
  · obtain ⟨hprinted, hfin⟩ := h.flags.ready hready
    simp only [hready, if_true]
    exact ⟨h.buffered, ⟨fun _ => ⟨hprinted, hfin⟩, fun hr => (Bool.false_ne_true hr).elim,
      h.flags.dead⟩, ⟨nofun, nofun, fun hr => hr.elim,
      fun hr => hr.elim⟩, ⟨he, hm, hprinted, hfin⟩, ⟨h.started.thread, hearly _, h.started.silent⟩⟩
  · have hfin := (h.flags.notified hnotified).resolve_left hready
    simp only [hready, Bool.false_eq_true, if_false]
    refine ⟨h.buffered, ⟨fun hr => (Bool.false_ne_true hr).elim,
      fun hr => (Bool.false_ne_true hr).elim, h.flags.dead⟩, ⟨nofun, nofun, fun hr => hr.elim,
      fun hr => hr.elim⟩, ⟨false, nofun, fun _ => hfin, ?_⟩,
      ⟨h.started.thread, hearly _, h.started.silent⟩⟩
    rw [begin_of_earlyFailure_eq_none he, hm]
    rfl

/-- **A step of the owner keeps the invariant.** -/
theorem Inv.ownerStep (h : Inv n a s) (hn : n.agentInvokeThread = false)
    (hs : s.ownerStep a = some s') : Inv n a s' := by
  have hstage := h.stage
  unfold Stage at hstage
  unfold Launch.ownerStep at hs
  split at hs
  next ho =>
    rw [ho] at hstage
    obtain rfl : s.nandroid = n := hstage
    rcases he : earlyFailure a with _ | e
    · simp only [he, Option.some.injEq] at hs
      subst hs
      exact h.starts hn ho he
    · simp only [he, Option.some.injEq] at hs
      subst hs
      refine h.of_owner (m := s.nandroid) (k := s.killed) ⟨false, nofun, fun hne => ?_,
        begin_of_earlyFailure he false⟩ id nofun rfl (fun _ => ?_)
      · exact absurd hne (ne_agentNotReady_of_earlyFailure he)
      · rw [he]
        exact Option.some_ne_none e
  next ho =>
    split at hs
    next hnotified =>
      obtain rfl := Option.some.inj hs
      exact h.looks ho hnotified
    next hnotified =>
      obtain rfl := Option.some.inj hs
      rw [ho] at hstage
      refine ⟨h.buffered, ⟨h.flags.ready, h.flags.notified, h.flags.dead⟩,
        ⟨fun _ => Bool.eq_false_iff.mpr hnotified, nofun,
          fun _ => h.alert.ended (by rw [ho]; trivial),
          fun _ => h.alert.heard (by rw [ho]; trivial)⟩, hstage,
        ⟨h.started.thread, fun hns => .inr ?_, h.started.silent⟩⟩
      exact (h.started.early hns).resolve_left (by rw [ho]; nofun)
  next ho => cases hs
  next ho =>
    rw [ho] at hstage
    obtain ⟨he, hm, hprinted, hfin⟩ := hstage
    have hawake : Awake s.owner := by rw [ho]; trivial
    have hbegin := begin_of_earlyFailure_eq_none (n := n) he true
    split at hs
    next hconnects =>
      obtain rfl := Option.some.inj hs
      exact h.goes hawake (k := s.killed) trivial rfl ⟨he, hconnects, by rw [hm], hprinted, hfin⟩
    next hconnects =>
      obtain rfl := Option.some.inj hs
      refine h.goes hawake (m := s.nandroid) (k := s.killed) trivial rfl
        ⟨true, fun _ => hprinted, nofun, ?_⟩
      rw [hbegin, if_pos rfl, if_neg hconnects, hm]
  next ho =>
    rw [ho] at hstage
    obtain ⟨he, hconnects, hm, hprinted, hfin⟩ := hstage
    have hawake : Awake s.owner := by rw [ho]; trivial
    have hbegin := begin_of_earlyFailure_eq_none (n := n) he true
    rw [if_pos rfl, if_pos hconnects] at hbegin
    rcases hmount : mountFilesystem a.create driveLetters with e | letter
    · rw [hmount] at hs hbegin
      obtain rfl := Option.some.inj hs
      exact h.goes hawake (m := s.nandroid) (k := s.killed) trivial rfl
        ⟨true, fun _ => hprinted, nofun, by rw [hbegin, hm]⟩
    · rw [hmount] at hs hbegin
      obtain rfl := Option.some.inj hs
      exact h.goes hawake (k := s.killed) trivial rfl ⟨hprinted, by rw [hbegin, hm]⟩
  next ho => cases hs
  next e ho =>
    obtain rfl := Option.some.inj hs
    exact h.goes (by rw [ho]; trivial) (m := s.nandroid) (k := s.killed) trivial rfl trivial
  next ho =>
    obtain rfl := Option.some.inj hs
    exact h.goes (by rw [ho]; trivial) (k := s.killed) trivial rfl ⟨rfl, rfl⟩
  next ho =>
    rw [ho] at hstage
    have hawake : Awake s.owner := by rw [ho]; trivial
    split at hs
    next hdead =>
      obtain rfl := Option.some.inj hs
      exact h.goes hawake (m := s.nandroid) (k := s.killed) trivial rfl
        ⟨hstage.1, hstage.2, .inr (h.flags.dead.mp hdead)⟩
    next hdead =>
      obtain rfl := Option.some.inj hs
      refine h.of_owner (m := s.nandroid) (k := s.killed) hstage id
        (fun _ => Bool.eq_false_iff.mpr hdead) rfl fun hns => ?_
      exact (h.started.early hns).resolve_left (by rw [ho]; nofun)
  next ho => cases hs
  next ho =>
    rw [ho] at hstage
    have hawake : Awake s.owner := by rw [ho]; trivial
    split at hs
    next hdead =>
      obtain rfl := Option.some.inj hs
      exact h.goes hawake (m := s.nandroid) (k := s.killed) trivial rfl
        ⟨hstage.1, hstage.2, .inr (h.flags.dead.mp hdead)⟩
    next hdead =>
      obtain rfl := Option.some.inj hs
      exact h.goes hawake (m := s.nandroid) (k := s.killed) trivial rfl hstage
  next ho =>
    rw [ho] at hstage
    obtain rfl := Option.some.inj hs
    exact h.goes (by rw [ho]; trivial) (m := s.nandroid) trivial rfl
      ⟨hstage.1, hstage.2, .inl rfl⟩
  next ho =>
    rw [ho] at hstage
    have hawake : Awake s.owner := by rw [ho]; trivial
    split at hs
    next hjoins =>
      obtain rfl := Option.some.inj hs
      have hns : s.agent = .notStarted :=
        h.started.thread.mpr ((Bool.not_eq_true' _).mp hjoins)
      exact h.goes hawake (m := s.nandroid) (k := s.killed) trivial rfl
        ((h.started.early hns).resolve_left (by rw [ho]; nofun))
    next hjoins =>
      split at hs
      next hfin =>
        obtain rfl := Option.some.inj hs
        exact h.goes hawake (m := s.nandroid) (k := s.killed) trivial rfl
          ⟨hstage.1, hstage.2.1, hfin⟩
      next => cases hs
  next ho => cases hs
  next ho => cases hs

/-! ### The agent's thread moves -/

/-- A thread that has been started stays so. -/
theorem Started.stays (h : s.Started a) (hne : s.agent ≠ .notStarted)
    (hne' : s'.agent ≠ .notStarted) (hm : s'.nandroid = s.nandroid) : s'.Started a where
  thread := by
    rw [hm]
    exact (iff_of_false hne' fun hthread => hne (h.thread.mpr hthread))
  early hns := (hne' hns).elim
  silent hns := (hne' hns).elim

/-- What the agent's thread does leaves the owner where it is.  It may announce its end only while
it can have the lock. -/
theorem Stage.mono (h : s.Stage n a) (ho : s'.owner = s.owner) (hm : s'.nandroid = s.nandroid)
    (hk : s'.killed = s.killed) (hp : s.Printed → s'.Printed)
    (hf : s.agent = .finished → s'.agent = .finished)
    (hl : Locked s.owner → s.agent ≠ .finished → s'.agent ≠ .finished) : s'.Stage n a := by
  unfold Stage at h ⊢
  rw [ho, hm, hk]
  split
  next howner => rwa [howner] at h
  next howner => rwa [howner] at h
  next howner => rwa [howner] at h
  next howner =>
    rw [howner] at h hl
    exact ⟨h.1, h.2.1, hp h.2.2.1, hl trivial h.2.2.2⟩
  next howner =>
    rw [howner] at h hl
    exact ⟨h.1, h.2.1, h.2.2.1, hp h.2.2.2.1, hl trivial h.2.2.2.2⟩
  next howner =>
    rw [howner] at h
    exact ⟨hp h.1, h.2⟩
  next e howner =>
    rw [howner] at h
    obtain ⟨ready, hready, hnot, hbegin⟩ := h
    exact ⟨ready, fun hr => hp (hready hr), fun he => hf (hnot he), hbegin⟩
  next howner => trivial
  next howner => rwa [howner] at h
  next howner => rwa [howner] at h
  next howner => rwa [howner] at h
  next howner => rwa [howner] at h
  next howner =>
    rw [howner] at h
    exact ⟨h.1, h.2.1, h.2.2.imp id hf⟩
  next howner =>
    rw [howner] at h
    exact ⟨h.1, h.2.1, hf h.2.2⟩
  next howner => rwa [howner] at h

theorem Stage.wakeReady (h : s.Stage n a) :
    Stage n a { s with owner := Launch.wakeReady s.owner } := by
  rcases hs : s with ⟨m, out, dead, owner, agent, killed, chunks⟩
  rw [hs] at h
  cases owner <;> exact h

theorem Stage.wakeDead (h : s.Stage n a) :
    Stage n a { s with owner := Launch.wakeDead s.owner } := by
  rcases hs : s with ⟨m, out, dead, owner, agent, killed, chunks⟩
  rw [hs] at h
  cases owner <;> exact h

theorem wakeReady_ne_asleep (pc : OwnerPc) : wakeReady pc ≠ .asleep := by
  cases pc <;> simp [wakeReady]

theorem wakeReady_eq_dozing_iff {pc : OwnerPc} : wakeReady pc = .dozing ↔ pc = .dozing := by
  cases pc <;> simp [wakeReady]

theorem wakeDead_ne_dozing (pc : OwnerPc) : wakeDead pc ≠ .dozing := by
  cases pc <;> simp [wakeDead]

theorem wakeDead_eq_asleep_iff {pc : OwnerPc} : wakeDead pc = .asleep ↔ pc = .asleep := by
  cases pc <;> simp [wakeDead]

variable {text : ByteString} {texts : List ByteString}

theorem handleLine_of_prefix (out : AgentOutput) (h : AGENT_READY_MSG <+: text) :
    (out.handleLine text).agentReady = true ∧ (out.handleLine text).agentReadyNotified = true := by
  simp [AgentOutput.handleLine, List.isPrefixOf_iff_prefix.mpr h]

theorem handleLine_of_not_prefix (out : AgentOutput) (h : ¬AGENT_READY_MSG <+: text) :
    (out.handleLine text).agentReady = out.agentReady ∧
      (out.handleLine text).agentReadyNotified = out.agentReadyNotified := by
  have hfalse : AGENT_READY_MSG.isPrefixOf text = false := by
    rw [← Bool.not_eq_true, List.isPrefixOf_iff_prefix]
    exact h
  simp [AgentOutput.handleLine, hfalse]

/-- A text that says ready. -/
theorem Inv.handlesReady (h : Inv n a s) (hagent : s.agent = .handling (text :: texts))
    (htext : AGENT_READY_MSG <+: text) :
    Inv n a { s with
      agent := .handling texts, out := s.out.handleLine text, owner := wakeReady s.owner } := by
  have hbuffer := h.buffered
  unfold Buffered at hbuffer
  rw [hagent] at hbuffer
  obtain ⟨hrest, htexts⟩ := hbuffer
  have hprinted := htexts text List.mem_cons_self htext
  obtain ⟨hready, hnotified⟩ := handleLine_of_prefix s.out htext
  have hnotfin : s.agent ≠ .finished := by
    rw [hagent]
    nofun
  refine ⟨⟨?_, fun t ht => htexts t (List.mem_cons_of_mem _ ht)⟩,
    ⟨fun _ => ⟨hprinted, nofun⟩, fun _ => .inl hready, ?_⟩, ⟨?_, ?_, fun _ => nofun,
      fun _ _ => .inl hnotified⟩, ?_,
    h.started.stays (by rw [hagent]; nofun) nofun rfl⟩
  · simpa using hrest
  · exact h.flags.dead.trans (iff_of_false hnotfin nofun)
  · exact fun hasleep => (wakeReady_ne_asleep _ hasleep).elim
  · exact fun hdoze => h.alert.dozing (wakeReady_eq_dozing_iff.mp hdoze)
  · exact h.stage.wakeReady.mono rfl rfl rfl id (fun hfin => (hnotfin hfin).elim) fun _ _ => nofun

/-- Any other text. -/
theorem Inv.handles (h : Inv n a s) (hagent : s.agent = .handling (text :: texts))
    (htext : ¬AGENT_READY_MSG <+: text) :
    Inv n a { s with agent := .handling texts, out := s.out.handleLine text } := by
  have hbuffer := h.buffered
  unfold Buffered at hbuffer
  rw [hagent] at hbuffer
  obtain ⟨hrest, htexts⟩ := hbuffer
  obtain ⟨hready, hnotified⟩ := handleLine_of_not_prefix s.out htext
  have hnotfin : s.agent ≠ .finished := by
    rw [hagent]
    nofun
  refine ⟨⟨?_, fun t ht => htexts t (List.mem_cons_of_mem _ ht)⟩,
    ⟨fun hr => ?_, fun hr => ?_, ?_⟩, ⟨fun hasleep => ?_, h.alert.dozing,
      fun _ => nofun, fun hw hp => ?_⟩, ?_,
    h.started.stays (by rw [hagent]; nofun) nofun rfl⟩
  · simpa using hrest
  · exact ⟨(h.flags.ready (hready.symm.trans hr)).1, nofun⟩
  · rcases h.flags.notified (hnotified.symm.trans hr) with hold | hfin
    · exact .inl (hready.trans hold)
    · exact (hnotfin hfin).elim
  · exact h.flags.dead.trans (iff_of_false hnotfin nofun)
  · exact hnotified.trans (h.alert.asleep hasleep)
  · rcases h.alert.heard hw hp with hold | ⟨texts', heq, t, ht, hprefix⟩
    · exact .inl (hnotified.trans hold)
    · -- the text that says ready is still to come
      obtain rfl := AgentPc.handling.inj (hagent.symm.trans heq)
      rcases List.mem_cons.mp ht with rfl | ht
      · exact (htext hprefix).elim
      · exact .inr ⟨texts, rfl, t, ht, hprefix⟩
  · exact h.stage.mono rfl rfl rfl id (fun hfin => (hnotfin hfin).elim) fun _ _ => nofun

/-- The buffer is trimmed. -/
theorem Inv.trims (h : Inv n a s) (hagent : s.agent = .handling []) :
    Inv n a { s with
      agent := .reading
      out := { s.out with
        agentOutputBuffer := Lines.unfinished newline s.out.agentOutputBuffer } } := by
  have hbuffer := h.buffered
  unfold Buffered at hbuffer
  rw [hagent] at hbuffer
  have hnotfin : s.agent ≠ .finished := by
    rw [hagent]
    nofun
  refine ⟨hbuffer.1, ⟨fun hr => ⟨(h.flags.ready hr).1, nofun⟩, fun hr => ?_, ?_⟩,
    ⟨h.alert.asleep, h.alert.dozing, fun _ => nofun, fun hw hp => ?_⟩, ?_,
    h.started.stays (by rw [hagent]; nofun) nofun rfl⟩
  · exact .inl ((h.flags.notified hr).resolve_right hnotfin)
  · exact h.flags.dead.trans (iff_of_false hnotfin nofun)
  · rcases h.alert.heard hw hp with hold | ⟨texts', heq, t, ht, -⟩
    · exact .inl hold
    · obtain rfl := AgentPc.handling.inj (hagent.symm.trans heq)
      exact (List.not_mem_nil ht).elim
  · exact h.stage.mono rfl rfl rfl id (fun hfin => (hnotfin hfin).elim) fun _ _ => nofun

/-- `invoke_daemon` announces its end. -/
theorem Inv.announces (h : Inv n a s) (hagent : s.agent = .ended) (hlock : ¬Locked s.owner) :
    Inv n a { s with
      agent := .finished, agentDeadNotified := true
      out := { s.out with agentReady := false, agentReadyNotified := true }
      owner := wakeDead (wakeReady s.owner) } := by
  have hbuffer := h.buffered
  unfold Buffered at hbuffer
  rw [hagent] at hbuffer
  refine ⟨hbuffer, ⟨nofun, fun _ => .inr rfl, iff_of_true rfl rfl⟩,
    ⟨fun hasleep => ?_, fun hdoze => ?_, fun _ _ => rfl, fun _ _ => .inl rfl⟩, ?_,
    h.started.stays (by rw [hagent]; nofun) nofun rfl⟩
  · exact (wakeReady_ne_asleep _ (wakeDead_eq_asleep_iff.mp hasleep)).elim
  · exact (wakeDead_ne_dozing _ hdoze).elim
  · refine h.stage.wakeReady.wakeDead.mono rfl rfl rfl id (fun _ => rfl) fun hl => ?_
    have hnot : ¬Locked (wakeDead (wakeReady s.owner)) := by
      cases hpc : s.owner <;> simp_all [wakeReady, wakeDead, Locked]
    exact (hnot hl).elim

/-- **A step of the agent's thread keeps the invariant.** -/
theorem Inv.agentStep (h : Inv n a s) (hs : s.agentStep = some s') : Inv n a s' := by
  unfold Launch.agentStep at hs
  split at hs
  next => cases hs
  next => cases hs
  next hagent =>
    obtain rfl := Option.some.inj hs
    exact h.trims hagent
  next text texts hagent =>
    split at hs
    next htext =>
      split at hs
      next => cases hs
      next =>
        obtain rfl := Option.some.inj hs
        exact h.handlesReady hagent (List.isPrefixOf_iff_prefix.mp htext)
    next htext =>
      obtain rfl := Option.some.inj hs
      exact h.handles hagent fun hprefix => htext (List.isPrefixOf_iff_prefix.mpr hprefix)
  next hagent =>
    split at hs
    next => cases hs
    next hlock =>
      obtain rfl := Option.some.inj hs
      exact h.announces hagent hlock
  next => cases hs

/-! ### The rest of the world -/

/-- A chunk comes through the pipe. -/
theorem Inv.chunk (h : Inv n a s) (hagent : s.agent = .reading) (c : ByteString) :
    Inv n a { s with
      agent := .handling (AgentOutput.callTexts (s.out.agentOutputBuffer ++ c))
      out := { s.out with agentOutputBuffer := s.out.agentOutputBuffer ++ c }
      chunks := s.chunks ++ [c] } := by
  have hbuffer := h.buffered
  unfold Buffered at hbuffer
  rw [hagent] at hbuffer
  have hbuffer' : s.out.agentOutputBuffer = Lines.unfinished newline s.chunks.flatten := hbuffer
  have hnotfin : s.agent ≠ .finished := by
    rw [hagent]
    nofun
  have hgrows {s' : Launch} (hc : s'.chunks = s.chunks ++ [c]) : s.Printed → s'.Printed := by
    intro hp
    unfold Printed
    rw [hc, printed_append_iff]
    exact .inl hp
  refine ⟨⟨?_, fun text ht hprefix => ?_⟩, ⟨fun hr => ⟨hgrows rfl (h.flags.ready hr).1, nofun⟩,
    fun hr => ?_, ?_⟩, ⟨h.alert.asleep, h.alert.dozing, fun _ => nofun, fun hw hp => ?_⟩, ?_,
    h.started.stays (by rw [hagent]; nofun) nofun rfl⟩
  · simp only [List.flatten_concat, hbuffer']
    exact (Lines.unfinished_append s.chunks.flatten c).symm
  · refine (printed_append_iff s.chunks c).mpr (.inr ⟨text, ?_, hprefix⟩)
    rwa [← hbuffer']
  · exact .inl ((h.flags.notified hr).resolve_right hnotfin)
  · exact h.flags.dead.trans (iff_of_false hnotfin nofun)
  · rcases (printed_append_iff s.chunks c).mp hp with hold | ⟨text, ht, hprefix⟩
    · rcases h.alert.heard hw hold with hnotified | ⟨texts, heq, -⟩
      · exact .inl hnotified
      · rw [hagent] at heq
        cases heq
    · rw [← hbuffer'] at ht
      exact .inr ⟨_, rfl, text, ht, hprefix⟩
  · exact h.stage.mono rfl rfl rfl (hgrows rfl) (fun hfin => (hnotfin hfin).elim) fun _ _ => nofun

/-- `adb` comes to its end. -/
theorem Inv.ends (h : Inv n a s) (hagent : s.agent = .reading) :
    Inv n a { s with agent := .ended } := by
  have hbuffer := h.buffered
  unfold Buffered at hbuffer
  rw [hagent] at hbuffer
  have hnotfin : s.agent ≠ .finished := by
    rw [hagent]
    nofun
  refine ⟨hbuffer, ⟨fun hr => ⟨(h.flags.ready hr).1, nofun⟩, fun hr => ?_, ?_⟩,
    ⟨h.alert.asleep, h.alert.dozing, fun _ => nofun, fun hw hp => ?_⟩, ?_,
    h.started.stays (by rw [hagent]; nofun) nofun rfl⟩
  · exact .inl ((h.flags.notified hr).resolve_right hnotfin)
  · exact h.flags.dead.trans (iff_of_false hnotfin nofun)
  · rcases h.alert.heard hw hp with hold | ⟨texts, heq, -⟩
    · exact .inl hold
    · rw [hagent] at heq
      cases heq
  · exact h.stage.mono rfl rfl rfl id (fun hfin => (hnotfin hfin).elim) fun _ _ => nofun

/-- **What comes from outside keeps the invariant.** -/
theorem Inv.outside (h : Inv n a s) (hs : Outside s s') : Inv n a s' := by
  have hstage := h.stage
  unfold Stage at hstage
  cases hs with
  | chunk hagent c => exact h.chunk hagent c
  | ends hagent => exact h.ends hagent
  | delete ho =>
    exact h.of_owner (m := s.nandroid) (k := s.killed) trivial id nofun rfl
      fun hns => (h.started.early hns).resolve_left (by rw [ho]; nofun)
  | wakesReady ho =>
    rw [ho] at hstage
    exact ⟨h.buffered, ⟨h.flags.ready, h.flags.notified, h.flags.dead⟩,
      ⟨nofun, nofun, fun _ => h.alert.ended (by rw [ho]; trivial),
        fun _ => h.alert.heard (by rw [ho]; trivial)⟩, hstage,
      ⟨h.started.thread, fun hns => .inr ((h.started.early hns).resolve_left (by rw [ho]; nofun)),
        h.started.silent⟩⟩
  | wakesDead ho =>
    rw [ho] at hstage
    exact h.of_owner (m := s.nandroid) (k := s.killed) hstage id nofun rfl
      fun hns => (h.started.early hns).resolve_left (by rw [ho]; nofun)

theorem Inv.moves (h : Inv n a s) (hn : n.agentInvokeThread = false) (hs : Moves a s s') :
    Inv n a s' := by
  cases hs with
  | owner hs => exact h.ownerStep hn hs
  | agent hs => exact h.agentStep hs
  | timeout ho =>
    have hstage := h.stage
    unfold Stage at hstage
    rw [ho] at hstage
    exact h.of_owner (m := s.nandroid) (k := s.killed) hstage id nofun rfl
      fun hns => (h.started.early hns).resolve_left (by rw [ho]; nofun)

/-- **Every step keeps the invariant.** -/
theorem Inv.step (h : Inv n a s) (hn : n.agentInvokeThread = false) (hs : Step a s s') :
    Inv n a s' := by
  cases hs with
  | moves hs => exact h.moves hn hs
  | outside hs => exact h.outside hs

/-- **The invariant holds in every run.** -/
theorem Inv.of_reachable (hn : n.agentInvokeThread = false)
    (hrun : Relation.ReflTransGen (Step a) (start n) s) : Inv n a s :=
  Runs.invariant (fun _ _ h hs => h.step hn hs) (inv_start hn) hrun

/-! ### The thread runs `handle_daemon_output` -/

theorem not_locked_wakeReady {pc : OwnerPc} (h : ¬Locked pc) : ¬Locked (wakeReady pc) := by
  cases pc <;> exact h

/-- The loop over the texts, while the owner leaves the lock alone. -/
theorem exists_handled_texts (hagent : s.agent = .handling texts) (hlock : ¬Locked s.owner) :
    ∃ s', Relation.ReflTransGen (Moves a) s s' ∧ s'.agent = .handling [] ∧
      s'.out = texts.foldl AgentOutput.handleLine s.out ∧ s'.chunks = s.chunks := by
  induction texts generalizing s with
  | nil => exact ⟨s, .refl, hagent, rfl, rfl⟩
  | cons text texts ih =>
    by_cases htext : AGENT_READY_MSG.isPrefixOf text = true
    · have hmove : Moves a s { s with
          agent := .handling texts, out := s.out.handleLine text
          owner := wakeReady s.owner } :=
        .agent (by rw [agentStep, hagent]; simp only [if_pos htext, if_neg hlock])
      obtain ⟨s', hrun, hs'⟩ := ih (s := { s with
        agent := .handling texts, out := s.out.handleLine text
        owner := wakeReady s.owner }) rfl (not_locked_wakeReady hlock)
      exact ⟨s', hrun.head hmove, hs'⟩
    · have hmove : Moves a s { s with
          agent := .handling texts, out := s.out.handleLine text } :=
        .agent (by rw [agentStep, hagent]; simp only [if_neg htext])
      obtain ⟨s', hrun, hs'⟩ := ih (s := { s with
        agent := .handling texts, out := s.out.handleLine text }) rfl hlock
      exact ⟨s', hrun.head hmove, hs'⟩

/-- **A chunk is handled as `handle_daemon_output` handles it.** -/
theorem exists_handleDaemonOutput (hagent : s.agent = .reading) (hlock : ¬Locked s.owner)
    (c : ByteString) : ∃ s', Relation.ReflTransGen (Step a) s s' ∧ s'.agent = .reading ∧
      s'.out = s.out.handleDaemonOutput c ∧ s'.chunks = s.chunks ++ [c] := by
  obtain ⟨s₁, hrun, hagent₁, hout, hchunks⟩ := exists_handled_texts (a := a) (s := { s with
    agent := .handling (AgentOutput.callTexts (s.out.agentOutputBuffer ++ c))
    out := { s.out with agentOutputBuffer := s.out.agentOutputBuffer ++ c }
    chunks := s.chunks ++ [c] }) rfl hlock
  have htrim : Moves a s₁ { s₁ with
      agent := .reading
      out := { s₁.out with
        agentOutputBuffer := Lines.unfinished newline s₁.out.agentOutputBuffer } } :=
    .agent (by rw [agentStep, hagent₁])
  have hrun' := (hrun.lift id fun _ _ hs => Step.moves hs).head (.outside (.chunk hagent c))
  refine ⟨_, hrun'.tail (.moves htrim), rfl, ?_, hchunks⟩
  rw [AgentOutput.handleDaemonOutput_eq, hout]
  simp only [AgentOutput.agentOutputBuffer_foldl_handleLine]

/-! ## The threads do not get into each other's way -/

/-- What is left for the agent's thread to do. -/
def agentRank : AgentPc → ℕ
  | .notStarted => 1
  | .reading => 0
  | .handling texts => texts.length + 1
  | .ended => 1
  | .finished => 0

/-- What is left for the owner to do. -/
def ownerRank : OwnerPc → ℕ
  | .preparing => 11
  | .looking => 10
  | .asleep => 9
  | .connecting => 9
  | .mounting => 8
  | .begun => 7
  | .raised _ => 7
  | .closing => 6
  | .checking => 5
  | .dozing => 4
  | .timedOut => 3
  | .killing => 2
  | .joining => 1
  | .destroyed => 0
  | .terminated => 0

/-- A wake-up takes the owner one step back, but only together with a step of the agent's thread. -/
def rank (s : Launch) : ℕ :=
  3 * agentRank s.agent + ownerRank s.owner

theorem ownerRank_wakeReady_le (pc : OwnerPc) : ownerRank (wakeReady pc) ≤ ownerRank pc + 1 := by
  cases pc <;> simp [wakeReady, ownerRank]

theorem ownerRank_wakeDead_le (pc : OwnerPc) : ownerRank (wakeDead pc) ≤ ownerRank pc + 1 := by
  cases pc <;> simp [wakeDead, ownerRank]

/-- **Every step of the owner takes it further**, and only the first has to do with the agent. -/
theorem ownerStep_spec (hs : s.ownerStep a = some s') :
    ownerRank s'.owner < ownerRank s.owner ∧
      (s'.agent = s.agent ∨ s.owner = .preparing ∧ s'.agent = .reading) := by
  unfold ownerStep at hs
  split at hs
  next ho =>
    rw [ho]
    split at hs <;> obtain rfl := Option.some.inj hs
    · exact ⟨by simp [ownerRank], .inl rfl⟩
    · exact ⟨by simp [ownerRank], .inr ⟨rfl, rfl⟩⟩
  next ho =>
    rw [ho]
    split at hs <;> obtain rfl := Option.some.inj hs
    · unfold afterWait
      simp only
      split
      · exact ⟨by simp [ownerRank], .inl rfl⟩
      · exact ⟨by simp [ownerRank], .inl rfl⟩
    · exact ⟨by simp [ownerRank], .inl rfl⟩
  next ho => cases hs
  next ho =>
    rw [ho]
    split at hs <;> obtain rfl := Option.some.inj hs
    · exact ⟨by simp [ownerRank], .inl rfl⟩
    · exact ⟨by simp [ownerRank], .inl rfl⟩
  next ho =>
    rw [ho]
    split at hs <;> obtain rfl := Option.some.inj hs
    · exact ⟨by simp [ownerRank], .inl rfl⟩
    · exact ⟨by simp [ownerRank], .inl rfl⟩
  next ho => cases hs
  next e ho =>
    rw [ho]
    obtain rfl := Option.some.inj hs
    exact ⟨by simp [ownerRank], .inl rfl⟩
  next ho =>
    rw [ho]
    obtain rfl := Option.some.inj hs
    exact ⟨by simp [ownerRank], .inl rfl⟩
  next ho =>
    rw [ho]
    split at hs <;> obtain rfl := Option.some.inj hs
    · exact ⟨by simp [ownerRank], .inl rfl⟩
    · exact ⟨by simp [ownerRank], .inl rfl⟩
  next ho => cases hs
  next ho =>
    rw [ho]
    split at hs <;> obtain rfl := Option.some.inj hs
    · exact ⟨by simp [ownerRank], .inl rfl⟩
    · exact ⟨by simp [ownerRank], .inl rfl⟩
  next ho =>
    rw [ho]
    obtain rfl := Option.some.inj hs
    exact ⟨by simp [ownerRank], .inl rfl⟩
  next ho =>
    rw [ho]
    split at hs
    · obtain rfl := Option.some.inj hs
      exact ⟨by simp [ownerRank], .inl rfl⟩
    · split at hs
      · obtain rfl := Option.some.inj hs
        exact ⟨by simp [ownerRank], .inl rfl⟩
      · cases hs
  next ho => cases hs
  next ho => cases hs

/-- **Every step of the agent's thread takes it further**, and the owner back by one at most. -/
theorem agentStep_spec (hs : s.agentStep = some s') :
    agentRank s'.agent < agentRank s.agent ∧ ownerRank s'.owner ≤ ownerRank s.owner + 2 := by
  unfold agentStep at hs
  split at hs
  next => cases hs
  next => cases hs
  next hagent =>
    obtain rfl := Option.some.inj hs
    rw [hagent]
    exact ⟨by simp [agentRank], Nat.le_add_right _ 2⟩
  next text texts hagent =>
    rw [hagent]
    split at hs
    · split at hs
      · cases hs
      · obtain rfl := Option.some.inj hs
        exact ⟨by simp [agentRank], (ownerRank_wakeReady_le _).trans (Nat.le_succ _)⟩
    · obtain rfl := Option.some.inj hs
      exact ⟨by simp [agentRank], Nat.le_add_right _ 2⟩
  next hagent =>
    rw [hagent]
    split at hs
    · cases hs
    · obtain rfl := Option.some.inj hs
      refine ⟨by simp [agentRank], (ownerRank_wakeDead_le _).trans ?_⟩
      exact Nat.succ_le_succ (ownerRank_wakeReady_le _)
  next => cases hs

theorem Inv.rank_lt (h : Inv n a s) (hn : n.agentInvokeThread = false) (hs : Moves a s s') :
    s'.rank < s.rank := by
  unfold rank
  cases hs with
  | owner hs =>
    obtain ⟨hlt, hagent | ⟨ho, hagent⟩⟩ := ownerStep_spec hs
    · rw [hagent]
      omega
    · have hstage := h.stage
      unfold Stage at hstage
      rw [ho] at hstage
      have hns : s.agent = .notStarted := h.started.thread.mpr (by rw [hstage, hn])
      rw [hagent, hns]
      simp only [agentRank]
      omega
  | agent hs =>
    obtain ⟨hlt, hle⟩ := agentStep_spec hs
    omega
  | timeout ho =>
    rw [ho]
    simp [ownerRank]

/-- What the owner is at when it does not move. -/
theorem stuck_of_ownerStep_eq_none (hs : s.ownerStep a = none) :
    s.owner = .asleep ∨ s.owner = .begun ∨ s.owner = .dozing ∨ s.owner = .destroyed ∨
      s.owner = .terminated ∨
      s.owner = .joining ∧ s.nandroid.agentInvokeThread = true ∧ s.agent ≠ .finished := by
  unfold ownerStep at hs
  split at hs
  next => split at hs <;> cases hs
  next => split at hs <;> cases hs
  next ho => exact .inl ho
  next => split at hs <;> cases hs
  next => split at hs <;> cases hs
  next ho => exact .inr (.inl ho)
  next => cases hs
  next => cases hs
  next => split at hs <;> cases hs
  next ho => exact .inr (.inr (.inl ho))
  next => split at hs <;> cases hs
  next => cases hs
  next ho =>
    split at hs
    next => cases hs
    next hjoins =>
      split at hs
      next => cases hs
      next hfin =>
        have hthread : s.nandroid.agentInvokeThread = true := by
          simpa [Nandroid.joins] using hjoins
        exact .inr (.inr (.inr (.inr (.inr ⟨ho, hthread, hfin⟩))))
  next ho => exact .inr (.inr (.inr (.inl ho)))
  next ho => exact .inr (.inr (.inr (.inr (.inl ho))))

/-- The agent's thread waits for the pipe, or is done, or waits for the lock. -/
theorem stuck_of_agentStep_eq_none (hs : s.agentStep = none) :
    s.agent = .notStarted ∨ s.agent = .reading ∨ s.agent = .finished ∨ Locked s.owner := by
  unfold agentStep at hs
  split at hs
  next hagent => exact .inl hagent
  next hagent => exact .inr (.inl hagent)
  next => cases hs
  next =>
    split at hs
    · split at hs
      next hlock => exact .inr (.inr (.inr hlock))
      next => cases hs
    · cases hs
  next =>
    split at hs
    next hlock => exact .inr (.inr (.inr hlock))
    next => cases hs
  next hagent => exact .inr (.inr (.inl hagent))

/-- What there is to wait for. -/
inductive Waits (a : Attempt) (s : Launch) : Prop
  /-- `begin` waits for an agent that has not said that it is ready. -/
  | ready (ho : s.owner = .asleep) (hagent : s.agent = .reading) (hprinted : ¬s.Printed)
  /-- The drive is mounted. -/
  | mounted (ho : s.owner = .begun) (hagent : s.agent = .reading ∨ s.agent = .finished)
  /-- The destructor waits for an agent that it has tried to kill. -/
  | killed (ho : s.owner = .joining) (hagent : s.agent = .reading) (hkilled : s.killed = true)
  /-- The object is gone, and its thread with it. -/
  | destroyed (ho : s.owner = .destroyed) (hagent : s.agent = .finished)
      (hconnection : s.nandroid.connection = false) (hmounted : s.nandroid.mounted = false)
  /-- There was no thread to join. -/
  | terminated (ho : s.owner = .terminated) (he : earlyFailure a ≠ none)

theorem Inv.waits (h : Inv n a s) (hstuck : ∀ s', ¬Moves a s s') : Waits a s := by
  have hstage := h.stage
  unfold Stage at hstage
  have howner : s.ownerStep a = none := by
    rw [Option.eq_none_iff_forall_not_mem]
    exact fun s' hs' => hstuck s' (.owner hs')
  have hagent : s.agentStep = none := by
    rw [Option.eq_none_iff_forall_not_mem]
    exact fun s' hs' => hstuck s' (.agent hs')
  have hpipe (hlock : ¬Locked s.owner) (hns : s.agent ≠ .notStarted) :
      s.agent = .reading ∨ s.agent = .finished := by
    rcases stuck_of_agentStep_eq_none hagent with hno | hreading | hfin | hl
    · exact (hns hno).elim
    · exact .inl hreading
    · exact .inr hfin
    · exact (hlock hl).elim
  have hearly (hne : s.owner ≠ .preparing) (he : earlyFailure a = none) : s.agent ≠ .notStarted :=
    fun hns => ((h.started.early hns).resolve_left hne) he
  rcases stuck_of_ownerStep_eq_none howner with ho | ho | ho | ho | ho | ⟨ho, hthread, hfin⟩
  · rw [ho] at hstage hpipe
    have hlow := h.alert.asleep ho
    have hreading : s.agent = .reading := by
      refine (hpipe id (hearly (by rw [ho]; nofun) hstage.1)).resolve_right fun hfin => ?_
      have hup := h.alert.ended (by rw [ho]; trivial) hfin
      exact Bool.false_ne_true (hlow.symm.trans hup)
    refine .ready ho hreading fun hprinted => ?_
    rcases h.alert.heard (by rw [ho]; trivial) hprinted with hup | ⟨texts, heq, -⟩
    · exact Bool.false_ne_true (hlow.symm.trans hup)
    · rw [hreading] at heq
      cases heq
  · rw [ho] at hstage hpipe
    refine .mounted ho (hpipe id (hearly (by rw [ho]; nofun) ?_))
    rcases he : earlyFailure a with _ | e
    · rfl
    · have hbegin := hstage.2
      rw [begin_of_earlyFailure he] at hbegin
      cases hbegin
  · exact (hstuck _ (.timeout ho)).elim
  · rw [ho] at hstage
    exact .destroyed ho hstage.2.2 hstage.1 hstage.2.1
  · rw [ho] at hstage
    exact .terminated ho hstage
  · rw [ho] at hstage hpipe
    have hns : s.agent ≠ .notStarted := fun hns => by
      rw [h.started.thread.mp hns] at hthread
      cases hthread
    exact .killed ho ((hpipe id hns).resolve_right hfin) (hstage.2.2.resolve_right hfin)

variable {serial : ByteString} {port : UInt16}

/-- **`begin` in two threads is `begin` in one.**  However the two threads and the rest of the world
are interleaved and the output of the agent is cut: `begin` gets past its wait only if a line of the
output says ready and while the end of the agent has not been announced, which cannot change until
it returns or raises; and it returns or raises what `Nandroid.begin` does, with the same things
acquired, on an agent that is ready only if it has said so and is not ready only if it has come to
its end. -/
theorem begin_agrees (hrun : Relation.ReflTransGen (Step a) (start (.new serial port)) s) :
    (s.owner = .connecting ∨ s.owner = .mounting → s.Printed ∧ s.agent ≠ .finished) ∧
    (s.owner = .begun → s.Printed ∧
      (Nandroid.new serial port).begin { a with agentReady := true } = (.ok (), s.nandroid)) ∧
    ∀ e, s.owner = .raised e → ∃ ready, (ready = true → s.Printed) ∧
      (e = .agentNotReady → s.agent = .finished) ∧
      (Nandroid.new serial port).begin { a with agentReady := ready } =
        (.error e, s.nandroid) := by
  have hstage := (Inv.of_reachable rfl hrun).stage
  unfold Stage at hstage
  refine ⟨?_, fun ho => ?_, fun e ho => ?_⟩
  · rintro (ho | ho)
    · rw [ho] at hstage
      exact hstage.2.2
    · rw [ho] at hstage
      exact hstage.2.2.2
  · rw [ho] at hstage
    exact hstage
  · rw [ho] at hstage
    exact hstage

/-- `begin` in its wait, for a device on which everything works. -/
def waitingForReady : Launch where
  nandroid := { Nandroid.new [82] 25989 with agentInvokeThread := true }
  out := .new
  agentDeadNotified := false
  owner := .asleep
  agent := .reading
  killed := false
  chunks := []

theorem reachable_waitingForReady :
    Relation.ReflTransGen (Step .perfect) (start (.new [82] 25989)) waitingForReady :=
  .tail (.single (.moves (.owner rfl))) (.moves (.owner rfl))

/-- The message comes, `begin` wakes up and mounts the drive. -/
theorem begin_agrees_ready : ∃ s, Relation.ReflTransGen (Step .perfect)
      (start (.new [82] 25989)) s ∧
    s.owner = .begun ∧ s.Printed ∧
      (Nandroid.new [82] 25989).begin { Attempt.perfect with agentReady := true } =
        (.ok (), s.nandroid) := by
  have hheard : Step .perfect
      { waitingForReady with
        agent := .handling (AgentOutput.callTexts (AGENT_READY_MSG ++ [newline]))
        out := { AgentOutput.new with agentOutputBuffer := AGENT_READY_MSG ++ [newline] }
        chunks := [AGENT_READY_MSG ++ [newline]] }
      { waitingForReady with
        agent := .handling [], owner := .looking
        out := ⟨AGENT_READY_MSG ++ [newline], true, true, [AGENT_READY_MSG]⟩
        chunks := [AGENT_READY_MSG ++ [newline]] } :=
    .moves (.agent (by decide))
  have hrun := (((((reachable_waitingForReady.tail
    (.outside (.chunk rfl (AGENT_READY_MSG ++ [newline])))).tail hheard).tail
    (.moves (.owner rfl))).tail (.moves (.owner rfl))).tail (.moves (.owner rfl)))
  exact ⟨_, hrun, rfl, (begin_agrees hrun).2.1 rfl⟩

/-- **Neither thread waits for the other in vain.**  Left to themselves the two threads come to rest
after finitely many steps, and when they rest there is nothing to do, or `adb` has yet to say
something: to a `begin` that no line has told to go on, or to a destructor that has tried to kill
the agent.  An object that is gone has taken its thread, its connection and its drive with it.  A
step that connects, mounts or calls `adb` is taken to end. -/
theorem waits_for_adb (hrun : Relation.ReflTransGen (Step a) (start (.new serial port)) s) :
    Acc (fun s' s => Moves a s s') s ∧ ((∀ s', ¬Moves a s s') → Waits a s) := by
  have hinv := Inv.of_reachable rfl hrun
  refine ⟨?_, hinv.waits⟩
  exact Runs.acc_of_measure rank (fun _ _ h hs => ⟨h.moves rfl hs, h.rank_lt rfl hs⟩) hinv

/-- An agent that says nothing is waited for. -/
theorem waits_for_adb_silent : (∀ s', ¬Moves .perfect waitingForReady s') ∧
    Waits .perfect waitingForReady := by
  have hstuck : ∀ s', ¬Moves .perfect waitingForReady s' := by
    intro s' hs
    cases hs with
    | owner hs => cases hs
    | agent hs => cases hs
    | timeout ho => cases ho
  exact ⟨hstuck, (waits_for_adb reachable_waitingForReady).2 hstuck⟩

end Launch

end NandroidFS
