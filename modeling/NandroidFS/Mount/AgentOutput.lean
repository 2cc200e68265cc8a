import Mathlib.Data.List.Induction
import NandroidFS.Shared.Text

/-!
# The output of the agent

`handle_daemon_output` is called with whatever a read from the pipe has brought.  It keeps the text
after the last newline for the next call, passes the lines before it to the logger, and looks among
them for the one that says that the agent is ready.

A line is cut out by `substr`, whose second argument is a length.  The code passes the position of
the newline, which is the length of the line only for the first line of the buffer: the text that is
taken for a later line goes on beyond it.

* `logsLines_iff`: the logger gets the lines of the output exactly if no buffer has two newlines in
  its interior.
* `ready_iff`: what the text goes on with never matters for the line that says ready.
-/

namespace NandroidFS

/-- `NANDROID_READY_FOR_CONNECTION`. -/
def AGENT_READY_MSG : ByteString :=
  [78, 65, 78, 68, 82, 79, 73, 68, 95, 82, 69, 65, 68, 89, 95, 70, 79, 82, 95, 67, 79, 78, 78, 69,
    67, 84, 73, 79, 78]

/-- The fields of `Nandroid` that are used, and what has been passed to `agent_logger`. -/
structure AgentOutput where
  agentOutputBuffer : ByteString
  agentReady : Bool
  agentReadyNotified : Bool
  logged : List ByteString
  deriving DecidableEq

namespace AgentOutput

def new : AgentOutput where
  agentOutputBuffer := []
  agentReady := false
  agentReadyNotified := false
  logged := []

/-- What is done with the text of one line. -/
def handleLine (a : AgentOutput) (line : ByteString) : AgentOutput :=
  let a := if AGENT_READY_MSG.isPrefixOf line then
    { a with agentReady := true, agentReadyNotified := true } else a
  { a with logged := a.logged ++ [popIfLast carriageReturn (popIfLast newline line)] }

/-- The loop over the newlines.  `lineStart` is `last_newline_idx + 1`, which is `0` at first, since
the index starts at the wrapped value of `-1`.  Every round passes a newline. -/
def handleLines : (rounds lineStart : ℕ) → AgentOutput → AgentOutput × ℕ
  | 0, lineStart, a => (a, lineStart)
  | rounds + 1, lineStart, a =>
      match findFrom newline a.agentOutputBuffer lineStart with
      | none => (a, lineStart)
      | some nextNewlineIdx =>
          handleLines rounds (nextNewlineIdx + 1)
            (a.handleLine (substr a.agentOutputBuffer lineStart nextNewlineIdx))

def handleDaemonOutput (a : AgentOutput) (chunk : ByteString) : AgentOutput :=
  let buffer := a.agentOutputBuffer ++ chunk
  let r := handleLines (buffer.length + 1) 0 { a with agentOutputBuffer := buffer }
  { r.1 with agentOutputBuffer := r.1.agentOutputBuffer.drop r.2 }

/-- The state after the calls with these chunks. -/
def outputs (chunks : List ByteString) : AgentOutput :=
  chunks.foldl handleDaemonOutput new

/-! ## What one call does -/

/-- The texts that are taken for lines of which the first begins at `lineStart`, before `rest`. -/
def taken (rest : ByteString) : (lineStart : ℕ) → (lines : List ByteString) → List ByteString
  | _, [] => []
  | lineStart, line :: lines =>
      (Lines.join newline (line :: lines) rest).take (lineStart + line.length) ::
        taken rest (lineStart + line.length + 1) lines

@[simp] theorem length_taken (rest : ByteString) (lineStart : ℕ) (lines : List ByteString) :
    (taken rest lineStart lines).length = lines.length := by
  induction lines generalizing lineStart with
  | nil => rfl
  | cons line lines ih => simp [taken, ih]

variable (a : AgentOutput)

@[simp] theorem agentOutputBuffer_handleLine (line : ByteString) :
    (a.handleLine line).agentOutputBuffer = a.agentOutputBuffer := by
  simp only [handleLine]
  split <;> rfl

/-- What is logged of a text. -/
def trimmed (text : ByteString) : ByteString :=
  popIfLast carriageReturn (popIfLast newline text)

theorem logged_handleLine (text : ByteString) :
    (a.handleLine text).logged = a.logged ++ [trimmed text] := by
  simp only [handleLine, trimmed]
  split <;> rfl

theorem agentOutputBuffer_foldl_handleLine (texts : List ByteString) :
    (texts.foldl handleLine a).agentOutputBuffer = a.agentOutputBuffer := by
  induction texts generalizing a with
  | nil => rfl
  | cons text texts ih => rw [List.foldl_cons, ih, agentOutputBuffer_handleLine]

theorem logged_foldl_handleLine (texts : List ByteString) :
    (texts.foldl handleLine a).logged = a.logged ++ texts.map trimmed := by
  induction texts generalizing a with
  | nil => simp
  | cons text texts ih => simp [ih, logged_handleLine]

/-- **The loop**, from a position where lines and an unfinished line are left. -/
theorem handleLines_eq {rest : ByteString} (hrest : newline ∉ rest) {lines : List ByteString}
    (hlines : ∀ line ∈ lines, newline ∉ line) {rounds : ℕ} (hr : lines.length < rounds)
    {lineStart : ℕ} (hbuf : a.agentOutputBuffer.drop lineStart = Lines.join newline lines rest) :
    (handleLines rounds lineStart a).1 = (taken rest lineStart lines).foldl handleLine a ∧
      a.agentOutputBuffer.drop (handleLines rounds lineStart a).2 = rest := by
  induction lines generalizing rounds lineStart a with
  | nil =>
    obtain ⟨rounds, rfl⟩ := Nat.exists_eq_add_of_lt hr
    have hnone : newline ∉ a.agentOutputBuffer.drop lineStart := by
      rw [hbuf]
      exact hrest
    rw [handleLines, findFrom_of_notMem hnone]
    exact ⟨rfl, hbuf⟩
  | cons line lines ih =>
    obtain ⟨hline, hlines⟩ := List.forall_mem_cons.mp hlines
    cases rounds with
    | zero => cases hr
    | succ rounds =>
      have hjoin := hbuf
      rw [Lines.join_cons] at hjoin
      have hnext : a.agentOutputBuffer.drop (lineStart + line.length + 1) =
          Lines.join newline lines rest := drop_of_drop_eq_join hbuf
      have htext : substr a.agentOutputBuffer lineStart (lineStart + line.length) =
          (Lines.join newline (line :: lines) rest).take (lineStart + line.length) := by
        rw [substr, hbuf]
      rw [handleLines, findFrom_of_drop hline hjoin]
      simp only
      rw [htext]
      have hbuf' : (a.handleLine ((Lines.join newline (line :: lines) rest).take
          (lineStart + line.length))).agentOutputBuffer = a.agentOutputBuffer :=
        agentOutputBuffer_handleLine a _
      have := ih (a.handleLine _) hlines (Nat.lt_of_succ_lt_succ hr) (hbuf' ▸ hnext)
      rw [hbuf'] at this
      exact this

/-- The lines that a call finds, as it takes them out of the buffer. -/
def callTexts (buffer : ByteString) : List ByteString :=
  taken (Lines.unfinished newline buffer) 0 (Lines.ended newline buffer)

/-- **One call.**  The loop comes to the last newline, since it has more rounds than there are
characters in the buffer. -/
theorem handleDaemonOutput_eq (chunk : ByteString) :
    a.handleDaemonOutput chunk =
      { (callTexts (a.agentOutputBuffer ++ chunk)).foldl handleLine
          { a with agentOutputBuffer := a.agentOutputBuffer ++ chunk } with
        agentOutputBuffer := Lines.unfinished newline (a.agentOutputBuffer ++ chunk) } := by
  set buffer := a.agentOutputBuffer ++ chunk with hbuffer
  have hrounds : (Lines.ended newline buffer).length < buffer.length + 1 :=
    Nat.lt_succ_of_le (Lines.length_ended_le buffer)
  have hdrop : buffer.drop 0 = Lines.join newline (Lines.ended newline buffer)
      (Lines.unfinished newline buffer) := (Lines.join_ended buffer).symm
  have hloop := handleLines_eq { a with agentOutputBuffer := buffer }
    (Lines.notMem_unfinished buffer) (fun _ hline => Lines.notMem_of_mem_ended hline) hrounds hdrop
  have hkept : (handleLines (buffer.length + 1) 0
      { a with agentOutputBuffer := buffer }).1.agentOutputBuffer = buffer := by
    rw [hloop.1, agentOutputBuffer_foldl_handleLine]
  rw [handleDaemonOutput]
  simp only
  rw [← hbuffer, hkept, hloop.2, hloop.1]
  rfl

@[simp] theorem agentOutputBuffer_handleDaemonOutput (chunk : ByteString) :
    (a.handleDaemonOutput chunk).agentOutputBuffer =
      Lines.unfinished newline (a.agentOutputBuffer ++ chunk) := by
  rw [handleDaemonOutput_eq]

@[simp] theorem logged_handleDaemonOutput (chunk : ByteString) :
    (a.handleDaemonOutput chunk).logged =
      a.logged ++ (callTexts (a.agentOutputBuffer ++ chunk)).map trimmed := by
  rw [handleDaemonOutput_eq]
  exact logged_foldl_handleLine _ _

/-! ## What is logged for one line -/

theorem popIfLast_append_singleton (c b : UInt8) (s : ByteString) :
    popIfLast c (s ++ [b]) = if b = c then s else s ++ [b] := by
  simp [popIfLast]

theorem popIfLast_of_notMem {c : UInt8} {s : ByteString} (h : c ∉ s) : popIfLast c s = s := by
  rw [popIfLast, if_neg]
  intro hlast
  exact h (List.mem_of_getLast? hlast)

theorem mem_of_mem_popIfLast {c b : UInt8} {s : ByteString} (h : b ∈ popIfLast c s) : b ∈ s := by
  rw [popIfLast] at h
  split at h
  · exact List.dropLast_subset s h
  · exact h

/-- A newline before the last character is not removed. -/
theorem newline_mem_popIfLast (c : UInt8) (p : ByteString) {q : ByteString} (hq : q ≠ []) :
    newline ∈ popIfLast c (p ++ newline :: q) := by
  obtain ⟨q, b, rfl⟩ := List.eq_nil_or_concat q |>.resolve_left hq
  rw [List.concat_eq_append, ← List.cons_append, ← List.append_assoc, popIfLast_append_singleton]
  split <;> simp

theorem newline_mem_popIfLast_carriageReturn (p q : ByteString) :
    newline ∈ popIfLast carriageReturn (p ++ newline :: q) := by
  cases q with
  | nil =>
    rw [popIfLast_append_singleton, if_neg (by decide)]
    simp
  | cons b q => exact newline_mem_popIfLast carriageReturn p (List.cons_ne_nil b q)

/-- A text that goes on beyond the newline still has it when the line endings are removed. -/
theorem newline_mem_trimmed (line : ByteString) {q : ByteString} (hq : q ≠ []) :
    newline ∈ trimmed (line ++ newline :: q) := by
  obtain ⟨q, b, rfl⟩ := List.eq_nil_or_concat q |>.resolve_left hq
  rw [trimmed, List.concat_eq_append, ← List.cons_append, ← List.append_assoc,
    popIfLast_append_singleton]
  split
  · exact newline_mem_popIfLast_carriageReturn line q
  · rw [List.append_assoc, List.cons_append]
    exact newline_mem_popIfLast_carriageReturn line _

theorem trimmed_of_notMem {line : ByteString} (hline : newline ∉ line) :
    trimmed line = popIfLast carriageReturn line := by
  rw [trimmed, popIfLast_of_notMem hline]

theorem trimmed_append_newline (line : ByteString) :
    trimmed (line ++ [newline]) = popIfLast carriageReturn line := by
  rw [trimmed, popIfLast_append_singleton, if_pos rfl]

/-- **One text.**  It is logged as the line if it begins at the first or second character of the
buffer, or if the buffer ends with the line. -/
theorem trimmed_take_eq_iff {line : ByteString} (hline : newline ∉ line) (q : ByteString)
    (lineStart : ℕ) :
    trimmed ((line ++ newline :: q).take (lineStart + line.length)) =
      popIfLast carriageReturn line ↔ lineStart ≤ 1 ∨ q = [] := by
  rw [Nat.add_comm, List.take_length_add_append]
  rcases lineStart with - | - | n
  · simp [trimmed_of_notMem hline]
  · simp [trimmed_append_newline]
  · rw [List.take_succ_cons]
    cases q with
    | nil => simp [trimmed_append_newline]
    | cons b q =>
      refine iff_of_false (fun h => ?_) (by simp)
      have hmem := newline_mem_trimmed line (q := (b :: q).take (n + 1)) (by simp)
      rw [h] at hmem
      exact hline (mem_of_mem_popIfLast hmem)

/-! ## What is logged for a buffer -/

/-- The texts are logged as the lines. -/
def Logs (rest : ByteString) (lineStart : ℕ) (lines : List ByteString) : Prop :=
  (taken rest lineStart lines).map trimmed = lines.map (popIfLast carriageReturn)

variable {rest line : ByteString} {lines : List ByteString}

theorem logs_nil (rest : ByteString) (lineStart : ℕ) : Logs rest lineStart [] := rfl

theorem logs_cons_iff (hline : newline ∉ line) (lineStart : ℕ) :
    Logs rest lineStart (line :: lines) ↔
      (lineStart ≤ 1 ∨ Lines.join newline lines rest = []) ∧
        Logs rest (lineStart + line.length + 1) lines := by
  rw [Logs, taken, List.map_cons, List.map_cons, List.cons.injEq, Lines.join_cons,
    trimmed_take_eq_iff hline]
  rfl

theorem count_dropLast_line (hline : newline ∉ line) (q : ByteString) :
    (line ++ newline :: q).dropLast.count newline =
      if q = [] then 0 else q.dropLast.count newline + 1 := by
  have hzero : line.count newline = 0 := List.count_eq_zero.mpr hline
  cases q with
  | nil => simpa using hzero
  | cons b q =>
    rw [List.dropLast_append_of_ne_nil (List.cons_ne_nil _ _), List.count_append, hzero,
      List.dropLast_cons_of_ne_nil (List.cons_ne_nil b q), List.count_cons_self]
    simp

theorem count_eq_zero_of_sublist {s : ByteString} (hrest : newline ∉ rest)
    (hs : List.Sublist s rest) : s.count newline = 0 :=
  List.count_eq_zero.mpr fun h => hrest (hs.subset h)

/-- From the third character on, no line may be followed by anything. -/
theorem logs_iff_of_two_le (hrest : newline ∉ rest) (hlines : ∀ line ∈ lines, newline ∉ line)
    {lineStart : ℕ} (hstart : 2 ≤ lineStart) :
    Logs rest lineStart lines ↔ (Lines.join newline lines rest).dropLast.count newline = 0 := by
  cases lines with
  | nil =>
    refine iff_of_true (logs_nil rest lineStart) ?_
    exact count_eq_zero_of_sublist hrest (List.dropLast_sublist rest)
  | cons line lines =>
    rw [logs_cons_iff (hlines line List.mem_cons_self), Lines.join_cons,
      count_dropLast_line (hlines line List.mem_cons_self)]
    by_cases hq : Lines.join newline lines rest = []
    · have hnil : lines = [] := by
        cases lines with
        | nil => rfl
        | cons line' lines => simp [Lines.join_cons] at hq
      subst hnil
      simp [hq, logs_nil]
    · simp only [hq, or_false, if_false]
      omega

/-- From the second character on, one line may be followed by something. -/
theorem logs_one_iff (hrest : newline ∉ rest) (hlines : ∀ line ∈ lines, newline ∉ line) :
    Logs rest 1 lines ↔ (Lines.join newline lines rest).dropLast.count newline ≤ 1 := by
  cases lines with
  | nil =>
    refine iff_of_true (logs_nil rest 1) (Nat.le_succ_of_le (Nat.le_zero.mpr ?_))
    exact count_eq_zero_of_sublist hrest (List.dropLast_sublist rest)
  | cons line lines =>
    obtain ⟨hline, hlines⟩ := List.forall_mem_cons.mp hlines
    rw [logs_cons_iff hline, logs_iff_of_two_le hrest hlines (by omega), Lines.join_cons,
      count_dropLast_line hline]
    by_cases hq : Lines.join newline lines rest = []
    · simp [hq]
    · simp [hq]

/-- **One buffer.**  Its lines are logged exactly if at most one newline is neither its first nor
its last character. -/
theorem logs_callTexts_iff (buffer : ByteString) :
    (callTexts buffer).map trimmed =
        (Lines.ended newline buffer).map (popIfLast carriageReturn) ↔
      buffer.tail.dropLast.count newline ≤ 1 := by
  have hrest : newline ∉ Lines.unfinished newline buffer := Lines.notMem_unfinished buffer
  have hlines : ∀ line ∈ Lines.ended newline buffer, newline ∉ line :=
    fun _ h => Lines.notMem_of_mem_ended h
  have hjoin : Lines.join newline _ _ = buffer := Lines.join_ended buffer
  change Logs (Lines.unfinished newline buffer) 0 (Lines.ended newline buffer) ↔ _
  generalize Lines.unfinished newline buffer = rest at *
  generalize Lines.ended newline buffer = lines at *
  subst hjoin
  cases lines with
  | nil =>
    refine iff_of_true (logs_nil rest 0) (Nat.le_succ_of_le (Nat.le_zero.mpr ?_))
    exact count_eq_zero_of_sublist hrest
      ((List.dropLast_sublist rest.tail).trans (List.tail_sublist rest))
  | cons line lines =>
    have hline := hlines line List.mem_cons_self
    replace hlines : ∀ line ∈ lines, newline ∉ line :=
      fun l h => hlines l (List.mem_cons_of_mem line h)
    rw [logs_cons_iff hline, Lines.join_cons]
    cases line with
    | nil =>
      have h := logs_one_iff hrest hlines
      simpa using h
    | cons b line =>
      have hline' : newline ∉ line := fun h => hline (List.mem_cons_of_mem b h)
      have hstart : 2 ≤ 0 + (b :: line).length + 1 := by
        rw [List.length_cons]
        omega
      rw [logs_iff_of_two_le hrest hlines hstart, List.cons_append, List.tail_cons,
        count_dropLast_line hline']
      by_cases hq : Lines.join newline lines rest = []
      · simp [hq]
      · simp [hq]

/-! ## All calls -/

theorem outputs_append (chunks : List ByteString) (chunk : ByteString) :
    outputs (chunks ++ [chunk]) = (outputs chunks).handleDaemonOutput chunk := by
  simp [outputs]

/-- **The text after the last newline stays in the buffer.** -/
theorem agentOutputBuffer_outputs (chunks : List ByteString) :
    (outputs chunks).agentOutputBuffer = Lines.unfinished newline chunks.flatten := by
  induction chunks using List.reverseRecOn with
  | nil => exact (Lines.unfinished_of_notMem List.not_mem_nil).symm
  | append_singleton chunks chunk ih =>
    rw [outputs_append, agentOutputBuffer_handleDaemonOutput, ih, List.flatten_concat,
      ← Lines.unfinished_append]

/-- The buffer of the call with `chunk`. -/
def buffered (before : List ByteString) (chunk : ByteString) : ByteString :=
  Lines.unfinished newline before.flatten ++ chunk

theorem ended_flatten_append (before : List ByteString) (chunk : ByteString) :
    Lines.ended newline (before ++ [chunk]).flatten =
      Lines.ended newline before.flatten ++ Lines.ended newline (buffered before chunk) := by
  rw [List.flatten_concat, Lines.ended_append]
  rfl

theorem logged_outputs_append (chunks : List ByteString) (chunk : ByteString) :
    (outputs (chunks ++ [chunk])).logged =
      (outputs chunks).logged ++ (callTexts (buffered chunks chunk)).map trimmed := by
  rw [outputs_append, logged_handleDaemonOutput, agentOutputBuffer_outputs]
  rfl

/-- There is an entry for every line, whatever it says. -/
theorem length_logged_outputs (chunks : List ByteString) :
    (outputs chunks).logged.length = (Lines.ended newline chunks.flatten).length := by
  induction chunks using List.reverseRecOn with
  | nil => rfl
  | append_singleton chunks chunk ih =>
    rw [logged_outputs_append, ended_flatten_append]
    simp [callTexts, ih]

/-- The logger gets the lines of the output, each without its carriage return, and the rest of the
output is in the buffer.  Nothing here depends on how the output is cut. -/
def LogsLines (chunks : List ByteString) : Prop :=
  (outputs chunks).logged =
      (Lines.ended newline chunks.flatten).map (popIfLast carriageReturn) ∧
    (outputs chunks).agentOutputBuffer = Lines.unfinished newline chunks.flatten

theorem logsLines_append_iff (chunks : List ByteString) (chunk : ByteString) :
    LogsLines (chunks ++ [chunk]) ↔
      LogsLines chunks ∧ (buffered chunks chunk).tail.dropLast.count newline ≤ 1 := by
  have hlen : (outputs chunks).logged.length =
      ((Lines.ended newline chunks.flatten).map (popIfLast carriageReturn)).length := by
    rw [length_logged_outputs, List.length_map]
  simp only [LogsLines, agentOutputBuffer_outputs, and_true]
  rw [← logs_callTexts_iff, logged_outputs_append, ended_flatten_append, List.map_append]
  constructor
  · intro h
    exact List.append_inj h hlen
  · rintro ⟨hlogged, hcall⟩
    rw [hlogged, hcall]

/-- **The logger gets the lines of the output** exactly if in every call at most one newline is
neither the first nor the last character of the buffer. -/
theorem logsLines_iff (chunks : List ByteString) :
    LogsLines chunks ↔ ∀ before chunk, before ++ [chunk] <+: chunks →
      (Lines.unfinished newline before.flatten ++ chunk).tail.dropLast.count newline ≤ 1 := by
  induction chunks using List.reverseRecOn with
  | nil =>
    refine iff_of_true ⟨rfl, rfl⟩ fun before chunk h => ?_
    simp at h
  | append_singleton chunks chunk ih =>
    rw [logsLines_append_iff, ih]
    constructor
    · rintro ⟨hbefore, hlast⟩ before chunk' h
      rcases List.prefix_concat_iff.mp h with h | h
      · obtain ⟨rfl, rfl⟩ := List.append_singleton_inj.mp h
        exact hlast
      · exact hbefore before chunk' h
    · intro h
      refine ⟨fun before chunk' hp => h before chunk' (hp.trans (List.prefix_append _ _)), ?_⟩
      exact h chunks chunk List.prefix_rfl

/-- The output `a`, `b` and the beginning of a third line, read at once: the second line is logged
as `b` and the text after it. -/
theorem not_logsLines_three_lines : ¬ LogsLines [[97, 10, 98, 10, 99]] := by
  unfold LogsLines
  decide

/-! ## The line that says ready -/

theorem newline_notMem_AGENT_READY_MSG : newline ∉ AGENT_READY_MSG := by decide

/-- **What a text goes on with does not matter**, since the message has no newline. -/
theorem AGENT_READY_MSG_prefix_iff (line q : ByteString) (n : ℕ) :
    AGENT_READY_MSG <+: line ++ (newline :: q).take n ↔ AGENT_READY_MSG <+: line := by
  refine ⟨fun h => ?_, fun h => h.trans (List.prefix_append _ _)⟩
  rcases List.prefix_or_prefix_of_prefix h (List.prefix_append line _) with h' | ⟨m, hm⟩
  · exact h'
  rw [← hm, List.prefix_append_right_inj] at h
  cases m with
  | nil =>
    rw [List.append_nil] at hm
    exact hm ▸ List.prefix_rfl
  | cons b m =>
    -- The message would go on with the newline.
    have hb : b = newline := by
      have := (h.trans (List.take_prefix n _))
      exact (List.cons_prefix_cons.mp this).1
    refine absurd ?_ newline_notMem_AGENT_READY_MSG
    rw [← hm, hb]
    simp

theorem exists_taken_iff (rest : ByteString) (lineStart : ℕ) (lines : List ByteString) :
    (∃ text ∈ taken rest lineStart lines, AGENT_READY_MSG <+: text) ↔
      ∃ line ∈ lines, AGENT_READY_MSG <+: line := by
  induction lines generalizing lineStart with
  | nil => simp [taken]
  | cons line lines ih =>
    have hline : AGENT_READY_MSG <+:
        (Lines.join newline (line :: lines) rest).take (lineStart + line.length) ↔
          AGENT_READY_MSG <+: line := by
      rw [Lines.join_cons, Nat.add_comm, List.take_length_add_append, AGENT_READY_MSG_prefix_iff]
    simp only [taken, List.mem_cons, exists_eq_or_imp, hline, ih]

/-- Both flags are set. -/
def Raised (a : AgentOutput) : Prop :=
  a.agentReady = true ∧ a.agentReadyNotified = true

/-- The flags of `a` are those of `b`. -/
def SameFlags (a b : AgentOutput) : Prop :=
  a.agentReady = b.agentReady ∧ a.agentReadyNotified = b.agentReadyNotified

/-- The texts raise the notification exactly if one of them begins with the message. -/
theorem flags_foldl_handleLine (texts : List ByteString) :
    ((∃ text ∈ texts, AGENT_READY_MSG <+: text) → Raised (texts.foldl handleLine a)) ∧
      ((¬ ∃ text ∈ texts, AGENT_READY_MSG <+: text) → SameFlags (texts.foldl handleLine a) a) := by
  induction texts generalizing a with
  | nil => exact ⟨fun ⟨_, h, _⟩ => absurd h List.not_mem_nil, fun _ => ⟨rfl, rfl⟩⟩
  | cons text texts ih =>
    obtain ⟨hraise, hkeep⟩ := ih (a.handleLine text)
    rw [List.foldl_cons]
    by_cases htext : AGENT_READY_MSG <+: text
    · have hnow : Raised (a.handleLine text) := by
        simp [Raised, handleLine, htext]
      refine ⟨fun _ => ?_, fun h => absurd ⟨text, List.mem_cons_self, htext⟩ h⟩
      by_cases hlater : ∃ text ∈ texts, AGENT_READY_MSG <+: text
      · exact hraise hlater
      · obtain ⟨h₁, h₂⟩ := hkeep hlater
        exact ⟨h₁.trans hnow.1, h₂.trans hnow.2⟩
    · have hnow : SameFlags (a.handleLine text) a := by
        simp [SameFlags, handleLine, htext]
      simp only [List.mem_cons, exists_eq_or_imp, htext, false_or]
      refine ⟨hraise, fun h => ?_⟩
      obtain ⟨h₁, h₂⟩ := hkeep h
      exact ⟨h₁.trans hnow.1, h₂.trans hnow.2⟩

/-- The lines of which `chunk` brings the newline. -/
def delivered (before : List ByteString) (chunk : ByteString) : List ByteString :=
  (Lines.ended newline (before ++ [chunk]).flatten).drop (Lines.ended newline before.flatten).length

theorem delivered_eq (before : List ByteString) (chunk : ByteString) :
    delivered before chunk = Lines.ended newline (buffered before chunk) := by
  rw [delivered, ended_flatten_append, List.drop_left]

/-- The flags after one call, whatever they have been set to since the last one. -/
theorem flags_handleDaemonOutput (before : List ByteString) (chunk : ByteString)
    (hbuffer : a.agentOutputBuffer = (outputs before).agentOutputBuffer) :
    ((∃ line ∈ delivered before chunk, AGENT_READY_MSG <+: line) →
        Raised (a.handleDaemonOutput chunk)) ∧
      ((¬ ∃ line ∈ delivered before chunk, AGENT_READY_MSG <+: line) →
        SameFlags (a.handleDaemonOutput chunk) a) := by
  have htexts : a.agentOutputBuffer ++ chunk = buffered before chunk := by
    rw [hbuffer, agentOutputBuffer_outputs]
    rfl
  rw [delivered_eq, ← exists_taken_iff (Lines.unfinished newline (buffered before chunk)) 0,
    handleDaemonOutput_eq, htexts]
  exact flags_foldl_handleLine _ _

/-- After all calls the notification has been raised exactly if a line begins with the message. -/
theorem raised_outputs_iff (chunks : List ByteString) : Raised (outputs chunks) ↔
    ∃ line ∈ Lines.ended newline chunks.flatten, AGENT_READY_MSG <+: line := by
  induction chunks using List.reverseRecOn with
  | nil => simp [outputs, new, Raised, Lines.ended_of_notMem]
  | append_singleton chunks chunk ih =>
    obtain ⟨hraise, hkeep⟩ := flags_handleDaemonOutput (outputs chunks) chunks chunk rfl
    rw [outputs_append, ended_flatten_append, ← delivered_eq]
    simp only [List.mem_append, or_and_right, exists_or, ← ih]
    by_cases h : ∃ line ∈ delivered chunks chunk, AGENT_READY_MSG <+: line
    · exact iff_of_true (hraise h) (.inr h)
    · obtain ⟨h₁, h₂⟩ := hkeep h
      rw [Raised, h₁, h₂, or_iff_left h]
      rfl

/-- **The notification is raised by the calls that bring the newline of a line that begins with the
message, and by no others**; so after all calls it has been raised exactly if there is such a line.
The flags are what `begin` and the end of the agent have made of them when a call comes. -/
theorem ready_iff :
    (∀ before chunk ready notified,
      let a := { outputs before with agentReady := ready, agentReadyNotified := notified }
      ((∃ line ∈ delivered before chunk, AGENT_READY_MSG <+: line) →
          Raised (a.handleDaemonOutput chunk)) ∧
        ((¬ ∃ line ∈ delivered before chunk, AGENT_READY_MSG <+: line) →
          SameFlags (a.handleDaemonOutput chunk) a)) ∧
    ∀ chunks, Raised (outputs chunks) ↔
      ∃ line ∈ Lines.ended newline chunks.flatten, AGENT_READY_MSG <+: line := by
  exact ⟨fun before chunk ready notified => flags_handleDaemonOutput _ before chunk rfl,
    raised_outputs_iff⟩

end AgentOutput

end NandroidFS
