import Mathlib.Algebra.GroupWithZero.Nat
import NandroidFS.Shared.Serialization

/-!
# Sequences of calls

`Serialization` says what one call of the reader or of the writer does.  Here the calls follow one
another on one buffer.  Read by read, the answers are consecutive slices of the stream; write by
write, what was sent and what is pending is everything that was written.

The loops of the model carry a number of rounds.  The first sections show that it never matters:
a loop that is given more rounds than it needs is the same program.
-/

namespace NandroidFS

namespace DataReader

variable {E : Type} {R : E → Type}

/-! ## Enough rounds -/

/-- Once there are more rounds than bytes, the direct loop is the same program. -/
theorem readDirect_rounds (bufferSize rounds : ℕ) :
    ∀ (rounds' : ℕ) (got : List UInt8) (numBytes : ℕ), numBytes < rounds → numBytes < rounds' →
      (readDirect bufferSize rounds got numBytes : SocketM E R (List UInt8 × ℕ)) =
        readDirect bufferSize rounds' got numBytes := by
  induction rounds with
  | zero =>
    intro rounds' got numBytes h
    omega
  | succ rounds ih =>
    intro rounds' got numBytes h h'
    obtain ⟨rounds', rfl⟩ : ∃ m, rounds' = m + 1 := ⟨rounds' - 1, by omega⟩
    rw [readDirect, readDirect]
    split
    · congr 1
      funext bytes
      split
      · rfl
      · exact ih _ _ _ (by omega) (by omega)
    · rfl

/-- The direct loop never asks for more than it was given to read. -/
theorem returns_readDirect (bufferSize rounds : ℕ) :
    ∀ (got : List UInt8) (numBytes : ℕ),
      (readDirect bufferSize rounds got numBytes : SocketM E R (List UInt8 × ℕ)).Returns
        fun p => p.2 ≤ numBytes := by
  induction rounds with
  | zero =>
    intro got numBytes
    exact le_rfl
  | succ rounds ih =>
    intro got numBytes
    rw [readDirect]
    split
    · intro bytes
      show Prog.Returns _ (if _ then _ else _)
      split
      · exact le_rfl
      · exact Prog.Returns.mono (fun p hp => le_trans hp (Nat.sub_le _ _)) (ih _ _)
    · exact le_rfl

/-- The rounds that the outer loop may need: one for each byte, and one more if its first round
finds the buffer empty. -/
def Enough (rounds numBytes : ℕ) (r : DataReader) : Prop :=
  numBytes < rounds ∨ 0 < numBytes ∧ numBytes ≤ rounds ∧ r.pending ≠ []

/-- What the refilled loop has left is enough again. -/
theorem Enough.refill {rounds numBytes left : ℕ} {r r' : DataReader}
    (h : Enough (rounds + 1) numBytes r) (h0 : left ≠ 0)
    (hleft : left ≤ numBytes - min numBytes (r.readIntoBuffer - r.positionInBuffer))
    (hr' : r'.pending ≠ []) : Enough rounds left r' := by
  refine Or.inr ⟨by omega, ?_, hr'⟩
  rcases h with h | ⟨-, h, hp⟩
  · omega
  · have hpos := List.length_pos_iff.mpr hp
    rw [r.length_pending] at hpos
    omega

/-- **The outer loop ends by itself**: once it has enough rounds, more of them give the same
program. -/
theorem readRounds_rounds (rounds : ℕ) :
    ∀ (rounds' : ℕ) (got : List UInt8) (numBytes : ℕ) (r : DataReader),
      Enough rounds numBytes r → Enough rounds' numBytes r →
      (readRounds rounds got numBytes r : SocketM E R (Option (List UInt8) × DataReader)) =
        readRounds rounds' got numBytes r := by
  induction rounds with
  | zero =>
    intro rounds' got numBytes r h
    unfold Enough at h
    omega
  | succ rounds ih =>
    intro rounds' got numBytes r h h'
    obtain ⟨rounds', rfl⟩ : ∃ m, rounds' = m + 1 := by
      unfold Enough at h'
      exact ⟨rounds' - 1, by omega⟩
    rw [readRounds, readRounds]
    split
    · rfl
    · refine Prog.bind_congr_of_returns (returns_readDirect _ _ _ _) fun p hp => ?_
      obtain ⟨got', left⟩ := p
      simp only
      split
      · rfl
      · next h0 =>
        congr 1
        funext chunk
        split
        · rfl
        · next hc =>
          have hne : chunk.1 ≠ [] := fun hnil => hc (by rw [hnil]; rfl)
          exact ih _ _ _ _ (h.refill h0 hp (by rwa [pending_refill]))
            (h'.refill h0 hp (by rwa [pending_refill]))

/-- The size of the buffer is never changed. -/
theorem returns_readRounds (rounds : ℕ) :
    ∀ (got : List UInt8) (numBytes : ℕ) (r : DataReader),
      (readRounds rounds got numBytes r : SocketM E R (Option (List UInt8) × DataReader)).Returns
        fun p => p.2.bufferSize = r.bufferSize := by
  induction rounds with
  | zero =>
    intro got numBytes r
    exact rfl
  | succ rounds ih =>
    intro got numBytes r
    rw [readRounds]
    split
    · exact rfl
    · refine (returns_readDirect _ _ _ _).bind fun p _ => ?_
      obtain ⟨got', left⟩ := p
      simp only
      split
      · exact rfl
      · intro chunk
        show Prog.Returns _ (if _ then _ else _)
        split
        · exact rfl
        · exact ih got' left (DataReader.refill _ chunk.1 chunk.2)

/-! ## Reading in sequence -/

/-- The calls of `read_exact` for `sizes`, one after the other.  A call that raises does not stop
the calls after it: what it raised was caught by its caller.  With each answer stands the reader
as the call left it. -/
def readAll : List ℕ → DataReader → SocketM E R (List (Option (List UInt8) × DataReader))
  | [], _ => .ret []
  | n :: sizes, r =>
      r.readExact n >>= fun answer =>
        readAll sizes answer.2 >>= fun answers => .ret (answer :: answers)

/-- The slice of `size` bytes at `start`, if that many are left there. -/
def sliceAt (stream : List UInt8) (start size : ℕ) : Option (List UInt8) :=
  if size ≤ (stream.drop start).length then some ((stream.drop start).take size) else none

theorem sliceAt_drop (stream : List UInt8) (n start size : ℕ) :
    sliceAt (stream.drop n) start size = sliceAt stream (n + start) size := by
  unfold sliceAt
  rw [List.drop_drop]

/-- What the answers to a sequence of reads are: the `k`-th is the slice that starts where the
reads before it end, and the reader it leaves keeps its indices in order. -/
structure Slices (bufferSize : ℕ) (stream : List UInt8) (sizes : List ℕ)
    (answers : List (Option (List UInt8) × DataReader)) : Prop where
  length_eq : answers.length = sizes.length
  slice : ∀ k n answer r, sizes[k]? = some n → answers[k]? = some (answer, r) →
    answer = sliceAt stream (sizes.take k).sum n
  bounds : ∀ answer r, (answer, r) ∈ answers →
    r.positionInBuffer ≤ r.readIntoBuffer ∧ r.readIntoBuffer ≤ r.bufferSize ∧
      r.bufferSize = bufferSize

variable {bufferSize : ℕ} {stream : List UInt8}

theorem Slices.nil : Slices bufferSize stream [] [] where
  length_eq := rfl
  slice := by
    intro k n answer r h
    simp at h
  bounds := by
    intro answer r h
    simp at h

theorem Slices.cons {n : ℕ} {sizes : List ℕ} {r : DataReader} {answer : Option (List UInt8)}
    {answers : List (Option (List UInt8) × DataReader)}
    (hanswer : answer = sliceAt stream 0 n) (hr : r.bufferSize = bufferSize)
    (h : Slices bufferSize (stream.drop n) sizes answers) :
    Slices bufferSize stream (n :: sizes) ((answer, r) :: answers) where
  length_eq := by
    simp only [List.length_cons, h.length_eq]
  slice := by
    intro k m answer' r' hk ha
    cases k with
    | zero =>
      simp only [List.getElem?_cons_zero, Option.some.injEq, Prod.mk.injEq] at hk ha
      rw [← hk, ← ha.1, hanswer, List.take_zero, List.sum_nil]
    | succ k =>
      simp only [List.getElem?_cons_succ] at hk ha
      rw [h.slice k m answer' r' hk ha, sliceAt_drop, List.take_succ_cons, List.sum_cons]
  bounds := by
    intro answer' r' hmem
    rcases List.mem_cons.mp hmem with heq | hmem
    · obtain ⟨-, rfl⟩ := Prod.mk.inj heq
      exact ⟨r'.position_le, r'.read_le, hr⟩
    · exact h.bounds answer' r' hmem

variable {W : Type} {world : (e : E) → W → R e × W} {w : W} {o : List UInt8}

theorem safe_readAll (sizes : List ℕ) :
    ∀ (r : DataReader) (i : List UInt8), r.bufferSize = bufferSize →
      SocketM.Safe world true
        (fun answers w' _ o' => Slices bufferSize (r.pending ++ i) sizes answers ∧ w' = w ∧ o' = o)
        (readAll (E := E) (R := R) sizes r) w i o := by
  induction sizes with
  | nil =>
    intro r i _
    exact ⟨Slices.nil, rfl, rfl⟩
  | cons n sizes ih =>
    intro r i hr
    rw [readAll, SocketM.safe_bind]
    -- the reader that the call leaves holds the front of what the later calls will see
    have hcall : SocketM.Safe world true
        (fun answer w' i' o' => (answer.2.pending ++ i' = (r.pending ++ i).drop n ∧
          answer.1 = sliceAt (r.pending ++ i) 0 n ∧ w' = w ∧ o' = o) ∧
            answer.2.bufferSize = r.bufferSize) (r.readExact (E := E) (R := R) n) w i o := by
      refine SocketM.Safe.and_returns (safe_readExact (Or.inl rfl) ?_ ?_)
        (returns_readRounds _ _ _ _)
      · intro r' i' hle hr'
        refine ⟨hr', ?_, rfl, rfl⟩
        rw [sliceAt, List.drop_zero, if_pos hle]
      · intro r' hlt hr'
        refine ⟨?_, ?_, rfl, rfl⟩
        · rw [hr', List.drop_of_length_le (Nat.le_of_lt hlt), List.append_nil]
        · rw [sliceAt, List.drop_zero, if_neg (Nat.not_le.mpr hlt)]
    refine hcall.mono fun answer w' i' o' h => ?_
    obtain ⟨⟨hrest, hslice, rfl, rfl⟩, hsize⟩ := h
    rw [SocketM.safe_bind]
    refine (ih answer.2 i' (hsize.trans hr)).mono fun answers w'' i'' o'' hs => ?_
    rw [hrest] at hs
    exact ⟨Slices.cons hslice (hsize.trans hr) hs.1, hs.2⟩

/-- **Reads in sequence.**  On every stream, for every way it is cut and for every list of sizes,
the calls of `read_exact` return consecutive slices of the stream, a call raises exactly if fewer
bytes are left than it asks for, and between the calls the indices are in order.  No call depends on
the rounds that its two loops are given: with any number above `n` they are the same programs. -/
theorem readAll_slices (bufferSize : ℕ) (hb : 0 < bufferSize) (stream : List UInt8)
    (sizes : List ℕ) (w : W) (o : List UInt8) :
    (∀ (r : DataReader) (n rounds : ℕ), n < rounds →
      (readRounds rounds [] n r : SocketM E R (Option (List UInt8) × DataReader)) =
        r.readExact n) ∧
    (∀ (got : List UInt8) (n rounds : ℕ), n < rounds →
      (readDirect bufferSize rounds got n : SocketM E R (List UInt8 × ℕ)) =
        readDirect bufferSize (n + 1) got n) ∧
    SocketM.Safe world true
      (fun answers w' _ o' => Slices bufferSize stream sizes answers ∧ w' = w ∧ o' = o)
      (readAll (E := E) (R := R) sizes (DataReader.new bufferSize hb)) w stream o := by
  refine ⟨?_, ?_, ?_⟩
  · intro r n rounds hn
    exact readRounds_rounds _ _ _ _ _ (Or.inl hn) (Or.inl (Nat.lt_succ_self n))
  · intro got n rounds hn
    exact readDirect_rounds _ _ _ _ _ hn (Nat.lt_succ_self n)
  · have hnil : (DataReader.new bufferSize hb).pending = [] := by
      simp [new, pending]
    have h : SocketM.Safe world true
        (fun answers w' _ o' =>
          Slices bufferSize ((DataReader.new bufferSize hb).pending ++ stream) sizes answers ∧
            w' = w ∧ o' = o)
        (readAll (E := E) (R := R) sizes (DataReader.new bufferSize hb)) w stream o :=
      safe_readAll sizes _ stream rfl
    rwa [hnil, List.nil_append] at h

/-- Three bytes through a buffer of two: the first call gets two of them, the second raises, and
so does the third, since the second used up what was left. -/
theorem readAll_slices_three :
    SocketM.Safe (E := Unit) (R := fun _ => Unit) (fun _ w => ((), w)) true
      (fun answers (_ : Unit) _ _ => Slices 2 [1, 2, 3] [2, 2, 1] answers)
      (readAll [2, 2, 1] (DataReader.new 2 (by decide))) () [1, 2, 3] [] :=
  (readAll_slices 2 (by decide) [1, 2, 3] [2, 2, 1] () []).2.2.mono fun _ _ _ _ h => h.1

end DataReader

namespace DataWriter

variable {E : Type} {R : E → Type}

/-! ## Writing in sequence -/

/-- On an empty buffer the loop of `write_exact` does not come to a second round. -/
theorem writeRounds_of_empty {d : DataWriter} (hd : d.bufferBytesFilled = 0) (rounds : ℕ)
    (data : List UInt8) :
    (writeRounds (rounds + 1) data d : SocketM E R DataWriter) = writeRounds 1 data d := by
  rw [writeRounds, writeRounds]
  split
  · rfl
  · simp only
    split
    · rfl
    · next hne =>
      have hlen : min data.length (d.bufferSize - d.bufferBytesFilled) = data.length := by omega
      have hrest : (data.drop (min data.length (d.bufferSize - d.bufferBytesFilled))).length
          = 0 := by
        rw [hlen, List.drop_length, List.length_nil]
      rw [if_pos hrest, if_pos hrest]

/-- **The loop of `write_exact` ends by itself**: from two rounds on it is the same program. -/
theorem writeRounds_rounds {rounds : ℕ} (h : 2 ≤ rounds) (data : List UInt8) (d : DataWriter) :
    (writeRounds rounds data d : SocketM E R DataWriter) = d.writeExact data := by
  obtain ⟨rounds, rfl⟩ : ∃ m, rounds = m + 2 := ⟨rounds - 2, by omega⟩
  rw [writeExact, writeRounds, writeRounds]
  split
  · rfl
  · simp only
    split
    · rfl
    · split
      · rfl
      · rw [flush, Prog.bind_assoc, Prog.bind_assoc]
        congr 1
        funext u
        rw [Prog.ret_bind, Prog.ret_bind]
        exact writeRounds_of_empty rfl rounds _

/-- The calls of a writer. -/
inductive WriterCall : Type where
  | writeExact (data : List UInt8)
  | flush

/-- The bytes that a call writes. -/
def WriterCall.written : WriterCall → List UInt8
  | .writeExact data => data
  | .flush => []

/-- One call. -/
def call (d : DataWriter) : WriterCall → SocketM E R DataWriter
  | .writeExact data => d.writeExact data
  | .flush => d.flush

/-- The calls, one after the other. -/
def callAll : List WriterCall → DataWriter → SocketM E R DataWriter
  | [], d => .ret d
  | c :: calls, d => d.call c >>= callAll calls

theorem callAll_append (calls calls' : List WriterCall) (d : DataWriter) :
    (callAll (calls ++ calls') d : SocketM E R DataWriter) =
      callAll calls d >>= callAll calls' := by
  induction calls generalizing d with
  | nil => rfl
  | cons c calls ih =>
    rw [List.cons_append, callAll, callAll, Prog.bind_assoc]
    exact congrArg _ (funext ih)

/-- The size of the buffer is never changed. -/
theorem returns_writeRounds (rounds : ℕ) :
    ∀ (data : List UInt8) (d : DataWriter),
      (writeRounds rounds data d : SocketM E R DataWriter).Returns
        fun d' => d'.bufferSize = d.bufferSize := by
  have hwrite (bs : List UInt8) : (write bs : SocketM E R Unit).Returns fun _ => True :=
    Prog.returns_true _
  induction rounds with
  | zero =>
    intro data d
    exact rfl
  | succ rounds ih =>
    intro data d
    rw [writeRounds]
    split
    · exact rfl
    · simp only
      split
      · exact (hwrite _).bind fun _ _ => rfl
      · split
        · exact rfl
        · rw [flush, Prog.bind_assoc]
          refine (hwrite _).bind fun _ _ => ?_
          rw [Prog.ret_bind]
          exact ih _ (DataWriter.clear (DataWriter.copyIn d _ _))

theorem returns_call (c : WriterCall) (d : DataWriter) :
    (d.call c : SocketM E R DataWriter).Returns fun d' => d'.bufferSize = d.bufferSize := by
  cases c with
  | writeExact data => exact returns_writeRounds _ _ _
  | flush => exact (Prog.returns_true _).bind fun _ _ => rfl

variable {W : Type} {world : (e : E) → W → R e × W} {closed : Bool} {w : W} {i : List UInt8}

/-- What has been sent and what is pending grows by what the call writes. -/
theorem safe_call (c : WriterCall) (d : DataWriter) (o : List UInt8) :
    SocketM.Safe world closed
      (fun d' w' i' o' => (o' ++ d'.pending = o ++ d.pending ++ c.written ∧ w' = w ∧ i' = i) ∧
        d'.bufferSize = d.bufferSize)
      (d.call (E := E) (R := R) c) w i o := by
  refine SocketM.Safe.and_returns ?_ (returns_call c d)
  cases c with
  | writeExact data => exact safe_writeExact fun d' o' h => ⟨h, rfl, rfl⟩
  | flush =>
    refine safe_flush ⟨?_, rfl, rfl⟩
    rw [pending_clear, WriterCall.written]

theorem safe_callAll (calls : List WriterCall) :
    ∀ (d : DataWriter) (o : List UInt8),
      SocketM.Safe world closed
        (fun d' w' i' o' => (o' ++ d'.pending = o ++ d.pending ++ calls.flatMap WriterCall.written ∧
          w' = w ∧ i' = i) ∧ d'.bufferSize = d.bufferSize)
        (callAll (E := E) (R := R) calls d) w i o := by
  induction calls with
  | nil =>
    intro d o
    exact ⟨⟨(List.append_nil _).symm, rfl, rfl⟩, rfl⟩
  | cons c calls ih =>
    intro d o
    rw [callAll, SocketM.safe_bind]
    refine (safe_call c d o).mono fun d' w' i' o' h => ?_
    obtain ⟨⟨hsent, rfl, rfl⟩, hsize⟩ := h
    refine (ih d' o').mono fun d'' w'' i'' o'' h => ?_
    rw [hsent, hsize, List.append_assoc, ← List.flatMap_cons] at h
    exact h

/-- **Writes in sequence.**  For every list of calls and every way the socket takes what it is
offered, what has been sent followed by what the buffer holds is everything written so far, and
after a flush all of it has been sent.  The loop of `write_exact` does not depend on its rounds. -/
theorem callAll_written (bufferSize : ℕ) (hb : 0 < bufferSize) (calls : List WriterCall) (w : W)
    (i o : List UInt8) :
    (∀ (d : DataWriter) (data : List UInt8) (rounds : ℕ), 2 ≤ rounds →
      (writeRounds rounds data d : SocketM E R DataWriter) = d.writeExact data) ∧
    SocketM.Safe world closed
      (fun d w' i' sent =>
        sent ++ d.buffer.take d.bufferBytesFilled = o ++ calls.flatMap WriterCall.written ∧
        d.bufferBytesFilled ≤ d.bufferSize ∧ d.bufferSize = bufferSize ∧ w' = w ∧ i' = i ∧
        (calls.getLast? = some .flush → sent = o ++ calls.flatMap WriterCall.written))
      (callAll (E := E) (R := R) calls (DataWriter.new bufferSize hb)) w i o := by
  have hnil : (DataWriter.new bufferSize hb).pending = [] := pending_eq_nil_of_filled rfl
  refine ⟨fun d data rounds h => writeRounds_rounds h data d, ?_⟩
  by_cases hlast : calls.getLast? = some .flush
  · obtain ⟨before, rfl⟩ := List.getLast?_eq_some_iff.mp hlast
    rw [callAll_append, SocketM.safe_bind]
    refine (safe_callAll before _ o).mono fun d w' i' o' h => ?_
    obtain ⟨⟨hsent, rfl, rfl⟩, hsize⟩ := h
    rw [callAll, SocketM.safe_bind, call]
    have hall : o' ++ d.pending =
        o ++ (before ++ [WriterCall.flush]).flatMap WriterCall.written := by
      rw [hsent, hnil, List.append_nil, List.flatMap_append, List.flatMap_singleton,
        WriterCall.written, List.append_nil]
    refine safe_flush ⟨?_, d.clear.filled_le, hsize, rfl, rfl, fun _ => hall⟩
    show (o' ++ d.pending) ++ d.clear.pending = _
    rw [pending_clear, List.append_nil, hall]
  · refine (safe_callAll calls _ o).mono fun d w' i' o' h => ?_
    obtain ⟨⟨hsent, hw, hi⟩, hsize⟩ := h
    rw [hnil, List.append_nil] at hsent
    exact ⟨hsent, d.filled_le, hsize, hw, hi, fun h => absurd h hlast⟩

/-- Five bytes in two calls through a buffer of two, then a flush. -/
theorem callAll_written_five :
    SocketM.Safe (E := Unit) (R := fun _ => Unit) (fun _ w => ((), w)) false
      (fun _ (_ : Unit) _ sent => sent = [1, 2, 3, 4, 5])
      (callAll [.writeExact [1], .writeExact [2, 3, 4, 5], .flush] (DataWriter.new 2 (by decide)))
      () [] [] := by
  have h := @callAll_written Unit (fun _ => Unit) Unit (fun _ w => ((), w)) false 2 (by decide)
    [.writeExact [1], .writeExact [2, 3, 4, 5], .flush] () [] []
  refine h.2.mono ?_
  intro d w i sent hpost
  exact hpost.2.2.2.2.2 rfl

end DataWriter

end NandroidFS
