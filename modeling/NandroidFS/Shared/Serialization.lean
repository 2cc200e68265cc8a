import NandroidFS.Streams.Socket

/-!
# The buffered reader and writer

`DataReader` and `DataWriter` of `serialization.cpp`, as programs on a socket: the reader's
buffer, the direct reads that bypass it and the refills, the writer's buffer, the direct write and
the lazy flush, and under both the loop that sends until everything has been taken.

Three facts are all that the rest of the development uses of them, and each holds for every buffer
size and for every way the socket cuts the data: `safe_readExact`, `safe_writeExact` and
`safe_flush`.
-/

namespace NandroidFS

/-- `DataReader`: the buffer, how much of it was filled by the last read, and how much of that has
been handed out. -/
structure DataReader where
  bufferSize : ℕ
  buffer : List UInt8
  readIntoBuffer : ℕ
  positionInBuffer : ℕ
  bufferSize_pos : 0 < bufferSize
  length_buffer : buffer.length = bufferSize
  read_le : readIntoBuffer ≤ bufferSize
  position_le : positionInBuffer ≤ readIntoBuffer

/-- `DataWriter`: the buffer and how much of it waits to be sent. -/
structure DataWriter where
  bufferSize : ℕ
  buffer : List UInt8
  bufferBytesFilled : ℕ
  bufferSize_pos : 0 < bufferSize
  length_buffer : buffer.length = bufferSize
  filled_le : bufferBytesFilled ≤ bufferSize

namespace DataReader

variable {E : Type} {R : E → Type}

/-- A fresh reader.  The memory it allocates is not initialised; nothing reads it before it is
written, so zeros will do. -/
def new (bufferSize : ℕ) (h : 0 < bufferSize) : DataReader where
  bufferSize := bufferSize
  buffer := List.replicate bufferSize 0
  readIntoBuffer := 0
  positionInBuffer := 0
  bufferSize_pos := h
  length_buffer := List.length_replicate
  read_le := Nat.zero_le _
  position_le := le_rfl

/-- The bytes read from the socket and not yet handed out. -/
def pending (r : DataReader) : List UInt8 :=
  (r.buffer.take r.readIntoBuffer).drop r.positionInBuffer

theorem length_pending (r : DataReader) :
    r.pending.length = r.readIntoBuffer - r.positionInBuffer := by
  have h1 := r.read_le
  rw [pending, List.length_drop, List.length_take, r.length_buffer]
  omega

/-- Hand out `n` of the pending bytes. -/
def advance (r : DataReader) (n : ℕ) (h : n ≤ r.readIntoBuffer - r.positionInBuffer) :
    DataReader :=
  { r with
    positionInBuffer := r.positionInBuffer + n
    position_le := by have := r.position_le; omega }

theorem pending_advance (r : DataReader) (n : ℕ)
    (h : n ≤ r.readIntoBuffer - r.positionInBuffer) :
    (r.advance n h).pending = r.pending.drop n := by
  rw [pending, pending, List.drop_drop]
  rfl

/-- A socket read into the buffer, which overwrites its front. -/
def refill (r : DataReader) (chunk : List UInt8) (h : chunk.length ≤ r.bufferSize) : DataReader :=
  { r with
    buffer := chunk ++ r.buffer.drop chunk.length
    readIntoBuffer := chunk.length
    positionInBuffer := 0
    length_buffer := by
      rw [List.length_append, List.length_drop, r.length_buffer]
      omega
    read_le := h
    position_le := Nat.zero_le _ }

@[simp] theorem pending_refill (r : DataReader) (chunk : List UInt8)
    (h : chunk.length ≤ r.bufferSize) : (r.refill chunk h).pending = chunk := by
  simp [pending, refill]

/-- The loop that reads straight into the destination while at least a buffer's worth is missing
and the last read brought something.  `got` is the destination so far.  Each round but the last
brings a byte, so `numBytes + 1` rounds are enough. -/
def readDirect (bufferSize : ℕ) : (rounds : ℕ) → (got : List UInt8) → (numBytes : ℕ) →
    SocketM E R (List UInt8 × ℕ)
  | 0, got, numBytes => .ret (got, numBytes)
  | rounds + 1, got, numBytes =>
      if bufferSize ≤ numBytes then
        .act (.recv numBytes) fun bytes =>
          if bytes.1.length = 0 then .ret (got, numBytes)
          else readDirect bufferSize rounds (got ++ bytes.1) (numBytes - bytes.1.length)
      else .ret (got, numBytes)

/-- The outer loop of `read_exact`.  Every round after the first finds a byte in the buffer, so
`numBytes + 1` rounds are enough; `none` is the `EOFException`. -/
def readRounds : (rounds : ℕ) → (got : List UInt8) → (numBytes : ℕ) → DataReader →
    SocketM E R (Option (List UInt8) × DataReader)
  | 0, _, _, r => .ret (none, r)
  | rounds + 1, got, numBytes, r =>
      if numBytes = 0 then .ret (some got, r)
      else
        let remBytesInBuffer := r.readIntoBuffer - r.positionInBuffer
        let bytesToCopy := min numBytes remBytesInBuffer
        let r' := r.advance bytesToCopy (Nat.min_le_right _ _)
        let left := numBytes - bytesToCopy
        readDirect r.bufferSize (left + 1) (got ++ r.pending.take bytesToCopy) left >>=
          fun (got', left') =>
            if left' = 0 then .ret (some got', r')
            else .act (.recv r'.bufferSize) fun chunk =>
              if chunk.1.length = 0 then .ret (none, r')
              else readRounds rounds got' left' (r'.refill chunk.1 chunk.2)

/-- `DataReader::read_exact`. -/
def readExact (r : DataReader) (numBytes : ℕ) : SocketM E R (Option (List UInt8) × DataReader) :=
  readRounds (numBytes + 1) [] numBytes r

/-- A reader with an empty buffer goes to the socket first. -/
theorem exists_recv_of_pending_nil {r : DataReader} (hr : r.pending = []) {n : ℕ} (hn : 0 < n) :
    ∃ m k, (r.readExact n : SocketM E R (Option (List UInt8) × DataReader)) =
      .act (.recv m) k := by
  have hrem : r.readIntoBuffer - r.positionInBuffer = 0 := by
    rw [← r.length_pending, hr, List.length_nil]
  rw [readExact, readRounds, if_neg (Nat.ne_of_gt hn)]
  simp only [hrem, Nat.min_zero, Nat.sub_zero]
  rw [readDirect]
  split
  · exact ⟨_, _, rfl⟩
  · rw [Prog.ret_bind]
    simp only [if_neg (Nat.ne_of_gt hn)]
    exact ⟨_, _, rfl⟩

/-! ### What the reader guarantees -/

variable {W : Type} {world : (e : E) → W → R e × W} {closed : Bool} {w : W} {o : List UInt8}

theorem safe_readDirect {bufferSize : ℕ} (hb : 0 < bufferSize)
    {Q : List UInt8 × ℕ → W → List UInt8 → List UInt8 → Prop} (rounds : ℕ) :
    ∀ (got : List UInt8) (numBytes : ℕ) (i : List UInt8), numBytes < rounds →
      (closed = true ∨ numBytes ≤ i.length) →
      (∀ taken i', i = taken ++ i' → taken.length ≤ numBytes →
        Q (got ++ taken, numBytes - taken.length) w i' o) →
      SocketM.Safe world closed Q (readDirect (E := E) (R := R) bufferSize rounds got numBytes)
        w i o := by
  induction rounds with
  | zero =>
    intro got numBytes i h
    omega
  | succ rounds ih =>
    intro got numBytes i hr hlive hQ
    have hstop : Q (got, numBytes) w i o := by
      have := hQ [] i rfl (Nat.zero_le _)
      simpa using this
    rw [readDirect]
    split
    · next hle =>
      refine ⟨lt_of_lt_of_le hb hle, fun hi => ⟨?_, ?_⟩, fun c rest hc hi => ?_⟩
      · rcases hlive with h | h
        · exact h
        · subst hi
          simp only [List.length_nil] at h
          omega
      · -- the end of the stream stops the loop
        subst hi
        exact hstop
      · have hpos : 0 < c.1.length := List.length_pos_iff.mpr hc
        have hcn := c.2
        beta_reduce
        rw [if_neg (by omega)]
        refine ih _ _ _ (by omega) ?_ fun taken i' htaken hlen => ?_
        · rcases hlive with h | h
          · exact Or.inl h
          · right
            rw [hi, List.length_append] at h
            omega
        · have := hQ (c.1 ++ taken) i' (by rw [hi, htaken, List.append_assoc])
            (by rw [List.length_append]; omega)
          rwa [List.length_append, ← Nat.sub_sub, ← List.append_assoc] at this
    · exact hstop

/-- A round takes the front of the bytes in the buffer and the bytes to come.  It goes to the socket
only when the buffer is used up. -/
theorem take_drop_of_round {buffered i taken i' : List UInt8} {b n : ℕ}
    (hb : b = min n buffered.length) (hi : i = taken ++ i') (htaken : taken.length ≤ n - b) :
    (buffered ++ i).take n =
        buffered.take b ++ taken ++ (buffered.drop b ++ i').take (n - b - taken.length) ∧
      (buffered ++ i).drop n = (buffered.drop b ++ i').drop (n - b - taken.length) := by
  have happ : buffered ++ i = (buffered.take b ++ taken) ++ (buffered.drop b ++ i') := by
    rcases Nat.lt_or_ge b buffered.length with hlt | hge
    · obtain rfl : taken = [] := List.length_eq_zero_iff.mp (by omega)
      rw [hi, List.append_nil, List.nil_append, ← List.append_assoc, List.take_append_drop]
    · rw [List.take_of_length_le hge, List.drop_of_length_le hge, hi, List.nil_append,
        List.append_assoc]
  have hlen : (buffered.take b ++ taken).length = b + taken.length := by
    rw [List.length_append, List.length_take]
    omega
  have hle : (buffered.take b ++ taken).length ≤ n := by omega
  rw [happ, List.take_append, List.take_of_length_le hle, List.drop_append,
    List.drop_of_length_le hle, List.nil_append, hlen, Nat.sub_sub]
  exact ⟨rfl, rfl⟩

/-- The invariant of the outer loop: the bytes in the buffer followed by the bytes to come are what
the caller has yet to see. -/
theorem safe_readRounds {Q : Option (List UInt8) × DataReader → W → List UInt8 → List UInt8 → Prop}
    (rounds : ℕ) :
    ∀ (got : List UInt8) (numBytes : ℕ) (r : DataReader) (i : List UInt8),
      (numBytes < rounds ∨ 0 < numBytes ∧ numBytes ≤ rounds ∧ r.pending ≠ []) →
      (closed = true ∨ numBytes ≤ (r.pending ++ i).length) →
      (∀ r' i', numBytes ≤ (r.pending ++ i).length →
        r'.pending ++ i' = (r.pending ++ i).drop numBytes →
        Q (some (got ++ (r.pending ++ i).take numBytes), r') w i' o) →
      (∀ r', (r.pending ++ i).length < numBytes → r'.pending = [] → Q (none, r') w [] o) →
      SocketM.Safe world closed Q (readRounds (E := E) (R := R) rounds got numBytes r) w i o := by
  induction rounds with
  | zero =>
    intro got numBytes r i h
    omega
  | succ rounds ih =>
    intro got numBytes r i hr hlive hQ hEof
    rw [readRounds]
    split
    · next h0 =>
      subst h0
      have := hQ r i (Nat.zero_le _) rfl
      simpa using this
    · next h0 =>
      have hpl := r.length_pending
      set b := min numBytes (r.readIntoBuffer - r.positionInBuffer) with hb
      set r' := r.advance b (Nat.min_le_right _ _) with hr'
      have hpend : r'.pending = r.pending.drop b := pending_advance ..
      rw [SocketM.safe_bind]
      refine safe_readDirect r.bufferSize_pos _ _ _ _ (Nat.lt_succ_self _) ?_
        fun taken i' hi htaken => ?_
      · rcases hlive with h | h
        · exact Or.inl h
        · right
          rw [List.length_append] at h
          omega
      · obtain ⟨htake, hdrop⟩ := take_drop_of_round (hpl ▸ hb) hi htaken
        have hlen : (r.pending ++ i).length = r.pending.length + taken.length + i'.length := by
          rw [hi]
          simp only [List.length_append]
          omega
        simp only
        split
        · next hleft =>
          -- everything asked for has been copied or read directly
          rw [hleft, List.take_zero, List.append_nil] at htake
          rw [hleft, List.drop_zero, ← hpend] at hdrop
          have := hQ r' i' (by omega) hdrop.symm
          rw [htake, ← List.append_assoc] at this
          exact this
        · next hleft =>
          -- the buffer is used up: refill it and go round again
          have hbl : b = r.pending.length := by omega
          have hempty : r'.pending = [] := by rw [hpend, hbl, List.drop_length]
          rw [← hpend, hempty, List.nil_append] at htake hdrop
          refine ⟨r'.bufferSize_pos, fun hi' => ⟨?_, ?_⟩, fun c rest hc hrest => ?_⟩
          · rcases hlive with h | h
            · exact h
            · subst hi'
              simp only [List.length_nil] at hlen
              omega
          · subst hi'
            simp only [List.length_nil] at hlen
            exact hEof r' (by omega) hempty
          · have hpos : 0 < c.1.length := List.length_pos_iff.mpr hc
            have hfill : (r'.refill c.1 c.2).pending = c.1 := pending_refill ..
            have hstream : (r'.refill c.1 c.2).pending ++ rest = i' := by rw [hfill, hrest]
            beta_reduce
            rw [if_neg (by omega)]
            refine ih _ _ _ _ (Or.inr ⟨by omega, ?_, ?_⟩) ?_ (fun r'' i'' hle hr'' => ?_)
              (fun r'' hlt hr'' => ?_)
            · by_cases hp : r.pending = []
              · rcases hr with h | h
                · omega
                · exact absurd hp h.2.2
              · have := List.length_pos_iff.mpr hp
                omega
            · rw [hfill]
              exact hc
            · rw [hstream]
              rcases hlive with h | h
              · exact Or.inl h
              · right
                omega
            · rw [hstream] at hle hr'' ⊢
              have := hQ r'' i'' (by omega) (hr''.trans hdrop.symm)
              rw [htake] at this
              simpa only [List.append_assoc] using this
            · rw [hstream] at hlt
              exact hEof r'' (by omega) hr''

/-- **`read_exact` reads exactly.**  It takes the bytes asked for off the front of what is buffered
and what is to come; if the stream ends before, it raises with both exhausted. -/
theorem safe_readExact {Q : Option (List UInt8) × DataReader → W → List UInt8 → List UInt8 → Prop}
    {n : ℕ} {r : DataReader} {i : List UInt8}
    (hlive : closed = true ∨ n ≤ (r.pending ++ i).length)
    (hQ : ∀ r' i', n ≤ (r.pending ++ i).length → r'.pending ++ i' = (r.pending ++ i).drop n →
      Q (some ((r.pending ++ i).take n), r') w i' o)
    (hEof : ∀ r', (r.pending ++ i).length < n → r'.pending = [] → Q (none, r') w [] o) :
    SocketM.Safe world closed Q (r.readExact (E := E) (R := R) n) w i o :=
  safe_readRounds (n + 1) [] n r i (Or.inl (Nat.lt_succ_self n)) hlive hQ hEof

end DataReader

namespace DataWriter

variable {E : Type} {R : E → Type}

/-- A fresh writer. -/
def new (bufferSize : ℕ) (h : 0 < bufferSize) : DataWriter where
  bufferSize := bufferSize
  buffer := List.replicate bufferSize 0
  bufferBytesFilled := 0
  bufferSize_pos := h
  length_buffer := List.length_replicate
  filled_le := Nat.zero_le _

/-- The bytes written and not yet sent. -/
def pending (w : DataWriter) : List UInt8 :=
  w.buffer.take w.bufferBytesFilled

/-- `memcpy` behind what is already in the buffer. -/
def copyIn (w : DataWriter) (bs : List UInt8) (h : bs.length ≤ w.bufferSize - w.bufferBytesFilled) :
    DataWriter :=
  { w with
    buffer := w.buffer.take w.bufferBytesFilled ++ bs ++
      w.buffer.drop (w.bufferBytesFilled + bs.length)
    bufferBytesFilled := w.bufferBytesFilled + bs.length
    length_buffer := by
      have := w.filled_le
      have := w.length_buffer
      simp only [List.length_append, List.length_take, List.length_drop]
      omega
    filled_le := by have := w.filled_le; omega }

theorem pending_copyIn (w : DataWriter) (bs : List UInt8)
    (h : bs.length ≤ w.bufferSize - w.bufferBytesFilled) :
    (w.copyIn bs h).pending = w.pending ++ bs := by
  have h1 := w.filled_le
  have h2 := w.length_buffer
  have hlen : (w.buffer.take w.bufferBytesFilled ++ bs).length =
      w.bufferBytesFilled + bs.length := by
    simp only [List.length_append, List.length_take]
    omega
  show (w.buffer.take w.bufferBytesFilled ++ bs ++ _).take (w.bufferBytesFilled + bs.length) = _
  rw [← hlen, List.take_left]
  rfl

/-- The buffer counts as empty again. -/
def clear (w : DataWriter) : DataWriter :=
  { w with bufferBytesFilled := 0, filled_le := Nat.zero_le _ }

@[simp] theorem pending_clear (w : DataWriter) : w.clear.pending = [] := by
  simp [pending, clear]

/-- `Connection::write` and `ClientHandler::write`: send until everything has been taken.  Each
round takes a byte, so as many rounds as bytes are enough. -/
def sendAll : (rounds : ℕ) → List UInt8 → SocketM E R Unit
  | 0, _ => .ret ()
  | rounds + 1, bs =>
      if bs.length = 0 then .ret ()
      else .act (.send bs) fun taken => sendAll rounds (bs.drop taken)

def write (bs : List UInt8) : SocketM E R Unit :=
  sendAll bs.length bs

/-- `DataWriter::flush`. -/
def flush (w : DataWriter) : SocketM E R DataWriter :=
  write w.pending >>= fun _ => .ret w.clear

/-- The loop of `write_exact`.  The round after a flush is always the last: it starts with an empty
buffer, so it either writes directly or has room for everything.  Two rounds are enough. -/
def writeRounds : (rounds : ℕ) → List UInt8 → DataWriter → SocketM E R DataWriter
  | 0, _, w => .ret w
  | rounds + 1, data, w =>
      if data.length = 0 then .ret w
      else
        let remBufferLen := w.bufferSize - w.bufferBytesFilled
        let lenToWrite := min data.length remBufferLen
        if lenToWrite = w.bufferSize then
          write data >>= fun _ => .ret w
        else
          let w' := w.copyIn (data.take lenToWrite)
            (le_trans (List.length_take_le _ _) (Nat.min_le_right _ _))
          let rest := data.drop lenToWrite
          if rest.length = 0 then .ret w'
          else w'.flush >>= fun w'' => writeRounds rounds rest w''

/-- `DataWriter::write_exact`. -/
def writeExact (w : DataWriter) (data : List UInt8) : SocketM E R DataWriter :=
  writeRounds 2 data w

/-! ### What the writer guarantees -/

variable {W : Type} {world : (e : E) → W → R e × W} {closed : Bool} {w : W} {i : List UInt8}

theorem safe_sendAll {Q : Unit → W → List UInt8 → List UInt8 → Prop} (rounds : ℕ) :
    ∀ (bs o : List UInt8), bs.length ≤ rounds → Q () w i (o ++ bs) →
      SocketM.Safe world closed Q (sendAll (E := E) (R := R) rounds bs) w i o := by
  induction rounds with
  | zero =>
    intro bs o h hQ
    have : bs = [] := List.length_eq_zero_iff.mp (by omega)
    subst this
    simpa [sendAll] using hQ
  | succ rounds ih =>
    intro bs o h hQ
    rw [sendAll]
    split
    · next h0 =>
      have : bs = [] := List.length_eq_zero_iff.mp h0
      subst this
      simpa using hQ
    · next h0 =>
      refine ⟨fun hbs => h0 (by rw [hbs]; rfl), fun m hm hle => ih _ _ ?_ ?_⟩
      · rw [List.length_drop]
        omega
      · rwa [List.append_assoc, List.take_append_drop]

theorem safe_write {Q : Unit → W → List UInt8 → List UInt8 → Prop} {bs o : List UInt8}
    (hQ : Q () w i (o ++ bs)) :
    SocketM.Safe world closed Q (write (E := E) (R := R) bs) w i o :=
  safe_sendAll bs.length bs o le_rfl hQ

/-- **A flush sends what is pending** and leaves the buffer empty. -/
theorem safe_flush {Q : DataWriter → W → List UInt8 → List UInt8 → Prop} {d : DataWriter}
    {o : List UInt8} (hQ : Q d.clear w i (o ++ d.pending)) :
    SocketM.Safe world closed Q (d.flush (E := E) (R := R)) w i o := by
  rw [flush, SocketM.safe_bind]
  exact safe_write hQ

theorem pending_eq_nil_of_filled {d : DataWriter} (h : d.bufferBytesFilled = 0) :
    d.pending = [] := by
  rw [pending, h, List.take_zero]

/-- On an empty buffer one round writes everything. -/
theorem safe_writeRounds_of_empty {Q : DataWriter → W → List UInt8 → List UInt8 → Prop}
    (rounds : ℕ) {data o : List UInt8} {d : DataWriter} (hd : d.bufferBytesFilled = 0)
    (hQ : ∀ d' o', o' ++ d'.pending = o ++ data → Q d' w i o') :
    SocketM.Safe world closed Q (writeRounds (E := E) (R := R) (rounds + 1) data d) w i o := by
  have hnil := pending_eq_nil_of_filled hd
  rw [writeRounds]
  split
  · next h0 =>
    have : data = [] := List.length_eq_zero_iff.mp h0
    subst this
    exact hQ d o (by rw [hnil])
  · next h0 =>
    simp only
    split
    · rw [SocketM.safe_bind]
      exact safe_write (hQ d _ (by rw [hnil, List.append_nil]))
    · next hne =>
      have hlen : min data.length (d.bufferSize - d.bufferBytesFilled) = data.length := by omega
      have hrest : data.drop (min data.length (d.bufferSize - d.bufferBytesFilled)) = [] := by
        rw [hlen, List.drop_length]
      rw [if_pos (by rw [hrest]; rfl)]
      refine hQ _ _ ?_
      rw [pending_copyIn, hnil, hlen, List.take_length, List.nil_append]

/-- **`write_exact` writes everything, in order**: what has been sent followed by what is pending
grows by the data. -/
theorem safe_writeExact {Q : DataWriter → W → List UInt8 → List UInt8 → Prop}
    {data o : List UInt8} {d : DataWriter}
    (hQ : ∀ d' o', o' ++ d'.pending = o ++ d.pending ++ data → Q d' w i o') :
    SocketM.Safe world closed Q (d.writeExact (E := E) (R := R) data) w i o := by
  rw [writeExact, writeRounds]
  split
  · next h0 =>
    have : data = [] := List.length_eq_zero_iff.mp h0
    subst this
    exact hQ d o (List.append_nil _).symm
  · next h0 =>
    have hpos := d.bufferSize_pos
    simp only
    split
    · next hfull =>
      -- a whole buffer's worth of room means that nothing is pending
      have hnil := pending_eq_nil_of_filled (d := d) (by have := d.filled_le; omega)
      rw [SocketM.safe_bind]
      exact safe_write (hQ d _ (by rw [hnil, List.append_nil, List.append_nil]))
    · next hne =>
      set n := min data.length (d.bufferSize - d.bufferBytesFilled) with hn
      have hcopy := pending_copyIn d (data.take n)
        (le_trans (List.length_take_le _ _) (Nat.min_le_right _ _))
      split
      · next hrest =>
        have hdrop : data.drop n = [] := List.length_eq_zero_iff.mp hrest
        refine hQ _ _ ?_
        rw [hcopy, ← List.append_assoc]
        conv_rhs => rw [← List.take_append_drop n data, hdrop, List.append_nil]
      · rw [SocketM.safe_bind]
        refine safe_flush (safe_writeRounds_of_empty 0 rfl fun d' o' hd' => hQ d' o' ?_)
        rw [hd', pending_copyIn]
        simp only [List.append_assoc, List.take_append_drop]

end DataWriter

end NandroidFS
