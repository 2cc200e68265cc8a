import NandroidFS.Streams.Prog

/-!
# Programs that read and write a byte stream

The programs of this file talk to one peer.  They ask for an exact number of bytes, they write
bytes, they flush what they wrote, and they call out to a world of their own (an operating
system, a cache).  `run` gives them the meaning that ignores buffers and packet boundaries: what
is still to be read is one list, what has been written is another.

The only trace a buffer leaves at this level is `settled`: it is `true` when nothing written is
still held back, which a flush guarantees and a write destroys.
-/

namespace NandroidFS

/-- The actions of a program on a byte stream. -/
inductive StreamAct (E : Type) : Type where
  /-- Read exactly `n` bytes; the answer is `none` when the stream ends before. -/
  | readExact (n : ℕ)
  /-- Write all of `bs`. -/
  | writeExact (bs : List UInt8)
  /-- Push out what has been written and held back. -/
  | flush
  /-- Call the world. -/
  | call (e : E)

/-- The answers to stream actions. -/
@[reducible] def StreamAct.Res {E : Type} (R : E → Type) : StreamAct E → Type
  | .readExact _ => Option (List UInt8)
  | .writeExact _ => Unit
  | .flush => Unit
  | .call e => R e

/-- Programs on a byte stream. -/
abbrev StreamM (E : Type) (R : E → Type) (ε : Type) :=
  Prog (StreamAct E) (StreamAct.Res R) ε

/-- How a program ends: it returns, it raises, or it waits for bytes that never come. -/
inductive Outcome (ε α : Type) : Type where
  | done (a : α)
  | failed (e : ε)
  | starved
  deriving DecidableEq, Repr

/-- What a program on a stream sees and leaves: the bytes still to be read, the bytes written so
far, whether all of these have been pushed out, and the state of the world it calls. -/
@[ext] structure View (W : Type) where
  inflow : List UInt8
  outflow : List UInt8
  settled : Bool
  world : W
  deriving DecidableEq, Repr

/-- Continue after a program that may have raised or starved. -/
def Outcome.andThen {ε α β W : Type} (x : Outcome ε α × View W)
    (f : α → View W → Outcome ε β × View W) : Outcome ε β × View W :=
  match x with
  | (.done a, v) => f a v
  | (.failed e, v) => (.failed e, v)
  | (.starved, v) => (.starved, v)

/-- The action does not read. -/
def StreamAct.NotRead {E : Type} : StreamAct E → Prop
  | .readExact _ => False
  | _ => True

/-- The action does not write. -/
def StreamAct.NotWrite {E : Type} : StreamAct E → Prop
  | .writeExact _ => False
  | .flush => False
  | _ => True

/-- The action reads. -/
def StreamAct.IsRead {E : Type} : StreamAct E → Prop
  | .readExact _ => True
  | _ => False

/-- The action writes, and does not flush. -/
def StreamAct.IsWrite {E : Type} : StreamAct E → Prop
  | .writeExact _ => True
  | _ => False

namespace StreamM

variable {E : Type} {R : E → Type} {ε α β W : Type}

/-- Read exactly `n` bytes, raising `eof` at the end of the stream. -/
def readExact (eof : ε) (n : ℕ) : StreamM E R ε (List UInt8) :=
  .act (.readExact n) fun
    | some bs => .ret bs
    | none => .fail eof

def writeExact (bs : List UInt8) : StreamM E R ε Unit :=
  .act (.writeExact bs) .ret

def flush : StreamM E R ε Unit :=
  .act .flush .ret

def call (e : E) : StreamM E R ε (R e) :=
  .act (.call e) .ret

/-- **The meaning of a program on whole streams.**  `world` answers the calls.  When fewer bytes
are left than asked for, the program meets the end of the stream if the stream is `closed`, and
waits for ever if it is not. -/
def run (world : (e : E) → W → R e × W) (closed : Bool) :
    StreamM E R ε α → View W → Outcome ε α × View W
  | .ret a, v => (.done a, v)
  | .fail e, v => (.failed e, v)
  | .act (.readExact n) k, v =>
      if n ≤ v.inflow.length then
        run world closed (k (some (v.inflow.take n))) { v with inflow := v.inflow.drop n }
      else if closed then
        run world closed (k none) { v with inflow := [] }
      else (.starved, v)
  | .act (.writeExact bs) k, v =>
      run world closed (k ()) { v with outflow := v.outflow ++ bs, settled := false }
  | .act .flush k, v => run world closed (k ()) { v with settled := true }
  | .act (.call e) k, v =>
      run world closed (k (world e v.world).1) { v with world := (world e v.world).2 }

variable (world : (e : E) → W → R e × W) (closed : Bool)

@[simp] theorem run_ret (a : α) (v : View W) :
    run world closed (.ret a : StreamM E R ε α) v = (.done a, v) := rfl

theorem run_readExact_act (n : ℕ) (k : Option (List UInt8) → StreamM E R ε α) (v : View W) :
    run world closed (.act (.readExact n) k) v =
      if n ≤ v.inflow.length then
        run world closed (k (some (v.inflow.take n))) { v with inflow := v.inflow.drop n }
      else if closed then
        run world closed (k none) { v with inflow := [] }
      else (.starved, v) := rfl

theorem run_readExact_of_le {n : ℕ} {v : View W} (h : n ≤ v.inflow.length)
    (k : Option (List UInt8) → StreamM E R ε α) :
    run world closed (.act (.readExact n) k) v =
      run world closed (k (some (v.inflow.take n))) { v with inflow := v.inflow.drop n } := by
  rw [run_readExact_act, if_pos h]

/-- **Runs compose.** -/
theorem run_bind (p : StreamM E R ε α) (f : α → StreamM E R ε β) (v : View W) :
    run world closed (p >>= f) v =
      Outcome.andThen (run world closed p v) fun a v' => run world closed (f a) v' := by
  induction p generalizing v with
  | ret a => rfl
  | fail e => rfl
  | act e k ih =>
    rw [Prog.act_bind]
    cases e with
    | readExact n =>
      simp only [run_readExact_act]
      split
      · exact ih _ _
      · split
        · exact ih _ _
        · rfl
    | writeExact bs => exact ih () _
    | flush => exact ih () _
    | call e => exact ih _ _

theorem run_call_bind (e : E) (f : R e → StreamM E R ε α) (v : View W) :
    run world closed (call e >>= f) v =
      run world closed (f (world e v.world).1) { v with world := (world e v.world).2 } := rfl

theorem run_flush_bind (f : Unit → StreamM E R ε α) (v : View W) :
    run world closed (flush >>= f) v = run world closed (f ()) { v with settled := true } := rfl

theorem run_bind_done {p : StreamM E R ε α} {f : α → StreamM E R ε β} {v v' : View W} {a : α}
    (h : run world closed p v = (.done a, v')) :
    run world closed (p >>= f) v = run world closed (f a) v' := by
  rw [run_bind, h]
  rfl

theorem run_bind_failed {p : StreamM E R ε α} {f : α → StreamM E R ε β} {v v' : View W} {e : ε}
    (h : run world closed p v = (.failed e, v')) :
    run world closed (p >>= f) v = (.failed e, v') := by
  rw [run_bind, h]
  rfl

/-- What a run raises is raised somewhere in the program. -/
theorem raises_of_run {P : ε → Prop} {p : StreamM E R ε α} (hp : p.Raises P) {v v' : View W} {e : ε}
    (hrun : run world closed p v = (.failed e, v')) : P e := by
  induction p generalizing v with
  | ret a => cases (Prod.mk.inj hrun).1
  | fail e' =>
    obtain rfl := Outcome.failed.inj (Prod.mk.inj hrun).1
    exact hp
  | act a k ih =>
    cases a with
    | readExact n =>
      rw [run_readExact_act] at hrun
      split at hrun
      · exact ih _ (hp _) hrun
      · split at hrun
        · exact ih _ (hp _) hrun
        · cases (Prod.mk.inj hrun).1
    | writeExact bs => exact ih _ (hp _) hrun
    | flush => exact ih _ (hp _) hrun
    | call e' => exact ih _ (hp _) hrun

theorem raises_readExact {P : ε → Prop} {eof : ε} (hP : P eof) (n : ℕ) :
    (readExact eof n : StreamM E R ε (List UInt8)).Raises P := by
  rintro (_ | bs)
  · exact hP
  · trivial

theorem raises_writeExact {P : ε → Prop} (bs : List UInt8) :
    (writeExact bs : StreamM E R ε Unit).Raises P :=
  fun _ => trivial

theorem raises_call_bind {P : ε → Prop} {e : E} {f : R e → StreamM E R ε α}
    (hf : ∀ r, (f r).Raises P) : (call e >>= f).Raises P :=
  hf

/-- On a closed stream no program waits for ever. -/
theorem run_ne_starved (p : StreamM E R ε α) (v : View W) :
    (run world true p v).1 ≠ .starved := by
  induction p generalizing v with
  | ret a =>
    intro hrun
    cases hrun
  | fail e =>
    intro hrun
    cases hrun
  | act a k ih =>
    cases a with
    | readExact n =>
      rw [run_readExact_act]
      split
      · exact ih _ _
      · exact ih _ _
    | writeExact bs => exact ih _ _
    | flush => exact ih _ _
    | call e => exact ih _ _

/-- What a run leaves of the input is an end of it. -/
theorem inflow_run_suffix (p : StreamM E R ε α) (v : View W) :
    (run world closed p v).2.inflow <:+ v.inflow := by
  induction p generalizing v with
  | ret a => exact List.suffix_rfl
  | fail e => exact List.suffix_rfl
  | act a k ih =>
    cases a with
    | readExact n =>
      rw [run_readExact_act]
      split
      · exact (ih _ _).trans (List.drop_suffix n v.inflow)
      · split
        · exact (ih _ _).trans (List.nil_suffix)
        · exact List.suffix_rfl
    | writeExact bs => exact ih _ _
    | flush => exact ih _ _
    | call e => exact ih _ _

/-- Reading what is there: the bytes asked for come off the front. -/
theorem run_readExact_append (eof : ε) (bs rest : List UInt8) (f : List UInt8 → StreamM E R ε α)
    (v : View W) (hv : v.inflow = bs ++ rest) {n : ℕ} (hn : n = bs.length) :
    run world closed (readExact eof n >>= f) v =
      run world closed (f bs) { v with inflow := rest } := by
  have hle : n ≤ v.inflow.length := by rw [hv, hn]; simp
  rw [readExact, Prog.act_bind, run_readExact_of_le _ _ hle]
  simp [hv, hn]

/-! ## Programs that only read, programs that only write

A decoder reads a given string off the front of the stream, whatever follows it; an encoder
appends a given string, whatever was there before. -/

/-- The program reads exactly `bs` and returns `a`. -/
def Reads (p : StreamM E R ε α) (bs : List UInt8) (a : α) : Prop :=
  ∀ (W : Type) (world : (e : E) → W → R e × W) (closed : Bool) (v : View W) (rest : List UInt8),
    v.inflow = bs ++ rest → run world closed p v = (.done a, { v with inflow := rest })

/-- The program writes exactly `bs` and returns `a`. -/
def Writes (p : StreamM E R ε α) (bs : List UInt8) (a : α) : Prop :=
  ∀ (W : Type) (world : (e : E) → W → R e × W) (closed : Bool) (v : View W),
    run world closed p v =
      (.done a, { v with outflow := v.outflow ++ bs, settled := false })

theorem Reads.ret (a : α) : Reads (.ret a : StreamM E R ε α) [] a := by
  intro W world closed v rest hv
  rw [run_ret, ← show v.inflow = rest from hv]

theorem Reads.bind {p : StreamM E R ε α} {f : α → StreamM E R ε β} {bs cs : List UInt8} {a : α}
    {b : β} (hp : Reads p bs a) (hf : Reads (f a) cs b) : Reads (p >>= f) (bs ++ cs) b := by
  intro W world closed v rest hv
  rw [List.append_assoc] at hv
  rw [run_bind_done _ _ (hp _ world closed v _ hv)]
  exact hf _ world closed _ rest rfl

/-- A decoder whose last step only computes. -/
theorem Reads.bind_ret {p : StreamM E R ε α} {f : α → StreamM E R ε β} {bs : List UInt8} {a : α}
    {b : β} (hp : Reads p bs a) (hf : f a = .ret b) : Reads (p >>= f) bs b := by
  have hret : Reads (f a) [] b := by
    rw [hf]
    exact Reads.ret b
  have := hp.bind hret
  rwa [List.append_nil] at this

theorem reads_readExact (eof : ε) (bs : List UInt8) {n : ℕ} (hn : n = bs.length) :
    Reads (readExact eof n : StreamM E R ε (List UInt8)) bs bs := by
  intro W world closed v rest hv
  have := run_readExact_append world closed eof bs rest (.ret ·) v hv hn
  rwa [Prog.bind_ret] at this

theorem writes_writeExact (bs : List UInt8) :
    Writes (writeExact bs : StreamM E R ε Unit) bs () := by
  intro W world closed v
  rfl

theorem Writes.bind {p : StreamM E R ε α} {f : α → StreamM E R ε β} {bs cs : List UInt8} {a : α}
    {b : β} (hp : Writes p bs a) (hf : Writes (f a) cs b) : Writes (p >>= f) (bs ++ cs) b := by
  intro W world closed v
  rw [run_bind_done _ _ (hp _ world closed v), hf _ world closed _, List.append_assoc]

/-! ## What a program does

The specification of a whole program: from a state of the world it reads one string, writes
another, and leaves the world in a second state.  Programs are specified piece by piece and the
pieces are chained. -/

/-- From the world `w` the program reads exactly `bs`, writes exactly `out`, returns `a` and leaves
the world in `w'`. -/
def Does (world : (e : E) → W → R e × W) (p : StreamM E R ε α) (w : W) (bs out : List UInt8)
    (a : α) (w' : W) : Prop :=
  ∀ (closed : Bool) (v : View W) (rest : List UInt8), v.inflow = bs ++ rest → v.world = w →
    ∃ settled, run world closed p v = (.done a, ⟨rest, v.outflow ++ out, settled, w'⟩)

variable {world}

theorem Does.ret (w : W) (a : α) : Does world (.ret a : StreamM E R ε α) w [] [] a w := by
  rintro closed ⟨i, o, settled, _⟩ rest rfl rfl
  exact ⟨settled, by rw [run_ret, List.append_nil]⟩

theorem Reads.then_does {p : StreamM E R ε α} {f : α → StreamM E R ε β} {bs bs' out : List UInt8}
    {a : α} {b : β} {w w' : W} (hp : Reads p bs a) (hf : Does world (f a) w bs' out b w') :
    Does world (p >>= f) w (bs ++ bs') out b w' := by
  intro closed v rest hv hw
  rw [List.append_assoc] at hv
  rw [run_bind_done _ _ (hp _ world closed v _ hv)]
  exact hf closed _ rest rfl hw

theorem Writes.then_does {p : StreamM E R ε α} {f : α → StreamM E R ε β}
    {bs out out' : List UInt8} {a : α} {b : β} {w w' : W} (hp : Writes p out a)
    (hf : Does world (f a) w bs out' b w') : Does world (p >>= f) w bs (out ++ out') b w' := by
  intro closed v rest hv hw
  rw [run_bind_done _ _ (hp _ world closed v), ← List.append_assoc]
  exact hf closed _ rest hv hw

theorem Does.call_bind {e : E} {f : R e → StreamM E R ε β} {bs out : List UInt8} {b : β} {w w' : W}
    (hf : Does world (f (world e w).1) (world e w).2 bs out b w') :
    Does world (call e >>= f) w bs out b w' := by
  intro closed v rest hv hw
  subst hw
  exact hf closed _ rest hv rfl

theorem Writes.does {p : StreamM E R ε α} {out : List UInt8} {a : α} (hp : Writes p out a) (w : W) :
    Does world p w [] out a w := by
  rintro closed v rest hv hw
  refine ⟨false, ?_⟩
  rw [hp _ world closed v, ← hw, ← show v.inflow = rest from hv]

theorem Reads.does {p : StreamM E R ε α} {bs : List UInt8} {a : α} (hp : Reads p bs a) (w : W) :
    Does world p w bs [] a w := by
  rintro closed v rest hv hw
  refine ⟨v.settled, ?_⟩
  rw [hp _ world closed v rest hv, List.append_nil, ← hw]

theorem Does.bind {p : StreamM E R ε α} {f : α → StreamM E R ε β} {bs bs' out out' : List UInt8}
    {a : α} {b : β} {w w' w'' : W} (hp : Does world p w bs out a w')
    (hf : Does world (f a) w' bs' out' b w'') :
    Does world (p >>= f) w (bs ++ bs') (out ++ out') b w'' := by
  intro closed v rest hv hw
  rw [List.append_assoc] at hv
  obtain ⟨settled, hrun⟩ := hp closed v _ hv hw
  rw [run_bind_done _ _ hrun, ← List.append_assoc]
  exact hf closed _ rest rfl rfl

/-- A decoder followed by a program that reads nothing more. -/
theorem Reads.then_does_nil {p : StreamM E R ε α} {f : α → StreamM E R ε β} {bs out : List UInt8}
    {a : α} {b : β} {w w' : W} (hp : Reads p bs a) (hf : Does world (f a) w [] out b w') :
    Does world (p >>= f) w bs out b w' := by
  have := hp.then_does hf
  rwa [List.append_nil] at this

/-- A program that only calls, followed by another. -/
theorem Does.silent_bind {p : StreamM E R ε α} {f : α → StreamM E R ε β} {bs out : List UInt8}
    {a : α} {b : β} {w w' w'' : W} (hp : Does world p w [] [] a w')
    (hf : Does world (f a) w' bs out b w'') : Does world (p >>= f) w bs out b w'' :=
  hp.bind hf

/-- A program followed by one that only computes. -/
theorem Does.bind_ret {p : StreamM E R ε α} {f : α → StreamM E R ε β} {bs out : List UInt8}
    {a : α} {b : β} {w w' : W} (hp : Does world p w bs out a w') (hf : f a = .ret b) :
    Does world (p >>= f) w bs out b w' := by
  intro closed v rest hv hw
  obtain ⟨settled, hrun⟩ := hp closed v rest hv hw
  exact ⟨settled, by rw [run_bind_done _ _ hrun, hf, run_ret]⟩

/-- From the world `w` the program reads exactly `bs`, writes nothing, returns `a` and leaves the
world in `w'`. -/
def Receives (world : (e : E) → W → R e × W) (p : StreamM E R ε α) (w : W) (bs : List UInt8)
    (a : α) (w' : W) : Prop :=
  ∀ (closed : Bool) (v : View W) (rest : List UInt8), v.inflow = bs ++ rest → v.world = w →
    run world closed p v = (.done a, { v with inflow := rest, world := w' })

theorem Receives.ret (w : W) (a : α) : Receives world (.ret a : StreamM E R ε α) w [] a w := by
  rintro closed ⟨i, o, settled, _⟩ rest rfl rfl
  rfl

theorem Receives.call_bind {e : E} {f : R e → StreamM E R ε β} {bs : List UInt8} {b : β} {w w' : W}
    (hf : Receives world (f (world e w).1) (world e w).2 bs b w') :
    Receives world (call e >>= f) w bs b w' := by
  intro closed v rest hv hw
  subst hw
  exact hf closed _ rest hv rfl

theorem receives_call (e : E) (w : W) :
    Receives world (call e : StreamM E R ε (R e)) w [] (world e w).1 (world e w).2 :=
  Receives.call_bind (f := .ret) (Receives.ret _ _)

theorem Receives.bind {p : StreamM E R ε α} {f : α → StreamM E R ε β} {bs bs' : List UInt8}
    {a : α} {b : β} {w w' w'' : W} (hp : Receives world p w bs a w')
    (hf : Receives world (f a) w' bs' b w'') : Receives world (p >>= f) w (bs ++ bs') b w'' := by
  intro closed v rest hv hw
  rw [List.append_assoc] at hv
  rw [run_bind_done _ _ (hp closed v _ hv hw)]
  exact hf closed _ rest rfl rfl

/-- A program followed by one that only calls. -/
theorem Receives.bind_nil {p : StreamM E R ε α} {f : α → StreamM E R ε β} {bs : List UInt8}
    {a : α} {b : β} {w w' w'' : W} (hp : Receives world p w bs a w')
    (hf : Receives world (f a) w' [] b w'') : Receives world (p >>= f) w bs b w'' := by
  have := hp.bind hf
  rwa [List.append_nil] at this

theorem Receives.bind_ret {p : StreamM E R ε α} {f : α → StreamM E R ε β} {bs : List UInt8}
    {a : α} {b : β} {w w' : W} (hp : Receives world p w bs a w') (hf : f a = .ret b) :
    Receives world (p >>= f) w bs b w' := by
  intro closed v rest hv hw
  rw [run_bind_done _ _ (hp closed v rest hv hw), hf, run_ret]

theorem Reads.receives {p : StreamM E R ε α} {bs : List UInt8} {a : α} (hp : Reads p bs a) (w : W) :
    Receives world p w bs a w := by
  rintro closed v rest hv rfl
  exact hp _ world closed v rest hv

theorem Reads.then_receives {p : StreamM E R ε α} {f : α → StreamM E R ε β} {bs bs' : List UInt8}
    {a : α} {b : β} {w w' : W} (hp : Reads p bs a) (hf : Receives world (f a) w bs' b w') :
    Receives world (p >>= f) w (bs ++ bs') b w' :=
  (hp.receives w).bind hf

/-- From the world `w` the program sends `ask`, then reads exactly `answer`, returns `a` and leaves
the world in `w'` and nothing held back. -/
def Exchanges (world : (e : E) → W → R e × W) (p : StreamM E R ε α) (w : W)
    (ask answer : List UInt8) (a : α) (w' : W) : Prop :=
  ∀ (closed : Bool) (v : View W) (rest : List UInt8), v.inflow = answer ++ rest → v.world = w →
    run world closed p v = (.done a, ⟨rest, v.outflow ++ ask, true, w'⟩)

/-- Write, flush, read. -/
theorem Writes.then_receives {p : StreamM E R ε Unit} {f : StreamM E R ε β}
    {ask answer : List UInt8} {b : β} {w w' : W} (hp : Writes p ask ())
    (hf : Receives world f w answer b w') :
    Exchanges world (do p; flush; f) w ask answer b w' := by
  intro closed v rest hv hw
  rw [run_bind_done _ _ (hp _ world closed v)]
  exact hf closed _ rest hv hw

theorem Exchanges.call_bind {e : E} {f : R e → StreamM E R ε β} {ask answer : List UInt8} {b : β}
    {w w' : W} (hf : Exchanges world (f (world e w).1) (world e w).2 ask answer b w') :
    Exchanges world (call e >>= f) w ask answer b w' := by
  intro closed v rest hv hw
  subst hw
  exact hf closed _ rest hv rfl

/-- A program that only calls, followed by an exchange. -/
theorem Receives.then_exchanges {p : StreamM E R ε α} {f : α → StreamM E R ε β}
    {ask answer : List UInt8} {a : α} {b : β} {w w' w'' : W} (hp : Receives world p w [] a w')
    (hf : Exchanges world (f a) w' ask answer b w'') :
    Exchanges world (p >>= f) w ask answer b w'' := by
  intro closed v rest hv hw
  rw [run_bind_done _ _ (hp closed v _ rfl hw)]
  exact hf closed _ rest hv rfl

theorem Receives.does {p : StreamM E R ε α} {bs : List UInt8} {a : α} {w w' : W}
    (hp : Receives world p w bs a w') : Does world p w bs [] a w' := by
  intro closed v rest hv hw
  refine ⟨v.settled, ?_⟩
  rw [hp closed v rest hv hw, List.append_nil]

theorem Exchanges.does {p : StreamM E R ε α} {ask answer : List UInt8} {a : α} {w w' : W}
    (hp : Exchanges world p w ask answer a w') : Does world p w answer ask a w' :=
  fun closed v rest hv hw => ⟨true, hp closed v rest hv hw⟩

/-! ## Reading first, writing after

A party that answers reads its whole message before it writes, and a party that asks writes its
whole message before it reads.  Both are properties of the program text. -/

/-- The program never reads. -/
abbrev NoReads (p : StreamM E R ε α) : Prop := p.All StreamAct.NotRead

/-- The program never writes. -/
abbrev NoWrites (p : StreamM E R ε α) : Prop := p.All StreamAct.NotWrite

/-- The program reads first and writes after. -/
abbrev ReadsThenWrites (p : StreamM E R ε α) : Prop :=
  p.Phased StreamAct.NotWrite StreamAct.NotRead

/-- The program writes first and reads after. -/
abbrev WritesThenReads (p : StreamM E R ε α) : Prop :=
  p.Phased StreamAct.NotRead StreamAct.NotWrite

/-- The program does nothing but read. -/
abbrev OnlyReads (p : StreamM E R ε α) : Prop := p.All StreamAct.IsRead

/-- The program does nothing but write. -/
abbrev OnlyWrites (p : StreamM E R ε α) : Prop := p.All StreamAct.IsWrite

theorem OnlyReads.noWrites {p : StreamM E R ε α} (hp : p.OnlyReads) : p.NoWrites :=
  Prog.All.mono (fun a ha => by cases a <;> trivial) hp

theorem OnlyWrites.noReads {p : StreamM E R ε α} (hp : p.OnlyWrites) : p.NoReads :=
  Prog.All.mono (fun a ha => by cases a <;> trivial) hp

theorem onlyReads_readExact (eof : ε) (n : ℕ) :
    (readExact eof n : StreamM E R ε (List UInt8)).OnlyReads :=
  ⟨trivial, fun r => by cases r <;> trivial⟩

theorem onlyWrites_writeExact (bs : List UInt8) :
    (writeExact bs : StreamM E R ε Unit).OnlyWrites :=
  ⟨trivial, fun _ => trivial⟩

theorem noReads_flush : (flush : StreamM E R ε Unit).NoReads :=
  ⟨trivial, fun _ => trivial⟩

theorem noReads_call_bind {e : E} {f : R e → StreamM E R ε α} (hf : ∀ r, (f r).NoReads) :
    (call e >>= f).NoReads :=
  ⟨trivial, hf⟩

theorem noWrites_call_bind {e : E} {f : R e → StreamM E R ε α} (hf : ∀ r, (f r).NoWrites) :
    (call e >>= f).NoWrites :=
  ⟨trivial, hf⟩

theorem writesThenReads_call_bind {e : E} {f : R e → StreamM E R ε α}
    (hf : ∀ r, (f r).WritesThenReads) : (call e >>= f).WritesThenReads :=
  Or.inl ⟨trivial, hf⟩

theorem readsThenWrites_call_bind {e : E} {f : R e → StreamM E R ε α}
    (hf : ∀ r, (f r).ReadsThenWrites) : (call e >>= f).ReadsThenWrites :=
  Or.inl ⟨trivial, hf⟩

/-! ## Programs that wait

To a stream that is open more may be added later.  Until then a program goes on as far as it can. -/

/-- The program goes on until it ends or asks for more bytes than have arrived.  What comes back is
what it still has to do. -/
def advance (world : (e : E) → W → R e × W) :
    StreamM E R ε α → View W → StreamM E R ε α × View W
  | .ret a, v => (.ret a, v)
  | .fail e, v => (.fail e, v)
  | .act (.readExact n) k, v =>
      if n ≤ v.inflow.length then
        advance world (k (some (v.inflow.take n))) { v with inflow := v.inflow.drop n }
      else (.act (.readExact n) k, v)
  | .act (.writeExact bs) k, v =>
      advance world (k ()) { v with outflow := v.outflow ++ bs, settled := false }
  | .act .flush k, v => advance world (k ()) { v with settled := true }
  | .act (.call e) k, v =>
      advance world (k (world e v.world).1) { v with world := (world e v.world).2 }

/-- A program that comes to its end with what has arrived does not wait. -/
theorem advance_of_run {p : StreamM E R ε α} {v v' : View W} {a : α}
    (hrun : run world false p v = (.done a, v')) : advance world p v = (.ret a, v') := by
  induction p generalizing v with
  | ret b =>
    obtain ⟨hb, rfl⟩ := Prod.mk.inj hrun
    obtain rfl := Outcome.done.inj hb
    rfl
  | fail e => cases (Prod.mk.inj hrun).1
  | act e k ih =>
    cases e with
    | readExact n =>
      rw [run_readExact_act] at hrun
      split at hrun
      next hle =>
        rw [advance, if_pos hle]
        exact ih _ hrun
      next => cases (Prod.mk.inj hrun).1
    | writeExact bs => exact ih _ hrun
    | flush => exact ih _ hrun
    | call e => exact ih _ hrun

end StreamM

end NandroidFS
