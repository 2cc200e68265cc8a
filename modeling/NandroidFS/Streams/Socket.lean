import NandroidFS.Streams.Prog

/-!
# Programs on a socket

A socket hands over what it likes: a receive returns between one byte and as many as were asked
for, a send takes between one byte and as many as were offered.  `Safe` is the weakest
precondition of a program under every such choice.  Its arguments are the state of the world, the
bytes that will still arrive and the bytes already sent; at the end the postcondition sees what
the program returned, what is left of the input and everything that was sent.

`Safe` is total: a program that satisfies it never asks for zero bytes, never offers an empty
send, and never waits on an exhausted input unless the stream is closed, so some choice is always
open to it (`Safe.exists_post`).
-/

namespace NandroidFS

/-- The actions of a program on a socket. -/
inductive SocketAct (E : Type) : Type where
  /-- Receive at most `n` bytes; the empty answer is the end of the stream. -/
  | recv (n : ℕ)
  /-- Offer `bs`; the answer is how many of its bytes were taken. -/
  | send (bs : List UInt8)
  /-- Call the world. -/
  | call (e : E)

/-- What a receive of at most `n` bytes may return. -/
abbrev Chunk (n : ℕ) := { c : List UInt8 // c.length ≤ n }

/-- The end of the stream. -/
def Chunk.eof (n : ℕ) : Chunk n := ⟨[], Nat.zero_le _⟩

/-- A single byte. -/
def Chunk.one {n : ℕ} (h : 0 < n) (b : UInt8) : Chunk n := ⟨[b], h⟩

/-- The answers to socket actions. -/
@[reducible] def SocketAct.Res {E : Type} (R : E → Type) : SocketAct E → Type
  | .recv n => Chunk n
  | .send _ => ℕ
  | .call e => R e

/-- Programs on a socket.  They raise nothing: what a program raises is part of what it returns,
together with the state it leaves. -/
abbrev SocketM (E : Type) (R : E → Type) :=
  Prog (SocketAct E) (SocketAct.Res R) Empty

/-- The action does not receive. -/
def SocketAct.NotRecv {E : Type} : SocketAct E → Prop
  | .recv _ => False
  | _ => True

/-- The action does not send. -/
def SocketAct.NotSend {E : Type} : SocketAct E → Prop
  | .send _ => False
  | _ => True

namespace SocketM

variable {E : Type} {R : E → Type} {α β W : Type}

/-- **The weakest precondition** of `Q`, for every way the socket may cut the data. -/
def Safe (world : (e : E) → W → R e × W) (closed : Bool)
    (Q : α → W → List UInt8 → List UInt8 → Prop) :
    SocketM E R α → W → List UInt8 → List UInt8 → Prop
  | .ret a, w, i, o => Q a w i o
  | .fail e, _, _, _ => e.elim
  | .act (.recv n) k, w, i, o =>
      0 < n ∧ (i = [] → closed = true ∧ Safe world closed Q (k (.eof n)) w [] o) ∧
        ∀ (c : Chunk n) rest, c.1 ≠ [] → i = c.1 ++ rest → Safe world closed Q (k c) w rest o
  | .act (.send bs) k, w, i, o =>
      bs ≠ [] ∧ ∀ m, 0 < m → m ≤ bs.length → Safe world closed Q (k m) w i (o ++ bs.take m)
  | .act (.call e) k, w, i, o =>
      Safe world closed Q (k (world e w).1) (world e w).2 i o

variable {world : (e : E) → W → R e × W} {closed : Bool}

@[simp] theorem safe_ret (Q : α → W → List UInt8 → List UInt8 → Prop) (a : α) (w : W)
    (i o : List UInt8) : Safe world closed Q (.ret a : SocketM E R α) w i o ↔ Q a w i o := Iff.rfl

theorem safe_recv (Q : α → W → List UInt8 → List UInt8 → Prop) (n : ℕ)
    (k : Chunk n → SocketM E R α) (w : W) (i o : List UInt8) :
    Safe world closed Q (.act (.recv n) k) w i o ↔
      0 < n ∧ (i = [] → closed = true ∧ Safe world closed Q (k (.eof n)) w [] o) ∧
        ∀ (c : Chunk n) rest, c.1 ≠ [] → i = c.1 ++ rest →
          Safe world closed Q (k c) w rest o := Iff.rfl

theorem safe_send (Q : α → W → List UInt8 → List UInt8 → Prop) (bs : List UInt8)
    (k : ℕ → SocketM E R α) (w : W) (i o : List UInt8) :
    Safe world closed Q (.act (.send bs) k) w i o ↔
      bs ≠ [] ∧ ∀ m, 0 < m → m ≤ bs.length →
        Safe world closed Q (k m) w i (o ++ bs.take m) := Iff.rfl

theorem Safe.mono {Q Q' : α → W → List UInt8 → List UInt8 → Prop}
    (hQ : ∀ a w i o, Q a w i o → Q' a w i o) {p : SocketM E R α} {w : W} {i o : List UInt8}
    (h : Safe world closed Q p w i o) : Safe world closed Q' p w i o := by
  induction p generalizing w i o with
  | ret a => exact hQ a w i o h
  | fail e => exact e.elim
  | act e k ih =>
    cases e with
    | recv n =>
      exact ⟨h.1, fun h0 => ⟨(h.2.1 h0).1, ih _ (h.2.1 h0).2⟩,
        fun c rest hc hi => ih c (h.2.2 c rest hc hi)⟩
    | send bs => exact ⟨h.1, fun m h1 h2 => ih m (h.2 m h1 h2)⟩
    | call e => exact ih _ h

/-- **The rule of sequencing.** -/
theorem safe_bind (Q : β → W → List UInt8 → List UInt8 → Prop) (p : SocketM E R α)
    (f : α → SocketM E R β) (w : W) (i o : List UInt8) :
    Safe world closed Q (p >>= f) w i o ↔
      Safe world closed (fun a w i o => Safe world closed Q (f a) w i o) p w i o := by
  induction p generalizing w i o with
  | ret a => exact Iff.rfl
  | fail e => exact e.elim
  | act e k ih =>
    cases e with
    | recv n =>
      rw [Prog.act_bind, safe_recv, safe_recv]
      simp only [ih]
    | send bs =>
      rw [Prog.act_bind, safe_send, safe_send]
      simp only [ih]
    | call e => exact ih _ _ _ _

theorem Safe.and {Q Q' : α → W → List UInt8 → List UInt8 → Prop} {p : SocketM E R α} {w : W}
    {i o : List UInt8} (h : Safe world closed Q p w i o) (h' : Safe world closed Q' p w i o) :
    Safe world closed (fun a w i o => Q a w i o ∧ Q' a w i o) p w i o := by
  induction p generalizing w i o with
  | ret a => exact ⟨h, h'⟩
  | fail e => exact e.elim
  | act e k ih =>
    cases e with
    | recv n =>
      exact ⟨h.1, fun h0 => ⟨(h.2.1 h0).1, ih _ (h.2.1 h0).2 (h'.2.1 h0).2⟩,
        fun c rest hc hi => ih c (h.2.2 c rest hc hi) (h'.2.2 c rest hc hi)⟩
    | send bs => exact ⟨h.1, fun m h1 h2 => ih m (h.2 m h1 h2) (h'.2 m h1 h2)⟩
    | call e => exact ih _ h h'

/-- What every leaf of a program satisfies, it satisfies at its end. -/
theorem Safe.and_returns {Q : α → W → List UInt8 → List UInt8 → Prop} {P : α → Prop}
    {p : SocketM E R α} {w : W} {i o : List UInt8} (h : Safe world closed Q p w i o)
    (hp : p.Returns P) : Safe world closed (fun a w i o => Q a w i o ∧ P a) p w i o := by
  induction p generalizing w i o with
  | ret a => exact ⟨h, hp⟩
  | fail e => exact e.elim
  | act e k ih =>
    cases e with
    | recv n =>
      exact ⟨h.1, fun h0 => ⟨(h.2.1 h0).1, ih _ (h.2.1 h0).2 (hp _)⟩,
        fun c rest hc hi => ih c (h.2.2 c rest hc hi) (hp c)⟩
    | send bs => exact ⟨h.1, fun m h1 h2 => ih m (h.2 m h1 h2) (hp m)⟩
    | call e => exact ih _ h (hp _)

/-- **The precondition is not vacuous**: some choice of the socket takes the program to its
end. -/
theorem Safe.exists_post {Q : α → W → List UInt8 → List UInt8 → Prop} {p : SocketM E R α} {w : W}
    {i o : List UInt8} (h : Safe world closed Q p w i o) : ∃ a w' i' o', Q a w' i' o' := by
  induction p generalizing w i o with
  | ret a => exact ⟨a, w, i, o, h⟩
  | fail e => exact e.elim
  | act e k ih =>
    cases e with
    | recv n =>
      cases i with
      | nil => exact ih (.eof n) (h.2.1 rfl).2
      | cons b rest => exact ih (.one h.1 b) (h.2.2 (.one h.1 b) rest (by simp [Chunk.one]) rfl)
    | send bs => exact ih bs.length (h.2 bs.length (List.length_pos_iff.mpr h.1) le_rfl)
    | call e => exact ih _ h

/-- What has been sent is only ever extended. -/
theorem Safe.isPrefix_of_post {total : List UInt8} {Q : α → W → List UInt8 → List UInt8 → Prop}
    (hQ : ∀ a w i o, Q a w i o → o = total) {p : SocketM E R α} {w : W} {i o : List UInt8}
    (h : Safe world closed Q p w i o) : ∃ rest, total = o ++ rest := by
  induction p generalizing w i o with
  | ret a => exact ⟨[], by rw [List.append_nil, hQ a w i o h]⟩
  | fail e => exact e.elim
  | act e k ih =>
    cases e with
    | recv n =>
      cases i with
      | nil => exact ih (.eof n) (h.2.1 rfl).2
      | cons b rest => exact ih (.one h.1 b) (h.2.2 (.one h.1 b) rest (by simp [Chunk.one]) rfl)
    | send bs =>
      obtain ⟨rest, hrest⟩ := ih bs.length (h.2 bs.length (List.length_pos_iff.mpr h.1) le_rfl)
      exact ⟨bs ++ rest, by rw [hrest, List.take_length, List.append_assoc]⟩
    | call e => exact ih _ h

/-- A program that receives nothing leaves its input alone. -/
theorem Safe.input_of_all_notRecv {j : List UInt8} {Q : α → W → List UInt8 → List UInt8 → Prop}
    (hQ : ∀ a w i o, Q a w i o → i = j) {p : SocketM E R α} (hp : p.All SocketAct.NotRecv)
    {w : W} {i o : List UInt8} (h : Safe world closed Q p w i o) : i = j := by
  induction p generalizing w i o with
  | ret a => exact hQ a w i o h
  | fail e => exact e.elim
  | act e k ih =>
    cases e with
    | recv n => exact hp.1.elim
    | send bs =>
      exact ih bs.length (hp.2 _) (h.2 bs.length (List.length_pos_iff.mpr h.1) le_rfl)
    | call e => exact ih _ (hp.2 _) h

/-- A program that sends nothing leaves its output alone. -/
theorem Safe.output_of_all_notSend {j : List UInt8} {Q : α → W → List UInt8 → List UInt8 → Prop}
    (hQ : ∀ a w i o, Q a w i o → o = j) {p : SocketM E R α} (hp : p.All SocketAct.NotSend)
    {w : W} {i o : List UInt8} (h : Safe world closed Q p w i o) : o = j := by
  induction p generalizing w i o with
  | ret a => exact hQ a w i o h
  | fail e => exact e.elim
  | act e k ih =>
    cases e with
    | recv n =>
      cases i with
      | nil => exact ih (.eof n) (hp.2 _) (h.2.1 rfl).2
      | cons b rest =>
        exact ih (.one h.1 b) (hp.2 _) (h.2.2 (.one h.1 b) rest (by simp [Chunk.one]) rfl)
    | send bs => exact hp.1.elim
    | call e => exact ih _ (hp.2 _) h

/-! ## Sockets that break

A send may also fail.  What it raises goes through the whole program, so all that can be said of the
end is that there is nothing returned. -/

/-- **The weakest precondition** of `Q`, for every way the socket may cut the data and whichever
send may fail; `Q` then sees `none`. -/
def SafeBreaking (world : (e : E) → W → R e × W) (closed : Bool)
    (Q : Option α → W → List UInt8 → List UInt8 → Prop) :
    SocketM E R α → W → List UInt8 → List UInt8 → Prop
  | .ret a, w, i, o => Q (some a) w i o
  | .fail e, _, _, _ => e.elim
  | .act (.recv n) k, w, i, o =>
      0 < n ∧ (i = [] → closed = true ∧ SafeBreaking world closed Q (k (.eof n)) w [] o) ∧
        ∀ (c : Chunk n) rest, c.1 ≠ [] → i = c.1 ++ rest →
          SafeBreaking world closed Q (k c) w rest o
  | .act (.send bs) k, w, i, o =>
      bs ≠ [] ∧ Q none w i o ∧ ∀ m, 0 < m → m ≤ bs.length →
        SafeBreaking world closed Q (k m) w i (o ++ bs.take m)
  | .act (.call e) k, w, i, o =>
      SafeBreaking world closed Q (k (world e w).1) (world e w).2 i o

/-- What holds at the end if no send fails also holds if one may, but for the runs that it cuts
off. -/
theorem Safe.safeBreaking {Q : α → W → List UInt8 → List UInt8 → Prop}
    {Q' : Option α → W → List UInt8 → List UInt8 → Prop}
    (hsome : ∀ a w i o, Q a w i o → Q' (some a) w i o) (hnone : ∀ w i o, Q' none w i o)
    {p : SocketM E R α} {w : W} {i o : List UInt8} (h : Safe world closed Q p w i o) :
    SafeBreaking world closed Q' p w i o := by
  induction p generalizing w i o with
  | ret a => exact hsome a w i o h
  | fail e => exact e.elim
  | act e k ih =>
    cases e with
    | recv n =>
      exact ⟨h.1, fun h0 => ⟨(h.2.1 h0).1, ih _ (h.2.1 h0).2⟩,
        fun c rest hc hi => ih c (h.2.2 c rest hc hi)⟩
    | send bs => exact ⟨h.1, hnone w i o, fun m h1 h2 => ih m (h.2 m h1 h2)⟩
    | call e => exact ih _ h

/-- A program that no failing send can stop sends nothing. -/
theorem SafeBreaking.safe_of_not_none {Q : Option α → W → List UInt8 → List UInt8 → Prop}
    (hQ : ∀ w i o, ¬ Q none w i o) {p : SocketM E R α} {w : W} {i o : List UInt8}
    (h : SafeBreaking world closed Q p w i o) :
    Safe world closed (fun _ _ _ o' => o' = o) p w i o := by
  induction p generalizing w i with
  | ret a => rfl
  | fail e => exact e.elim
  | act e k ih =>
    cases e with
    | recv n =>
      exact ⟨h.1, fun h0 => ⟨(h.2.1 h0).1, ih _ (h.2.1 h0).2⟩,
        fun c rest hc hi => ih c (h.2.2 c rest hc hi)⟩
    | send bs => exact (hQ _ _ _ h.2.1).elim
    | call e => exact ih _ h

end SocketM

end NandroidFS
