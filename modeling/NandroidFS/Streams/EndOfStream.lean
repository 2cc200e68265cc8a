import NandroidFS.Streams.ByteStream
import NandroidFS.Streams.Duplex

/-!
# Programs that meet the end of a stream

A peer may be gone in the middle of what it was about to send.  A program that raises wherever it
meets the end of the stream cannot be misled by that: it reads what was sent as it would have done,
and where this is not all it raises.

`HeedsEnd` is the property of the program text, of stream programs and of socket programs.

* `SocketM.Safe.cut`: what a program does on a whole stream it also does on the part of it that
  arrives, or it ends badly.
* `StreamM.failed_of_asks`: a program that cannot return without reading raises where nothing comes.
-/

namespace NandroidFS

namespace SocketM

variable {E : Type} {R : E → Type} {α β W : Type} {Bad : α → Prop} {Bad' : β → Prop}

/-- The program does nothing but receive, and if nothing comes it ends badly. -/
def Doomed (Bad : α → Prop) : SocketM E R α → Prop
  | .ret a => Bad a
  | .fail _ => True
  | .act (.recv n) k => 0 < n ∧ Doomed Bad (k (.eof n))
  | .act (.send _) _ => False
  | .act (.call _) _ => False

/-- Wherever the program meets the end of the stream, it ends badly. -/
def HeedsEnd (Bad : α → Prop) : SocketM E R α → Prop
  | .ret _ => True
  | .fail _ => True
  | .act (.recv n) k => Doomed Bad (k (.eof n)) ∧ ∀ c, HeedsEnd Bad (k c)
  | .act (.send _) k => ∀ m, HeedsEnd Bad (k m)
  | .act (.call _) k => ∀ r, HeedsEnd Bad (k r)

theorem Doomed.bind {p : SocketM E R α} {f : α → SocketM E R β} (hp : Doomed Bad p)
    (hf : ∀ a, Bad a → Doomed Bad' (f a)) : Doomed Bad' (p >>= f) := by
  induction p with
  | ret a => exact hf a hp
  | fail e => trivial
  | act e k ih =>
    cases e with
    | recv n => exact ⟨hp.1, ih _ hp.2⟩
    | send bs => exact hp.elim
    | call e => exact hp.elim

theorem HeedsEnd.bind {p : SocketM E R α} {f : α → SocketM E R β} (hp : HeedsEnd Bad p)
    (hbad : ∀ a, Bad a → Doomed Bad' (f a)) (hf : ∀ a, HeedsEnd Bad' (f a)) :
    HeedsEnd Bad' (p >>= f) := by
  induction p with
  | ret a => exact hf a
  | fail e => trivial
  | act e k ih =>
    cases e with
    | recv n => exact ⟨hp.1.bind hbad, fun c => ih c (hp.2 c)⟩
    | send bs => exact fun m => ih m (hp m)
    | call e => exact fun r => ih r (hp r)

/-- A program that receives nothing does not meet the end. -/
theorem heedsEnd_bind_of_all_notRecv {p : SocketM E R α} {f : α → SocketM E R β}
    (hp : p.All SocketAct.NotRecv) (hf : ∀ a, HeedsEnd Bad' (f a)) : HeedsEnd Bad' (p >>= f) := by
  induction p with
  | ret a => exact hf a
  | fail e => trivial
  | act e k ih =>
    cases e with
    | recv n => exact hp.1.elim
    | send bs => exact fun m => ih m (hp.2 m)
    | call e => exact fun r => ih r (hp.2 r)

variable {world : (e : E) → W → R e × W} {closed : Bool}

theorem Doomed.safe {p : SocketM E R α} (hp : Doomed Bad p) (w : W) (o : List UInt8) :
    Safe world true (fun a w' i o' => Bad a ∧ w' = w ∧ i = [] ∧ o' = o) p w [] o := by
  induction p with
  | ret a => exact ⟨hp, rfl, rfl, rfl⟩
  | fail e => exact e.elim
  | act e k ih =>
    cases e with
    | recv n =>
      refine ⟨hp.1, fun _ => ⟨rfl, ih _ hp.2⟩, fun c rest hc hi => ?_⟩
      exact (hc (List.append_eq_nil_iff.mp hi.symm).1).elim
    | send bs => exact hp.elim
    | call e => exact hp.elim

/-- **A stream that is cut.**  What a program does on all of a stream, it does on the part that
arrives as far as it can tell, and otherwise it ends badly. -/
theorem Safe.cut {Q : α → W → List UInt8 → List UInt8 → Prop} {p : SocketM E R α}
    (hp : HeedsEnd Bad p) {w : W} {i more o : List UInt8}
    (h : Safe world false Q p w (i ++ more) o) :
    Safe world true (fun a w' i' o' => Q a w' (i' ++ more) o' ∨ Bad a ∧ i' = []) p w i o := by
  induction p generalizing w i o with
  | ret a => exact Or.inl h
  | fail e => exact e.elim
  | act e k ih =>
    cases e with
    | recv n =>
      refine ⟨h.1, fun hi => ⟨rfl, ?_⟩, fun c rest hc hi => ?_⟩
      · exact (hp.1.safe w o).mono fun a w' i' o' ha => Or.inr ⟨ha.1, ha.2.2.1⟩
      · exact ih c (hp.2 c) (h.2.2 c (rest ++ more) hc (by rw [hi, List.append_assoc]))
    | send bs => exact ⟨h.1, fun m hm hle => ih m (hp m) (h.2 m hm hle)⟩
    | call e => exact ih _ (hp _) h

end SocketM

/-- A step of a program keeps its weakest precondition for what is queued, whether more may come or
not. -/
theorem PartyStep.exists_safe {E : Type} {R : E → Type} {α W : Type}
    {world : (e : E) → W → R e × W} {closed : Bool}
    {Q : α → W → List UInt8 → List UInt8 → Prop} {p p' : SocketM E R α} {w w' : W}
    {i i' o o' sent : List UInt8} (hp : PartyStep world (p, w, i, o) (p', w', i', o'))
    (hsafe : SocketM.Safe world closed Q p w i sent) :
    ∃ sent', SocketM.Safe world closed Q p' w' i' sent' := by
  cases hp with
  | recv hc => exact ⟨sent, hsafe.2.2 _ _ hc rfl⟩
  | send hm hle => exact ⟨_, hsafe.2 _ hm hle⟩
  | call => exact ⟨sent, hsafe⟩

theorem PartyStep.heedsEnd {E : Type} {R : E → Type} {α W : Type} {world : (e : E) → W → R e × W}
    {Bad : α → Prop} {p p' : SocketM E R α} {w w' : W} {i i' o o' : List UInt8}
    (hp : PartyStep world (p, w, i, o) (p', w', i', o')) (h : p.HeedsEnd Bad) :
    p'.HeedsEnd Bad := by
  cases hp with
  | recv hc => exact h.2 _
  | send hm hle => exact h _
  | call => exact h _

namespace StreamM

variable {E : Type} {R : E → Type} {ε α β W : Type}

/-- Wherever the program meets the end of the stream, it raises. -/
def HeedsEnd : StreamM E R ε α → Prop
  | .ret _ => True
  | .fail _ => True
  | .act (.readExact _) k => (∃ e, k none = .fail e) ∧ ∀ bs, HeedsEnd (k (some bs))
  | .act (.writeExact _) k => HeedsEnd (k ())
  | .act .flush k => HeedsEnd (k ())
  | .act (.call _) k => ∀ r, HeedsEnd (k r)

theorem HeedsEnd.bind {p : StreamM E R ε α} {f : α → StreamM E R ε β} (hp : p.HeedsEnd)
    (hf : ∀ a, (f a).HeedsEnd) : (p >>= f).HeedsEnd := by
  induction p with
  | ret a => exact hf a
  | fail e => trivial
  | act e k ih =>
    cases e with
    | readExact n =>
      obtain ⟨⟨e, he⟩, hk⟩ := hp
      exact ⟨⟨e, congrArg (Prog.bind · f) he⟩, fun bs => ih _ (hk bs)⟩
    | writeExact bs => exact ih () hp
    | flush => exact ih () hp
    | call e => exact fun r => ih r (hp r)

theorem heedsEnd_readExact (eof : ε) (n : ℕ) :
    (readExact eof n : StreamM E R ε (List UInt8)).HeedsEnd :=
  ⟨⟨eof, rfl⟩, fun _ => trivial⟩

theorem heedsEnd_of_noReads {p : StreamM E R ε α} (hp : p.NoReads) : p.HeedsEnd := by
  induction p with
  | ret a => trivial
  | fail e => trivial
  | act e k ih =>
    cases e with
    | readExact n => exact hp.1.elim
    | writeExact bs => exact ih () (hp.2 ())
    | flush => exact ih () (hp.2 ())
    | call e => exact fun r => ih r (hp.2 r)

/-- The program reads before it returns, and raises if there is nothing. -/
def Asks : StreamM E R ε α → Prop
  | .ret _ => False
  | .fail _ => True
  | .act (.readExact n) k => 0 < n ∧ ∃ e, k none = .fail e
  | .act (.writeExact _) k => Asks (k ())
  | .act .flush k => Asks (k ())
  | .act (.call _) k => ∀ r, Asks (k r)

theorem Asks.bind_left {p : StreamM E R ε α} (hp : p.Asks) (f : α → StreamM E R ε β) :
    (p >>= f).Asks := by
  induction p with
  | ret a => exact hp.elim
  | fail e => trivial
  | act e k ih =>
    cases e with
    | readExact n =>
      obtain ⟨hn, e, he⟩ := hp
      exact ⟨hn, e, congrArg (Prog.bind · f) he⟩
    | writeExact bs => exact ih () hp
    | flush => exact ih () hp
    | call e => exact fun r => ih r (hp r)

theorem Asks.bind_right {p : StreamM E R ε α} {f : α → StreamM E R ε β} (hp : p.NoReads)
    (hf : ∀ a, (f a).Asks) : (p >>= f).Asks := by
  induction p with
  | ret a => exact hf a
  | fail e => trivial
  | act e k ih =>
    cases e with
    | readExact n => exact hp.1.elim
    | writeExact bs => exact ih () (hp.2 ())
    | flush => exact ih () (hp.2 ())
    | call e => exact fun r => ih r (hp.2 r)

theorem asks_readExact (eof : ε) {n : ℕ} (hn : 0 < n) :
    (readExact eof n : StreamM E R ε (List UInt8)).Asks :=
  ⟨hn, eof, rfl⟩

/-- **Where nothing comes, a program that asks raises.** -/
theorem failed_of_asks {p : StreamM E R ε α} (hp : p.Asks) (world : (e : E) → W → R e × W)
    {v : View W} (hv : v.inflow = []) : ∃ e, (run world true p v).1 = .failed e := by
  induction p generalizing v with
  | ret a => exact hp.elim
  | fail e => exact ⟨e, rfl⟩
  | act e k ih =>
    cases e with
    | readExact n =>
      obtain ⟨hn, e, he⟩ := hp
      refine ⟨e, ?_⟩
      rw [run_readExact_act, hv, List.length_nil, if_neg (Nat.not_le.mpr hn), if_pos rfl, he]
      rfl
    | writeExact bs => exact ih () hp hv
    | flush => exact ih () hp hv
    | call e => exact ih _ (hp _) hv

end StreamM

end NandroidFS
