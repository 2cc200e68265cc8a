import NandroidFS.Streams.EndOfStream

/-!
# Programs that are interrupted

A program on a connection may stop before its end: the stream ends where it reads, or the connection
is lost while it sends.  What it has done to its world by then stays done.

`StreamM.Stops` says which states of the world a program may stop in, and `SocketM.SafeBreaking` is
the same of a socket program.  What is read and not used yet leaves no trace, and neither does an
answer that is not sent.

* `StreamM.stops_bind`: programs are checked piece by piece.
* `StreamM.stops_bind_of_reads`: a message that is cut off stops the program where it is.
* `SocketM.SafeBreaking.step`: what may be left behind later may be left behind now.
-/

namespace NandroidFS

/-- The action sends. -/
def SocketAct.IsSend {E : Type} : SocketAct E → Prop
  | .send _ => True
  | _ => False

namespace SocketM

variable {E : Type} {R : E → Type} {α β W : Type} {world : (e : E) → W → R e × W} {closed : Bool}

theorem SafeBreaking.mono {Q Q' : Option α → W → List UInt8 → List UInt8 → Prop}
    (hQ : ∀ x w i o, Q x w i o → Q' x w i o) {p : SocketM E R α} {w : W} {i o : List UInt8}
    (h : SafeBreaking world closed Q p w i o) : SafeBreaking world closed Q' p w i o := by
  induction p generalizing w i o with
  | ret a => exact hQ _ w i o h
  | fail e => exact e.elim
  | act e k ih =>
    cases e with
    | recv n =>
      exact ⟨h.1, fun h0 => ⟨(h.2.1 h0).1, ih _ (h.2.1 h0).2⟩,
        fun c rest hc hi => ih c (h.2.2 c rest hc hi)⟩
    | send bs => exact ⟨h.1, hQ _ w i o h.2.1, fun m h1 h2 => ih m (h.2.2 m h1 h2)⟩
    | call e => exact ih _ h

/-- What is left behind when the first part stops, or when the second does. -/
def Then (Q : Option β → W → List UInt8 → List UInt8 → Prop)
    (next : α → W → List UInt8 → List UInt8 → Prop) :
    Option α → W → List UInt8 → List UInt8 → Prop
  | none => Q none
  | some a => next a

/-- **The rule of sequencing.** -/
theorem SafeBreaking.bind {Q : Option β → W → List UInt8 → List UInt8 → Prop} {p : SocketM E R α}
    {f : α → SocketM E R β} {w : W} {i o : List UInt8}
    (h : SafeBreaking world closed
      (Then Q fun a w i o => SafeBreaking world closed Q (f a) w i o) p w i o) :
    SafeBreaking world closed Q (p >>= f) w i o := by
  induction p generalizing w i o with
  | ret a => exact h
  | fail e => exact e.elim
  | act e k ih =>
    cases e with
    | recv n =>
      exact ⟨h.1, fun h0 => ⟨(h.2.1 h0).1, ih _ (h.2.1 h0).2⟩,
        fun c rest hc hi => ih c (h.2.2 c rest hc hi)⟩
    | send bs => exact ⟨h.1, h.2.1, fun m h1 h2 => ih m (h.2.2 m h1 h2)⟩
    | call e => exact ih _ h

/-- A program that sends nothing is not interrupted. -/
theorem Safe.safeBreaking_of_all_notSend {Q : α → W → List UInt8 → List UInt8 → Prop}
    {Q' : Option α → W → List UInt8 → List UInt8 → Prop}
    (hQ : ∀ a w i o, Q a w i o → Q' (some a) w i o) {p : SocketM E R α}
    (hp : p.All SocketAct.NotSend) {w : W} {i o : List UInt8} (h : Safe world closed Q p w i o) :
    SafeBreaking world closed Q' p w i o := by
  induction p generalizing w i o with
  | ret a => exact hQ a w i o h
  | fail e => exact e.elim
  | act e k ih =>
    cases e with
    | recv n =>
      exact ⟨h.1, fun h0 => ⟨(h.2.1 h0).1, ih _ (hp.2 _) (h.2.1 h0).2⟩,
        fun c rest hc hi => ih c (hp.2 c) (h.2.2 c rest hc hi)⟩
    | send bs => exact hp.1.elim
    | call e => exact ih _ (hp.2 _) h

/-- A program that does nothing but send is interrupted in the world it begins in. -/
theorem Safe.safeBreaking_of_all_isSend {Q : α → W → List UInt8 → List UInt8 → Prop}
    {Q' : Option α → W → List UInt8 → List UInt8 → Prop}
    (hQ : ∀ a w i o, Q a w i o → Q' (some a) w i o) {p : SocketM E R α}
    (hp : p.All SocketAct.IsSend) {w : W} {i o : List UInt8} (hnone : ∀ o, Q' none w i o)
    (h : Safe world closed Q p w i o) : SafeBreaking world closed Q' p w i o := by
  induction p generalizing o with
  | ret a => exact hQ a w i o h
  | fail e => exact e.elim
  | act e k ih =>
    cases e with
    | recv n => exact hp.1.elim
    | send bs => exact ⟨h.1, hnone o, fun m h1 h2 => ih m (hp.2 m) (h.2 m h1 h2)⟩
    | call e => exact hp.1.elim

/-- **A step of a program** that may be interrupted leads to one that may be interrupted in no other
way. -/
theorem SafeBreaking.step {Q : Option α → W → List UInt8 → List UInt8 → Prop}
    {p p' : SocketM E R α} {w w' : W} {i i' o o' sent : List UInt8}
    (h : SafeBreaking world closed Q p w i sent)
    (hp : PartyStep world (p, w, i, o) (p', w', i', o')) :
    ∃ sent', SafeBreaking world closed Q p' w' i' sent' := by
  cases hp with
  | recv hc => exact ⟨sent, h.2.2 _ _ hc rfl⟩
  | send hm hle => exact ⟨_, h.2.2 _ hm hle⟩
  | call => exact ⟨sent, h⟩

end SocketM

namespace StreamM

variable {E : Type} {R : E → Type} {ε α β W : Type} (world : (e : E) → W → R e × W)

/-- With `i` to come before the stream ends, the program stops in `S` or returns in `Q`. -/
def Stops (S : W → Prop) (Q : α → W → List UInt8 → Prop) :
    StreamM E R ε α → W → List UInt8 → Prop
  | .ret a, w, i => Q a w i
  | .fail _, w, _ => S w
  | .act (.readExact n) k, w, i =>
      (n ≤ i.length → Stops S Q (k (some (i.take n))) w (i.drop n)) ∧
        (i.length < n → Stops S Q (k none) w [])
  | .act (.writeExact _) k, w, i => S w ∧ Stops S Q (k ()) w i
  | .act .flush k, w, i => S w ∧ Stops S Q (k ()) w i
  | .act (.call e) k, w, i => Stops S Q (k (world e w).1) (world e w).2 i

variable {world} {S : W → Prop} {p : StreamM E R ε α} {w : W} {i : List UInt8}

theorem Stops.mono {S' : W → Prop} {Q Q' : α → W → List UInt8 → Prop}
    (h : Stops world S Q p w i) (hS : ∀ w', S w' → S' w')
    (hQ : ∀ a w' i', Q a w' i' → Q' a w' i') : Stops world S' Q' p w i := by
  induction p generalizing w i with
  | ret a => exact hQ a w i h
  | fail e => exact hS w h
  | act e k ih =>
    cases e with
    | readExact n => exact ⟨fun hle => ih _ (h.1 hle), fun hlt => ih _ (h.2 hlt)⟩
    | writeExact bs => exact ⟨hS w h.1, ih _ h.2⟩
    | flush => exact ⟨hS w h.1, ih _ h.2⟩
    | call e => exact ih _ h

/-- **Programs are checked piece by piece.** -/
theorem stops_bind {Q : β → W → List UInt8 → Prop} {f : α → StreamM E R ε β} :
    Stops world S Q (p >>= f) w i ↔
      Stops world S (fun a w' i' => Stops world S Q (f a) w' i') p w i := by
  induction p generalizing w i with
  | ret a => exact Iff.rfl
  | fail e => exact Iff.rfl
  | act e k ih =>
    rw [Prog.act_bind]
    cases e with
    | readExact n => exact and_congr (forall_congr' fun _ => ih _) (forall_congr' fun _ => ih _)
    | writeExact bs => exact and_congr_right' (ih _)
    | flush => exact and_congr_right' (ih _)
    | call e => exact ih _

/-- A program that writes nothing stops as its run does. -/
theorem stops_of_run {Q : α → W → List UInt8 → Prop} (hp : p.NoWrites) {v : View W}
    (hw : v.world = w) (hi : v.inflow = i)
    (hdone : ∀ a, (run world true p v).1 = .done a →
      Q a (run world true p v).2.world (run world true p v).2.inflow)
    (hfailed : ∀ e, (run world true p v).1 = .failed e → S (run world true p v).2.world) :
    Stops world S Q p w i := by
  subst hw hi
  induction p generalizing v with
  | ret a => exact hdone a rfl
  | fail e => exact hfailed e rfl
  | act e k ih =>
    cases e with
    | readExact n =>
      rw [run_readExact_act] at hdone hfailed
      refine ⟨fun hle => ?_, fun hlt => ?_⟩
      · rw [if_pos hle] at hdone hfailed
        exact ih _ (hp.2 _) hdone hfailed
      · rw [if_neg (Nat.not_le.mpr hlt), if_pos rfl] at hdone hfailed
        exact ih _ (hp.2 _) hdone hfailed
    | writeExact bs => exact hp.1.elim
    | flush => exact hp.1.elim
    | call e => exact ih _ (hp.2 _) hdone hfailed

/-- What a program that writes nothing makes of its input, the next one goes on with. -/
theorem stops_bind_of_run {Q : β → W → List UInt8 → Prop} {f : α → StreamM E R ε β}
    (hp : p.NoWrites) {v v' : View W} {a : α} (hrun : run world true p v = (.done a, v'))
    (hf : Stops world S Q (f a) v'.world v'.inflow) :
    Stops world S Q (p >>= f) v.world v.inflow := by
  refine stops_bind.mpr (stops_of_run hp rfl rfl (fun a' ha => ?_) fun e he => ?_)
  · rw [hrun] at ha ⊢
    obtain rfl := Outcome.done.inj ha
    exact hf
  · rw [hrun] at he
    cases he

/-- A program that writes nothing, with what it is known to do. -/
theorem stops_bind_of_does {Q : β → W → List UInt8 → Prop} {f : α → StreamM E R ε β}
    (hp : p.NoWrites) {a : α} {w' : W} (hdoes : Does world p w [] [] a w')
    (hf : Stops world S Q (f a) w' i) : Stops world S Q (p >>= f) w i := by
  obtain ⟨settled, hrun⟩ := hdoes true ⟨i, [], false, w⟩ i rfl rfl
  exact stops_bind_of_run (v := ⟨i, [], false, w⟩) hp hrun hf

theorem stops_call_bind {Q : α → W → List UInt8 → Prop} {e : E} {f : R e → StreamM E R ε α}
    (hf : Stops world S Q (f (world e w).1) (world e w).2 i) :
    Stops world S Q (call e >>= f) w i :=
  hf

/-- Serialising stops in the world it begins in. -/
theorem stops_bind_of_onlyWrites {Q : β → W → List UInt8 → Prop} {f : α → StreamM E R ε β}
    (hp : p.OnlyWrites) (hS : S w) (hf : ∀ a, Stops world S Q (f a) w i) :
    Stops world S Q (p >>= f) w i := by
  induction p with
  | ret a => exact hf a
  | fail e => exact hS
  | act e k ih =>
    cases e with
    | readExact n => exact hp.1.elim
    | writeExact bs => exact ⟨hS, ih _ (hp.2 _)⟩
    | flush => exact hp.1.elim
    | call e => exact hp.1.elim

theorem stops_of_onlyWrites {Q : α → W → List UInt8 → Prop} (hp : p.OnlyWrites) (hS : S w)
    (hQ : ∀ a, Q a w i) : Stops world S Q p w i := by
  rw [← Prog.bind_ret p]
  exact stops_bind_of_onlyWrites hp hS hQ

/-- What is left to read of a message once its first bytes have been read. -/
theorem Reads.tail {n : ℕ} {k : Option (List UInt8) → StreamM E R ε α} {bs : List UInt8} {a : α}
    (world : (e : E) → W → R e × W) (w : W) (hp : Reads (.act (.readExact n) k) bs a) :
    n ≤ bs.length ∧ Reads (k (some (bs.take n))) (bs.drop n) a := by
  have hle : n ≤ bs.length := by
    by_contra hlt
    have hrun := hp W world false ⟨bs, [], false, w⟩ [] (List.append_nil bs).symm
    rw [run_readExact_act, if_neg hlt] at hrun
    cases (Prod.mk.inj hrun).1
  refine ⟨hle, fun V world' closed v rest hv => ?_⟩
  have hrun := hp V world' closed { v with inflow := bs ++ rest } rest rfl
  have hle' : n ≤ (bs ++ rest).length := by
    rw [List.length_append]
    omega
  rw [run_readExact_of_le _ _ hle'] at hrun
  simp only [List.take_append_of_le_length hle, List.drop_append_of_le_length hle, ← hv] at hrun
  exact hrun

/-- **A message that is cut off** stops its decoder in the world it begins in. -/
theorem stops_of_cut {Q : α → W → List UInt8 → Prop} (honly : p.OnlyReads) (hheeds : p.HeedsEnd)
    {bs : List UInt8} {a : α} (hp : p.Reads bs a) (hi : i <+: bs) (hne : i ≠ bs) (hS : S w) :
    Stops world S Q p w i := by
  induction p generalizing i bs with
  | ret a' =>
    -- there was nothing to read
    have hrun := hp W world false ⟨bs, [], false, w⟩ [] (List.append_nil bs).symm
    obtain rfl : bs = [] := congrArg (fun x => x.2.inflow) hrun
    exact (hne (List.prefix_nil.mp hi)).elim
  | fail e => exact hS
  | act e k ih =>
    cases e with
    | readExact n =>
      obtain ⟨-, htail⟩ := Reads.tail world w hp
      refine ⟨fun hle => ?_, fun hlt => ?_⟩
      · obtain ⟨more, rfl⟩ := hi
        rw [List.take_append_of_le_length hle, List.drop_append_of_le_length hle] at htail
        refine ih _ (honly.2 _) (hheeds.2 _) htail (List.prefix_append _ _) fun heq => hne ?_
        rw [List.self_eq_append_right] at heq ⊢
        exact heq
      · obtain ⟨⟨e, he⟩, -⟩ := hheeds
        rw [he]
        exact hS
    | writeExact bs => exact honly.1.elim
    | flush => exact honly.1.elim
    | call e => exact honly.1.elim

/-- The program is a decoder: it does nothing but read `bs`, from which it makes `a`, and it raises
where the stream ends before. -/
structure Decodes (p : StreamM E R ε α) (bs : List UInt8) (a : α) : Prop where
  onlyReads : p.OnlyReads
  heedsEnd : p.HeedsEnd
  reads : p.Reads bs a

/-- **A message is read, or the stream ends in it.** -/
theorem stops_bind_of_decodes {Q : β → W → List UInt8 → Prop} {f : α → StreamM E R ε β}
    {bs more : List UInt8} {a : α} (hp : p.Decodes bs a) (hi : i <+: bs ++ more) (hS : S w)
    (hf : ∀ rest, i = bs ++ rest → rest <+: more → Stops world S Q (f a) w rest) :
    Stops world S Q (p >>= f) w i := by
  by_cases hwhole : bs <+: i
  · obtain ⟨rest, rfl⟩ := hwhole
    have hrest : rest <+: more := (List.prefix_append_right_inj bs).mp hi
    exact stops_bind_of_run hp.onlyReads.noWrites
      (hp.reads W world true ⟨bs ++ rest, [], false, w⟩ rest rfl) (hf rest rfl hrest)
  · have hcut : i <+: bs :=
      (List.prefix_or_prefix_of_prefix hi (List.prefix_append _ _)).resolve_right hwhole
    refine stops_bind.mpr (stops_of_cut hp.onlyReads hp.heedsEnd hp.reads hcut ?_ hS)
    rintro rfl
    exact hwhole List.prefix_rfl

end StreamM

end NandroidFS
