import NandroidFS.Streams.Socket

/-!
# Two programs on the two ends of a connection

Two socket programs run side by side.  What one sends is queued, in order, for the other; either
may move at any time, and each receive and each send is cut as the socket likes.  Neither knows
what the other is doing.

`Exchanging` is the invariant of one exchange of a question for an answer.  Each side carries its
own weakest precondition (`SocketM.Safe`) for the bytes it has yet to see, and the two are tied
together by bookkeeping alone: what is queued, followed by what the peer has yet to send, is what
this side has yet to read.

* `Exchanging.step`: every step of either side keeps it.
* `Exchanging.left_done`: when the asking side is done, nothing is left to read on either side.
* `Exchanging.progress`: while the asking side is not done, some side can move.
* `Duplex.acc_step`: no run is infinite.

The last two need the order of the messages, which is a property of the program texts: the side
that asks sends everything before it receives, the side that answers receives everything before
it sends.
-/

namespace NandroidFS

/-- One side's view of a connection: its program, its world, the queue it reads and the queue it
writes. -/
inductive PartyStep {E : Type} {R : E → Type} {α W : Type} (world : (e : E) → W → R e × W) :
    SocketM E R α × W × List UInt8 × List UInt8 → SocketM E R α × W × List UInt8 × List UInt8 →
      Prop
  | recv {n : ℕ} {k : Chunk n → SocketM E R α} {w : W} {c : Chunk n} {rest o : List UInt8}
      (hc : c.1 ≠ []) :
      PartyStep world (.act (.recv n) k, w, c.1 ++ rest, o) (k c, w, rest, o)
  | send {bs : List UInt8} {k : ℕ → SocketM E R α} {w : W} {i o : List UInt8} {m : ℕ}
      (hm : 0 < m) (hle : m ≤ bs.length) :
      PartyStep world (.act (.send bs) k, w, i, o) (k m, w, i, o ++ bs.take m)
  | call {e : E} {k : R e → SocketM E R α} {w : W} {i o : List UInt8} :
      PartyStep world (.act (.call e) k, w, i, o) (k (world e w).1, (world e w).2, i, o)

/-- **A step of one side keeps its weakest precondition**, for what is queued and whatever is still
to come, and only adds to what that side has sent. -/
theorem PartyStep.safe {E : Type} {R : E → Type} {α W : Type} {world : (e : E) → W → R e × W}
    {Q : α → W → List UInt8 → List UInt8 → Prop} {p p' : SocketM E R α} {w w' : W}
    {i i' o o' sent : List UInt8} (hp : PartyStep world (p, w, i, o) (p', w', i', o'))
    (more : List UInt8) (hsafe : SocketM.Safe world false Q p w (i ++ more) sent) :
    ∃ bs, o' = o ++ bs ∧ SocketM.Safe world false Q p' w' (i' ++ more) (sent ++ bs) := by
  cases hp with
  | recv hc =>
    refine ⟨[], (List.append_nil _).symm, ?_⟩
    rw [List.append_nil]
    exact hsafe.2.2 _ _ hc (List.append_assoc _ _ _)
  | send hm hle => exact ⟨_, rfl, hsafe.2 _ hm hle⟩
  | call =>
    refine ⟨[], (List.append_nil _).symm, ?_⟩
    rw [List.append_nil]
    exact hsafe

theorem PartyStep.input_eq_nil {E : Type} {R : E → Type} {α W : Type}
    {world : (e : E) → W → R e × W} {p p' : SocketM E R α} {w w' : W} {i i' o o' : List UInt8}
    (hp : PartyStep world (p, w, i, o) (p', w', i', o')) (hi : i = []) : i' = [] := by
  cases hp with
  | recv hc => exact (List.append_eq_nil_iff.mp hi).2
  | send hm hle => exact hi
  | call => exact hi

/-- What follows a step of a two-phase program is a two-phase program. -/
theorem PartyStep.phased {E : Type} {R : E → Type} {α W : Type} {world : (e : E) → W → R e × W}
    {A B : SocketAct E → Prop} {p p' : SocketM E R α} {w w' : W} {i i' o o' : List UInt8}
    (hp : PartyStep world (p, w, i, o) (p', w', i', o')) (h : p.Phased A B) : p'.Phased A B := by
  have tail {e : SocketAct E} {k : SocketAct.Res R e → SocketM E R α}
      (h : Prog.Phased A B (Prog.act e k)) (r : SocketAct.Res R e) : (k r).Phased A B := by
    rcases h with ⟨_, h⟩ | ⟨_, h⟩
    · exact h r
    · exact (h r).phased_right
  cases hp with
  | recv hc => exact tail h _
  | send hm hle => exact tail h _
  | call => exact tail h _

/-- A connection with its two programs, the world each of them calls, and the bytes in flight
each way. -/
structure Duplex (E : Type) (R : E → Type) (α V : Type) (F : Type) (S : F → Type) (β W : Type) where
  left : SocketM E R α
  leftWorld : V
  right : SocketM F S β
  rightWorld : W
  toRight : List UInt8
  toLeft : List UInt8

namespace Duplex

variable {E : Type} {R : E → Type} {α V : Type} {F : Type} {S : F → Type} {β W : Type}
variable (lworld : (e : E) → V → R e × V) (rworld : (e : F) → W → S e × W)

/-- Either side moves. -/
inductive Step : Duplex E R α V F S β W → Duplex E R α V F S β W → Prop
  | left {c c' : SocketM E R α} {v v' : V} {d : SocketM F S β} {w : W}
      {toRight toRight' toLeft toLeft' : List UInt8}
      (h : PartyStep lworld (c, v, toLeft, toRight) (c', v', toLeft', toRight')) :
      Step ⟨c, v, d, w, toRight, toLeft⟩ ⟨c', v', d, w, toRight', toLeft'⟩
  | right {c : SocketM E R α} {v : V} {d d' : SocketM F S β} {w w' : W}
      {toRight toRight' toLeft toLeft' : List UInt8}
      (h : PartyStep rworld (d, w, toRight, toLeft) (d', w', toRight', toLeft')) :
      Step ⟨c, v, d, w, toRight, toLeft⟩ ⟨c, v, d', w', toRight', toLeft'⟩

/-- **No run is infinite**: each step moves one of the two programs to a subtree. -/
theorem acc_step (x : Duplex E R α V F S β W) :
    Acc (fun y x => Step lworld rworld x y) x := by
  obtain ⟨c, v, d, w, r, l⟩ := x
  induction c generalizing v d w r l with
  | ret a =>
    induction d generalizing v w r l with
    | ret b =>
      refine Acc.intro _ fun y hy => ?_
      cases hy with
      | left h => cases h
      | right h => cases h
    | fail e => exact e.elim
    | act e k ih =>
      refine Acc.intro _ fun y hy => ?_
      cases hy with
      | left h => cases h
      | right h => cases h <;> exact ih _ _ _ _ _
  | fail e => exact e.elim
  | act e k ihc =>
    induction d generalizing v w r l with
    | ret b =>
      refine Acc.intro _ fun y hy => ?_
      cases hy with
      | left h => cases h <;> exact ihc _ _ _ _ _ _
      | right h => cases h
    | fail e => exact e.elim
    | act e' k' ihd =>
      refine Acc.intro _ fun y hy => ?_
      cases hy with
      | left h => cases h <;> exact ihc _ _ _ _ _ _
      | right h => cases h <;> exact ihd _ _ _ _ _

variable {lworld rworld}

/-- **One exchange in progress.**  The left side asks `ask` and is owed `answer`.  Of these,
`ls` and `rs` have been sent so far and `lr` and `rr` have not. -/
structure Exchanging (lworld : (e : E) → V → R e × V) (rworld : (e : F) → W → S e × W)
    (ask answer : List UInt8) (P : α → V → Prop) (Q : β → W → Prop)
    (x : Duplex E R α V F S β W) (ls lr rs rr : List UInt8) : Prop where
  ask_eq : ask = ls ++ lr
  answer_eq : answer = rs ++ rr
  left_safe : SocketM.Safe lworld false (fun a v i o => i = [] ∧ o = ask ∧ P a v)
    x.left x.leftWorld (x.toLeft ++ rr) ls
  right_safe : SocketM.Safe rworld false (fun b w i o => i = [] ∧ o = answer ∧ Q b w)
    x.right x.rightWorld (x.toRight ++ lr) rs
  left_phased : x.left.Phased SocketAct.NotRecv SocketAct.NotSend
  right_phased : x.right.Phased SocketAct.NotSend SocketAct.NotRecv
  right_sent : rs ≠ [] → x.right.All SocketAct.NotRecv

variable {ask answer : List UInt8} {P : α → V → Prop} {Q : β → W → Prop}
  {x y : Duplex E R α V F S β W} {ls lr rs rr : List UInt8}

/-- What is left of a message after `bs` more of it have been sent. -/
theorem rest_eq {total sent rest bs rest' : List UInt8} (h : total = sent ++ rest)
    (h' : total = sent ++ bs ++ rest') : rest = bs ++ rest' := by
  rw [h, List.append_assoc] at h'
  exact List.append_cancel_left h'

/-- **Every step keeps the exchange.** -/
theorem Exchanging.step (h : Exchanging lworld rworld ask answer P Q x ls lr rs rr)
    (hs : Step lworld rworld x y) :
    ∃ ls' lr' rs' rr', Exchanging lworld rworld ask answer P Q y ls' lr' rs' rr' := by
  obtain ⟨hask, hans, hls, hrs, hlp, hrp, hsent⟩ := h
  cases hs with
  | left hp =>
    obtain ⟨bs, rfl, hls'⟩ := hp.safe rr hls
    obtain ⟨lr', hlr'⟩ := hls'.isPrefix_of_post fun _ _ _ _ hq => hq.2.1
    have hlr : lr = bs ++ lr' := rest_eq hask hlr'
    refine ⟨ls ++ bs, lr', rs, rr, hlr', hans, hls', ?_, hp.phased hlp, hrp, hsent⟩
    simpa only [hlr, List.append_assoc] using hrs
  | right hp =>
    obtain ⟨bs, ho, hrs'⟩ := hp.safe lr hrs
    obtain ⟨rr', hrr'⟩ := hrs'.isPrefix_of_post fun _ _ _ _ hq => hq.2.1
    have hrr : rr = bs ++ rr' := rest_eq hans hrr'
    refine ⟨ls, lr, rs ++ bs, rr', hask, hrr', ?_, hrs', hlp, hp.phased hrp, fun h0 => ?_⟩
    · simpa only [ho, hrr, List.append_assoc] using hls
    · have hsilent : bs = [] → rs ≠ [] := by
        rintro rfl
        rwa [List.append_nil] at h0
      cases hp with
      | recv hc => exact (hsent (hsilent (List.self_eq_append_right.mp ho))).1.elim
      | send hm hle =>
        -- the first send ends the receiving phase
        rcases hrp with ⟨hno, _⟩ | ⟨_, hall⟩
        · exact hno.elim
        · exact hall _
      | call => exact (hsent (hsilent (List.self_eq_append_right.mp ho))).2 _

/-- **When the asking side is done, everything has been read.**  No byte is in flight either way,
what the asking side returned satisfies its postcondition, and the answering side has nothing
left but to return. -/
theorem Exchanging.left_done (h : Exchanging lworld rworld ask answer P Q x ls lr rs rr)
    (hne : answer ≠ []) {a : α} (ha : x.left = .ret a) :
    x.toRight = [] ∧ x.toLeft = [] ∧ P a x.leftWorld ∧ x.right.All SocketAct.NotRecv ∧
      SocketM.Safe rworld false (fun b w i o => i = [] ∧ o = answer ∧ Q b w)
        x.right x.rightWorld [] answer := by
  obtain ⟨hask, hans, hls, hrs, -, -, hsent⟩ := h
  rw [ha, SocketM.safe_ret] at hls
  obtain ⟨hin, hout, hP⟩ := hls
  obtain ⟨hl, hrr⟩ := List.append_eq_nil_iff.mp hin
  have hlr : lr = [] := by
    have : ls ++ lr = ls ++ [] := by rw [← hask, hout, List.append_nil]
    exact List.append_cancel_left this
  have hrs' : rs = answer := by rw [hans, hrr, List.append_nil]
  have hall := hsent (by rw [hrs']; exact hne)
  have hi := hrs.input_of_all_notRecv (fun _ _ _ _ hq => hq.1) hall
  rw [hi, hrs'] at hrs
  exact ⟨(List.append_eq_nil_iff.mp hi).1, hl, hP, hall, hrs⟩

/-- A side at a send or at a call can always move. -/
theorem exists_step_of_notRecv {G : Type} {T : G → Type} {γ U : Type}
    {world : (e : G) → U → T e × U} {D : γ → U → List UInt8 → List UInt8 → Prop}
    {e : SocketAct G} {k : SocketAct.Res T e → SocketM G T γ} {u : U} {i i' o o' : List UInt8}
    (hsafe : SocketM.Safe world false D (.act e k) u i' o') (he : e.NotRecv) :
    ∃ y, PartyStep world (.act e k, u, i, o) y := by
  cases e with
  | recv n => exact he.elim
  | send bs => exact ⟨_, .send (List.length_pos_iff.mpr hsafe.1) le_rfl⟩
  | call e => exact ⟨_, .call⟩

/-- A side at a receive can move once something is queued for it. -/
theorem exists_step_of_recv {G : Type} {T : G → Type} {γ U : Type}
    (world : (e : G) → U → T e × U) {n : ℕ} {k : Chunk n → SocketM G T γ} {u : U}
    {i o : List UInt8} (hn : 0 < n) (hi : i ≠ []) :
    ∃ y, PartyStep world (.act (.recv n) k, u, i, o) y := by
  obtain ⟨b, rest, rfl⟩ := List.exists_cons_of_ne_nil hi
  exact ⟨_, .recv (c := .one hn b) (List.cons_ne_nil _ _)⟩

/-- A two-phase asker that is about to receive has sent its whole question. -/
theorem Exchanging.asked (h : Exchanging lworld rworld ask answer P Q x ls lr rs rr) {n : ℕ}
    {k : Chunk n → SocketM E R α} (hl : x.left = .act (.recv n) k) : lr = [] := by
  have hall : x.left.All SocketAct.NotSend := by
    have hp := h.left_phased
    rw [hl] at hp ⊢
    rcases hp with ⟨hno, _⟩ | hall
    · exact hno.elim
    · exact hall
  have hls := h.left_safe.output_of_all_notSend (fun _ _ _ _ hq => hq.2.1) hall
  have : ls ++ lr = ls ++ [] := by rw [← h.ask_eq, hls, List.append_nil]
  exact List.append_cancel_left this

/-- **No deadlock**: until the asking side is done, some side can move. -/
theorem Exchanging.progress (h : Exchanging lworld rworld ask answer P Q x ls lr rs rr) :
    (∃ a, x.left = .ret a) ∨ ∃ y, Step lworld rworld x y := by
  have hasked := fun {n} {k} (hl : x.left = .act (.recv n) k) => h.asked hl
  obtain ⟨-, hans, hls, hrs, -, -, -⟩ := h
  obtain ⟨c, v, d, w, toRight, toLeft⟩ := x
  simp only at hls hrs hasked
  cases c with
  | ret a => exact Or.inl ⟨a, rfl⟩
  | fail e => exact e.elim
  | act e k =>
    refine Or.inr ?_
    by_cases he : e.NotRecv
    · obtain ⟨⟨c', v', i', o'⟩, hy⟩ := exists_step_of_notRecv (i := toLeft) (o := toRight) hls he
      exact ⟨_, .left hy⟩
    · cases e with
      | send bs => exact (he trivial).elim
      | call e => exact (he trivial).elim
      | recv n =>
        by_cases hq : toLeft = []
        · -- the asker waits for bytes not yet sent, so the other side is not done
          subst hq
          have hrr : rr ≠ [] := fun h0 => by simpa using (hls.2.1 h0).1
          have hlr : lr = [] := hasked rfl
          cases d with
          | ret b =>
            refine (hrr ?_).elim
            have : rs ++ rr = rs ++ [] := by rw [← hans, List.append_nil, hrs.2.1]
            exact List.append_cancel_left this
          | fail e => exact e.elim
          | act e' k' =>
            by_cases he' : e'.NotRecv
            · obtain ⟨⟨d', w', i', o'⟩, hy⟩ :=
                exists_step_of_notRecv (i := toRight) (o := []) hrs he'
              exact ⟨_, .right hy⟩
            · cases e' with
              | send bs => exact (he' trivial).elim
              | call e => exact (he' trivial).elim
              | recv m =>
                have hne : toRight ≠ [] := fun h0 => by
                  simpa using (hrs.2.1 (by rw [h0, hlr]; rfl)).1
                obtain ⟨⟨d', w', i', o'⟩, hy⟩ :=
                  exists_step_of_recv rworld (k := k') (u := w) (o := []) hrs.1 hne
                exact ⟨_, .right hy⟩
        · obtain ⟨⟨c', v', i', o'⟩, hy⟩ :=
            exists_step_of_recv lworld (k := k) (u := v) (o := toRight) hls.1 hq
          exact ⟨_, .left hy⟩

end Duplex

end NandroidFS
