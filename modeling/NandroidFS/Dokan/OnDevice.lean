import NandroidFS.Dokan.Operations
import NandroidFS.Protocol.Exchange
import NandroidFS.Daemon.MessageLoop

/-!
# A callback and the device

`onDevice` runs a callback against the daemon: every call that it makes is answered by `serve`, and
nothing else happens in between.  This is a callback whose calls are not answered from a cache; but
what ends with `desktop.ini` is denied by the client itself, be it looked up or opened.

`carries_onDevice` says that a callback really goes this way.  Its methods send the bytes of their
requests, the rounds of `handle_messages` make of them the bytes of the responses, and the methods
read them.

The rest of the module is `get_disk_free_space`.  `statvfs` counts blocks in units of `f_frsize`,
and the blocks that are free for everybody are `f_bavail`.  The daemon multiplies by `f_bsize`, and
what it passes on as available are the free inodes, `f_favail`.
-/

namespace NandroidFS

open Connection

/-! ## One call -/

namespace Call

/-- What a method answers by itself when nothing is cached. -/
def denied? : Call → Option Reply
  | .statFile path =>
      if endsWithDesktopIni (win32PathToUnix path) then some (.status .fileNotFound) else none
  | .openFile path _ _ _ =>
      if endsWithDesktopIni (win32PathToUnix path) then some (.status .genericFailure) else none
  | _ => none

/-- The answer to a call when nothing is cached, and the device after it. -/
def answer {K : Type} (call : Kernel K) (c : Call) (k : K) : Reply × K :=
  match c.denied? with
  | some reply => (reply, k)
  | none => ((serve call c.request k).1.reply, (serve call c.request k).2)

section

variable {K : Type} {call : Kernel K} {c : Call} {k : K}

theorem answer_of_asked (hc : c.denied? = none) :
    c.answer call k = ((serve call c.request k).1.reply, (serve call c.request k).2) := by
  rw [answer, hc]

theorem answer_of_denied {reply : Reply} (hc : c.denied? = some reply) :
    c.answer call k = (reply, k) := by
  rw [answer, hc]

theorem answer_statFile_of_not_suffix {path : WString}
    (hname : ¬desktopIni <:+ win32PathToUnix path) :
    (statFile path).answer call k = ((serve call (statFile path).request k).1.reply,
      (serve call (statFile path).request k).2) := by
  refine answer_of_asked ?_
  rw [denied?, if_neg]
  rwa [endsWithDesktopIni, List.isSuffixOf_iff_suffix]

theorem answer_statFile_of_suffix {path : WString} (hname : desktopIni <:+ win32PathToUnix path) :
    (statFile path).answer call k = (.status .fileNotFound, k) := by
  refine answer_of_denied ?_
  rw [denied?, if_pos]
  rwa [endsWithDesktopIni, List.isSuffixOf_iff_suffix]

/-- What is not denied is asked: with empty caches, this is every call but the look-up and the
opening of `desktop.ini`. -/
theorem not_quiet_of_asked (hc : c.denied? = none) : ¬c.Quiet uncached () := by
  cases c with
  | statFile path =>
    rintro (hcached | hini)
    · cases hcached
    · rw [denied?, if_pos hini] at hc
      cases hc
  | openFile path mode readAccess writeAccess =>
    intro hini
    have hends : endsWithDesktopIni (win32PathToUnix path) = true := hini
    rw [denied?, if_pos hends] at hc
    cases hc
  | _ => exact id

variable (h h' : Host) (rounds : ℕ)

/-- Empty caches answer nothing before the mutex is taken. -/
theorem receives_unlocked (c : Call) : StreamM.Receives uncached c.unlocked () [] none () := by
  cases c with
  | statFile path => exact StreamM.Receives.call_bind (StreamM.Receives.ret _ _)
  | listFileStats path => exact StreamM.Receives.call_bind (StreamM.Receives.ret _ _)
  | _ => exact StreamM.Receives.ret _ _

/-- **A call that is denied** leaves the stream alone. -/
theorem receives_of_denied {reply : Reply} (hc : c.denied? = some reply) :
    StreamM.Receives uncached (c.program h rounds) () [] reply () := by
  refine (receives_unlocked c).bind_nil (StreamM.Receives.call_bind ?_)
  cases c with
  | statFile path =>
    rw [denied?] at hc
    split at hc
    · next hini =>
      cases hc
      refine StreamM.Receives.call_bind ?_
      simp only [uncached, if_pos hini]
      exact StreamM.Receives.ret _ _
    · cases hc
  | openFile path mode readAccess writeAccess =>
    rw [denied?] at hc
    split at hc
    · next hini =>
      cases hc
      rw [locked, reqOpenFile, if_pos hini]
      exact StreamM.Receives.ret _ _
    · cases hc
  | _ => cases hc

/-- **A call that goes to the daemon.**  The method of the client and the round of the daemon fit
together at the bytes of the request and of the response. -/
theorem exchange_of_serve (hc : c.denied? = none) (hq : c.request.Fits) (hs : c.request.Sized)
    (hd : Drains call c.request k) (hleg : (serve call c.request k).1.Legible rounds) :
    StreamM.Exchanges uncached (c.program h rounds) () c.request.bytes
        (serve call c.request k).1.bytes (serve call c.request k).1.reply () ∧
      ∀ rwBuffer (v : View K) rest, v.inflow = c.request.bytes ++ rest → v.world = k →
        ∃ rwBuffer', StreamM.run call true (ClientHandler.handleMessage h' rwBuffer) v =
          (.done (some rwBuffer'), ⟨rest, v.outflow ++ (serve call c.request k).1.bytes, true,
            (serve call c.request k).2⟩) := by
  constructor
  · obtain ⟨⟨⟩, hex⟩ := exchanges_locked h (not_quiet_of_asked hc) hq hs
      (serve_answers call c.request k) hleg
    exact (receives_unlocked c).then_exchanges (StreamM.Exchanges.call_bind hex)
  · intro rwBuffer v rest hin hw
    exact run_handleMessage h' hq hs rwBuffer hd true hin hw

end

end Call

/-! ## A callback -/

namespace Operations

variable {K : Type} (call : Kernel K)

/-- The run of a callback on the device. -/
def onDevice {α : Type} : OpM α → K → α × K
  | .ret a, k => (a, k)
  | .fail e, _ => e.elim
  | .act c next, k => onDevice (next (c.answer call k).1) (c.answer call k).2

@[simp] theorem onDevice_ret {α : Type} (a : α) (k : K) : onDevice call (.ret a) k = (a, k) := rfl

@[simp] theorem onDevice_request_bind {α : Type} (c : Call) (next : Reply → OpM α) (k : K) :
    onDevice call (request c >>= next) k =
      onDevice call (next (c.answer call k).1) (c.answer call k).2 := rfl

/-- The methods that a callback calls, one after the other. -/
def methods (h : Host) (rounds : ℕ) {α : Type} : OpM α → ConnM α
  | .ret a => .ret a
  | .fail e => e.elim
  | .act c next => c.program h rounds >>= fun reply => methods h rounds (next reply)

/-- Every request of the run on the device can be sent, is taken off the stream to its end, and its
response can be read. -/
def Carried (rounds : ℕ) {α : Type} : OpM α → K → Prop
  | .ret _, _ => True
  | .fail e, _ => e.elim
  | .act c next, k =>
      (c.denied? = none → c.request.Fits ∧ c.request.Sized ∧ Drains call c.request k ∧
        (serve call c.request k).1.Legible rounds) ∧
      Carried rounds (next (c.answer call k).1) (c.answer call k).2

/-- **The run of a callback on the device is what its methods and the daemon make of it.**  Between
them are the bytes of the requests, and those of the responses. -/
theorem carries_onDevice (h h' : Host) (rounds : ℕ) {α : Type} (p : OpM α) {k : K}
    (hp : Carried call rounds p k) : ∃ requests responses,
      StreamM.Does uncached (methods h rounds p) () responses requests (onDevice call p k).1 () ∧
      ∀ rwBuffer (v : View K) rest, v.inflow = requests ++ rest → v.world = k →
        ∃ n rwBuffer' settled, ClientHandler.Handled call h' n (rwBuffer, v)
          (rwBuffer', ⟨rest, v.outflow ++ responses, settled, (onDevice call p k).2⟩) := by
  induction p generalizing k with
  | ret a =>
    refine ⟨[], [], StreamM.Does.ret _ _, ?_⟩
    rintro rwBuffer ⟨i, o, settled, _⟩ rest rfl rfl
    refine ⟨0, rwBuffer, settled, ?_⟩
    rw [List.append_nil]
    exact .zero _
  | fail e => exact e.elim
  | act c next ih =>
    obtain ⟨hcall, hrest⟩ := hp
    obtain ⟨requests, responses, hdoes, hhandled⟩ := ih _ hrest
    rcases hc : c.denied? with - | reply
    · obtain ⟨hq, hs, hd, hleg⟩ := hcall hc
      obtain ⟨hexchanges, hround⟩ := Call.exchange_of_serve h h' rounds hc hq hs hd hleg
      rw [Call.answer_of_asked hc] at hdoes hhandled
      refine ⟨c.request.bytes ++ requests, (serve call c.request k).1.bytes ++ responses, ?_, ?_⟩
      · rw [onDevice, Call.answer_of_asked hc]
        exact hexchanges.does.bind hdoes
      · intro rwBuffer v rest hin hw
        rw [List.append_assoc] at hin
        obtain ⟨rwBuffer', hrun⟩ := hround rwBuffer v _ hin hw
        obtain ⟨n, rwBuffer'', settled, hlater⟩ := hhandled rwBuffer'
          ⟨requests ++ rest, v.outflow ++ (serve call c.request k).1.bytes, true,
            (serve call c.request k).2⟩ rest rfl rfl
        refine ⟨n + 1, rwBuffer'', settled, .succ hrun ?_⟩
        rw [onDevice, Call.answer_of_asked hc, ← List.append_assoc]
        exact hlater
    · rw [Call.answer_of_denied hc] at hdoes hhandled
      refine ⟨requests, responses, ?_, ?_⟩
      · rw [onDevice, Call.answer_of_denied hc]
        exact (Call.receives_of_denied h rounds hc).does.bind hdoes
      · intro rwBuffer v rest hin hw
        rw [onDevice, Call.answer_of_denied hc]
        exact hhandled rwBuffer v rest hin hw

end Operations

/-! ## The space on the device -/

/-- What `statvfs` tells of the space, with the fields that the daemon does not look at. -/
structure DeviceStatvfs extends PosixStatvfs where
  fFrsize : UInt64
  fBavail : UInt64
  deriving DecidableEq

namespace DeviceStatvfs

variable (vfs : DeviceStatvfs)

/-- The counts are in order, and the space of the device can be told in 64 bits. -/
structure Sound : Prop where
  fBavail_le : vfs.fBavail ≤ vfs.fBfree
  fBfree_le : vfs.fBfree ≤ vfs.fBlocks
  fits : vfs.fBlocks.toNat * vfs.fFrsize.toNat < 2 ^ 64

/-- The numbers are those of the device, in bytes. -/
structure ToldBy (stats : DiskStats) : Prop where
  total : stats.totalBytes.toNat = vfs.fBlocks.toNat * vfs.fFrsize.toNat
  free : stats.freeBytes.toNat = vfs.fBfree.toNat * vfs.fFrsize.toNat
  available : stats.availableBytes.toNat = vfs.fBavail.toNat * vfs.fFrsize.toNat
  available_le_free : stats.availableBytes ≤ stats.freeBytes
  free_le_total : stats.freeBytes ≤ stats.totalBytes

variable {vfs}

theorem Sound.fits_fBfree (h : vfs.Sound) : vfs.fBfree.toNat * vfs.fFrsize.toNat < 2 ^ 64 :=
  lt_of_le_of_lt (Nat.mul_le_mul_right _ (UInt64.le_iff_toNat_le.mp h.fBfree_le)) h.fits

theorem Sound.fits_fBavail (h : vfs.Sound) : vfs.fBavail.toNat * vfs.fFrsize.toNat < 2 ^ 64 :=
  lt_of_le_of_lt (Nat.mul_le_mul_right _ (UInt64.le_iff_toNat_le.mp h.fBavail_le)) h.fits_fBfree

/-- A number of 64 bits is a product that fits if it is that product in 64 bits. -/
theorem toNat_eq_mul_iff {x a b : UInt64} (h : a.toNat * b.toNat < 2 ^ 64) :
    x.toNat = a.toNat * b.toNat ↔ x = a * b := by
  rw [← UInt64.toNat_inj, UInt64.toNat_mul, Nat.mod_eq_of_lt h]

/-- The order of the three numbers is the order of the counts. -/
theorem toldBy_iff (h : vfs.Sound) (stats : DiskStats) :
    vfs.ToldBy stats ↔ stats.totalBytes = vfs.fBlocks * vfs.fFrsize ∧
      stats.freeBytes = vfs.fBfree * vfs.fFrsize ∧
      stats.availableBytes = vfs.fBavail * vfs.fFrsize := by
  constructor
  · intro ht
    exact ⟨(toNat_eq_mul_iff h.fits).mp ht.total, (toNat_eq_mul_iff h.fits_fBfree).mp ht.free,
      (toNat_eq_mul_iff h.fits_fBavail).mp ht.available⟩
  · rintro ⟨htotal, hfree, havail⟩
    have ht := (toNat_eq_mul_iff h.fits).mpr htotal
    have hf := (toNat_eq_mul_iff h.fits_fBfree).mpr hfree
    have ha := (toNat_eq_mul_iff h.fits_fBavail).mpr havail
    refine ⟨ht, hf, ha, ?_, ?_⟩
    · rw [UInt64.le_iff_toNat_le, ha, hf]
      exact Nat.mul_le_mul_right _ (UInt64.le_iff_toNat_le.mp h.fBavail_le)
    · rw [UInt64.le_iff_toNat_le, hf, ht]
      exact Nat.mul_le_mul_right _ (UInt64.le_iff_toNat_le.mp h.fBfree_le)

theorem mul_eq_mul_iff_sub (a b c : UInt64) : a * c = c * b ↔ (a - b) * c = 0 := by
  rw [UInt64.sub_mul, UInt64.mul_comm c b, UInt64.sub_eq_iff_eq_add, UInt64.zero_add]

/-- **What the daemon makes of them**, in 64-bit arithmetic. -/
theorem toldBy_diskStatsOf_iff (h : vfs.Sound) :
    vfs.ToldBy (ClientHandler.diskStatsOf vfs.toPosixStatvfs) ↔
      (vfs.fBsize - vfs.fFrsize) * vfs.fBlocks = 0 ∧ (vfs.fBsize - vfs.fFrsize) * vfs.fBfree = 0 ∧
        vfs.fBsize * vfs.fFavail = vfs.fFrsize * vfs.fBavail := by
  rw [toldBy_iff h, ← mul_eq_mul_iff_sub, ← mul_eq_mul_iff_sub, UInt64.mul_comm vfs.fFrsize]
  rfl

/-- Where the products of the daemon fit into 64 bits too, both sizes and both counts have to be the
same, unless there is nothing to count. -/
theorem toldBy_diskStatsOf_iff_of_fits (h : vfs.Sound)
    (hblocks : vfs.fBsize.toNat * vfs.fBlocks.toNat < 2 ^ 64)
    (hfavail : vfs.fBsize.toNat * vfs.fFavail.toNat < 2 ^ 64) :
    vfs.ToldBy (ClientHandler.diskStatsOf vfs.toPosixStatvfs) ↔
      vfs.fBsize = vfs.fFrsize ∧ (vfs.fFavail = vfs.fBavail ∨ vfs.fFrsize = 0) ∨
        vfs.fBlocks = 0 ∧ (vfs.fFavail = 0 ∨ vfs.fBsize = 0) := by
  have hfree : vfs.fBfree.toNat ≤ vfs.fBlocks.toNat := UInt64.le_iff_toNat_le.mp h.fBfree_le
  have havail : vfs.fBavail.toNat ≤ vfs.fBfree.toNat := UInt64.le_iff_toNat_le.mp h.fBavail_le
  constructor
  · intro ht
    have htotal : vfs.fBsize.toNat * vfs.fBlocks.toNat = vfs.fBlocks.toNat * vfs.fFrsize.toNat :=
      ((toNat_eq_mul_iff hblocks).mpr rfl).symm.trans ht.total
    have hinodes : vfs.fBsize.toNat * vfs.fFavail.toNat =
        vfs.fBavail.toNat * vfs.fFrsize.toNat :=
      ((toNat_eq_mul_iff hfavail).mpr rfl).symm.trans ht.available
    simp only [← UInt64.toNat_inj, UInt64.toNat_zero]
    rcases Nat.eq_zero_or_pos vfs.fBlocks.toNat with hzero | hpos
    · right
      obtain hnone : vfs.fBavail.toNat = 0 := by omega
      rw [hnone, Nat.zero_mul, Nat.mul_eq_zero] at hinodes
      exact ⟨hzero, hinodes.symm⟩
    · left
      rw [Nat.mul_comm] at htotal
      have hsize := Nat.eq_of_mul_eq_mul_left hpos htotal
      rw [hsize, Nat.mul_comm] at hinodes
      exact ⟨hsize, mul_eq_mul_right_iff.mp hinodes⟩
  · rw [toldBy_diskStatsOf_iff h]
    rintro (⟨hsize, hcount⟩ | ⟨hzero, hnone⟩)
    · rw [hsize, UInt64.sub_self]
      refine ⟨UInt64.zero_mul, UInt64.zero_mul, ?_⟩
      rcases hcount with hcount | hcount
      · rw [hcount]
      · rw [hcount, UInt64.zero_mul, UInt64.zero_mul]
    · rw [hzero] at hfree
      rw [UInt64.toNat_zero] at hfree
      have hbfree : vfs.fBfree = 0 := UInt64.toNat_inj.mp (Nat.le_zero.mp hfree)
      have hbavail : vfs.fBavail = 0 := UInt64.toNat_inj.mp (by rw [UInt64.toNat_zero]; omega)
      rw [hzero, hbfree, hbavail, UInt64.mul_zero, UInt64.mul_zero]
      refine ⟨rfl, rfl, ?_⟩
      rcases hnone with hnone | hnone
      · rw [hnone, UInt64.mul_zero]
      · rw [hnone, UInt64.zero_mul]

end DeviceStatvfs

namespace Operations

variable {K : Type} {call : Kernel K} {k : K}

theorem onDevice_getDiskFreeSpace {vfs : PosixStatvfs}
    (hvfs : (call (.statvfs FREE_SPACE_FS_PATH) k).1 = .ok vfs) :
    (onDevice call getDiskFreeSpace k).1 = (.success, .space (ClientHandler.diskStatsOf vfs)) := by
  have hreply : (Call.answer call .getDiskStats k).1 = .disk (ClientHandler.diskStatsOf vfs) := by
    rw [Call.answer_of_asked rfl]
    simp only [Call.request, serve, hvfs, Response.reply]
  rw [getDiskFreeSpace, onDevice_request_bind, hreply]
  rfl

/-- **What Windows is told of the space is the space of the device** exactly if the two sizes agree
on the counts, and the free inodes make up for the free blocks. -/
theorem getDiskFreeSpace_toldBy_iff {vfs : DeviceStatvfs}
    (hvfs : (call (.statvfs FREE_SPACE_FS_PATH) k).1 = .ok vfs.toPosixStatvfs) (h : vfs.Sound) :
    ((∃ stats, (onDevice call getDiskFreeSpace k).1 = (.success, .space stats) ∧
        vfs.ToldBy stats) ↔
      (vfs.fBsize - vfs.fFrsize) * vfs.fBlocks = 0 ∧ (vfs.fBsize - vfs.fFrsize) * vfs.fBfree = 0 ∧
        vfs.fBsize * vfs.fFavail = vfs.fFrsize * vfs.fBavail) ∧
    (vfs.fBsize.toNat * vfs.fBlocks.toNat < 2 ^ 64 →
      vfs.fBsize.toNat * vfs.fFavail.toNat < 2 ^ 64 →
      ((∃ stats, (onDevice call getDiskFreeSpace k).1 = (.success, .space stats) ∧
          vfs.ToldBy stats) ↔
        vfs.fBsize = vfs.fFrsize ∧ (vfs.fFavail = vfs.fBavail ∨ vfs.fFrsize = 0) ∨
          vfs.fBlocks = 0 ∧ (vfs.fFavail = 0 ∨ vfs.fBsize = 0))) := by
  have htold : (∃ stats, (onDevice call getDiskFreeSpace k).1 = (.success, .space stats) ∧
      vfs.ToldBy stats) ↔ vfs.ToldBy (ClientHandler.diskStatsOf vfs.toPosixStatvfs) := by
    rw [onDevice_getDiskFreeSpace hvfs]
    constructor
    · rintro ⟨stats, heq, hstats⟩
      cases heq
      exact hstats
    · intro hstats
      exact ⟨_, rfl, hstats⟩
  rw [htold]
  exact ⟨DeviceStatvfs.toldBy_diskStatsOf_iff h, DeviceStatvfs.toldBy_diskStatsOf_iff_of_fits h⟩

end Operations

/-- A device that has this space, and nothing else. -/
def DeviceStatvfs.kernel (vfs : DeviceStatvfs) : Kernel Unit
  | .statvfs _ => fun k => (.ok vfs.toPosixStatvfs, k)
  | e => Kernel.failing .eacces e

namespace Operations

/-- A thousand blocks of which four hundred are free, with as many inodes left as there are blocks
for everybody. -/
theorem getDiskFreeSpace_toldBy_even : ∃ stats,
    (onDevice (DeviceStatvfs.kernel ⟨⟨4096, 400, 300, 1000⟩, 4096, 300⟩) getDiskFreeSpace ()).1 =
      (.success, .space stats) ∧
    DeviceStatvfs.ToldBy ⟨⟨4096, 400, 300, 1000⟩, 4096, 300⟩ stats :=
  (getDiskFreeSpace_toldBy_iff rfl ⟨by decide, by decide, by decide⟩).1.mpr
    ⟨by decide, by decide, by decide⟩

/-- With five thousand inodes left, more is said to be available than there is. -/
theorem not_toldBy_many_inodes :
    DeviceStatvfs.Sound ⟨⟨4096, 400, 5000, 1000⟩, 4096, 300⟩ ∧
    ∃ stats, (onDevice (DeviceStatvfs.kernel ⟨⟨4096, 400, 5000, 1000⟩, 4096, 300⟩)
        getDiskFreeSpace ()).1 = (.success, .space stats) ∧
      stats.totalBytes < stats.availableBytes ∧
      ¬ DeviceStatvfs.ToldBy ⟨⟨4096, 400, 5000, 1000⟩, 4096, 300⟩ stats := by
  refine ⟨⟨by decide, by decide, by decide⟩, _, rfl, by decide, fun h => ?_⟩
  exact absurd h.available (by decide)

end Operations

end NandroidFS
