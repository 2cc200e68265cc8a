import NandroidFS.Dokan.OnDevice
import NandroidFS.Files.Refinement

/-!
# The times of a file

Windows counts hundreds of nanoseconds from the beginning of 1601, in two halves of 32 bits; the
device counts seconds from the beginning of 1970, with a sign.  A time on its way to the device is
divided, moved to the other epoch, cut off at 1970, and passed on through numbers with and without a
sign; `-1` stands for a time that is not to be set.  On its way back it is moved and multiplied.

`ticks` is the number that a `FILETIME` stands for.  `setFileTime_reported` is the way there and
back: what has been set is reported up to the second, and nothing but a missing time is ever left
out.  Of a name that ends with `desktop.ini` nothing is ever reported, although its times are set.
-/

namespace NandroidFS

open Connection

/-! ## The conversions -/

structure FileTime where
  dwLowDateTime : UInt32
  dwHighDateTime : UInt32
  deriving DecidableEq

/-- The seconds between the two epochs. -/
def EPOCH_DIFFERENCE : UInt64 := 11644473600

def filetimeFromUnixTime (unixTime : UInt64) : FileTime :=
  let sinceWindowsEpoch := unixTime + EPOCH_DIFFERENCE
  let winEpochValidRes := 10000000 * sinceWindowsEpoch
  { dwLowDateTime := winEpochValidRes.toUInt32
    dwHighDateTime := (winEpochValidRes >>> 32).toUInt32 }

/-- The difference is taken without a sign, since the constant has none, and then given one. -/
def unixTimeFromFiletime (fileTime : FileTime) : UInt64 :=
  let fileTimeU64 := fileTime.dwHighDateTime.toUInt64 <<< 32 ||| fileTime.dwLowDateTime.toUInt64
  let fileTimeU64 := fileTimeU64 / 10000000
  let signedFileTime := (fileTimeU64 - EPOCH_DIFFERENCE).toInt64
  (max signedFileTime 0).toUInt64

/-- `none` is the null pointer. -/
def signedTimeFromPtr : Option FileTime → Int64
  | some fileTime =>
      if fileTime.dwHighDateTime = 0 ∧ fileTime.dwLowDateTime = 0 then -1
      else (unixTimeFromFiletime fileTime).toInt64
  | none => -1

namespace FileTime

/-- The hundreds of nanoseconds since 1601. -/
def ticks (f : FileTime) : ℕ :=
  f.dwHighDateTime.toNat * 2 ^ 32 + f.dwLowDateTime.toNat

/-- The beginning of 1970. -/
def unixEpoch : ℕ := 11644473600 * 10000000

theorem ticks_lt (f : FileTime) : f.ticks < 2 ^ 64 := by
  have hhigh := f.dwHighDateTime.toNat_lt
  have hlow := f.dwLowDateTime.toNat_lt
  rw [ticks]
  omega

theorem ticks_eq_zero_iff (f : FileTime) :
    f.ticks = 0 ↔ f.dwHighDateTime = 0 ∧ f.dwLowDateTime = 0 := by
  rw [ticks, ← UInt32.toNat_inj, ← UInt32.toNat_inj, UInt32.toNat_zero]
  omega

/-- The two halves, put together. -/
theorem toNat_halves (f : FileTime) :
    (f.dwHighDateTime.toUInt64 <<< 32 ||| f.dwLowDateTime.toUInt64).toNat = f.ticks := by
  have hhigh := f.dwHighDateTime.toNat_lt
  have hshift : (f.dwHighDateTime.toUInt64 <<< 32).toNat = f.dwHighDateTime.toNat <<< 32 := by
    rw [UInt64.toNat_shiftLeft, UInt32.toNat_toUInt64]
    show f.dwHighDateTime.toNat <<< 32 % 2 ^ 64 = _
    rw [Nat.shiftLeft_eq, Nat.mod_eq_of_lt]
    omega
  rw [UInt64.toNat_or, hshift, UInt32.toNat_toUInt64,
    ← Nat.shiftLeft_add_eq_or_of_lt f.dwLowDateTime.toNat_lt, Nat.shiftLeft_eq, ticks]

/-- A number taken apart into two halves. -/
theorem ticks_of_halves (v : UInt64) : ticks ⟨v.toUInt32, (v >>> 32).toUInt32⟩ = v.toNat := by
  have hv := v.toNat_lt
  have hshift : (v >>> 32).toNat = v.toNat / 2 ^ 32 := by
    rw [UInt64.toNat_shiftRight]
    show v.toNat >>> 32 = _
    rw [Nat.shiftRight_eq_div_pow]
  rw [ticks, UInt64.toNat_toUInt32, UInt64.toNat_toUInt32, hshift]
  omega

end FileTime

open FileTime

theorem toInt_eq_bmod (t : Int64) : t.toInt = (t.toUInt64.toNat : ℤ).bmod (2 ^ 64) := by
  show BitVec.toInt t.toUInt64.toBitVec = _
  rw [BitVec.toInt_eq_toNat_bmod]
  rfl

/-! ## From the device to Windows -/

/-- **The time that Windows is told**, where it can be told. -/
theorem ticks_filetimeFromUnixTime {t : Int64} (hlow : -11644473600 ≤ t.toInt)
    (hhigh : t.toInt ≤ 1833029933770) :
    ((filetimeFromUnixTime t.toUInt64).ticks : ℤ) = (t.toInt + 11644473600) * 10000000 := by
  have hsum : (t.toUInt64 + EPOCH_DIFFERENCE).toNat = (t.toInt + 11644473600).toNat := by
    have hint := toInt_eq_bmod t
    have ht := t.toUInt64.toNat_lt
    rw [UInt64.toNat_add]
    show (t.toUInt64.toNat + 11644473600) % 2 ^ 64 = _
    rw [Int.bmod_def] at hint
    omega
  rw [filetimeFromUnixTime, ticks_of_halves, UInt64.toNat_mul, hsum]
  show ((10000000 * (t.toInt + 11644473600).toNat % 2 ^ 64 : ℕ) : ℤ) = _
  rw [Nat.mod_eq_of_lt (by omega)]
  omega

/-! ## From Windows to the device -/

/-- The seconds since 1970, or none if the time is before. -/
theorem toNat_unixTimeFromFiletime (f : FileTime) :
    (unixTimeFromFiletime f).toNat = f.ticks / 10000000 - 11644473600 := by
  have hf := f.ticks_lt
  set seconds := (f.dwHighDateTime.toUInt64 <<< 32 ||| f.dwLowDateTime.toUInt64) / 10000000
    with hseconds
  have hquot : seconds.toNat = f.ticks / 10000000 := by
    rw [hseconds, UInt64.toNat_div, toNat_halves]
    rfl
  -- The difference is right up to the sign, which it gets back.
  have hdiff : (seconds - EPOCH_DIFFERENCE).toNat =
      (2 ^ 64 - 11644473600 + f.ticks / 10000000) % 2 ^ 64 := by
    rw [UInt64.toNat_sub, hquot]
    rfl
  have hsigned : (seconds - EPOCH_DIFFERENCE).toInt64.toInt =
      (f.ticks / 10000000 : ℕ) - 11644473600 := by
    have hbmod : (seconds - EPOCH_DIFFERENCE).toInt64.toInt =
        ((seconds - EPOCH_DIFFERENCE).toNat : ℤ).bmod (2 ^ 64) := toInt_eq_bmod _
    rw [hbmod, hdiff, Int.bmod_def]
    omega
  have hmax : unixTimeFromFiletime f =
      (if (seconds - EPOCH_DIFFERENCE).toInt64 ≤ 0 then 0
        else (seconds - EPOCH_DIFFERENCE).toInt64).toUInt64 := rfl
  have hzero : (seconds - EPOCH_DIFFERENCE).toInt64 ≤ 0 ↔ f.ticks / 10000000 ≤ 11644473600 := by
    rw [Int64.le_iff_toInt_le, hsigned, Int64.toInt_zero]
    omega
  rw [hmax]
  by_cases hearly : f.ticks / 10000000 ≤ 11644473600
  · rw [if_pos (hzero.mpr hearly), Nat.sub_eq_zero_of_le hearly]
    rfl
  · rw [if_neg (mt hzero.mp hearly)]
    show (seconds - EPOCH_DIFFERENCE).toNat = _
    rw [hdiff]
    omega

/-- A time that is set is a number of seconds that is not negative; so it is not the marker. -/
theorem toInt_signedTimeFromPtr {f : FileTime} (hf : f.ticks ≠ 0) :
    (signedTimeFromPtr (some f)).toInt = (f.ticks / 10000000 - 11644473600 : ℕ) := by
  have hlt := f.ticks_lt
  have htime := toNat_unixTimeFromFiletime f
  rw [signedTimeFromPtr, if_neg (mt (ticks_eq_zero_iff f).mpr hf), toInt_toInt64_of_lt (by omega),
    htime]

/-- What the pointer asks for: a time, unless it is null or the time is zero. -/
def requested : Option FileTime → Option FileTime
  | some f => if f.ticks = 0 then none else some f
  | none => none

/-- **What reaches `utimensat`.** -/
def timespecOf (f : Option FileTime) : Timespec :=
  match requested f with
  | none => .omit
  | some f => .seconds (Int64.ofNat (f.ticks / 10000000 - 11644473600))

theorem signedTimeFromPtr_of_requested_none {f : Option FileTime} (h : requested f = none) :
    signedTimeFromPtr f = -1 := by
  rcases f with - | f
  · rfl
  · rw [requested] at h
    split at h
    · next hzero => rw [signedTimeFromPtr, if_pos ((ticks_eq_zero_iff f).mp hzero)]
    · cases h

theorem getTimspecFromTimestamp_signedTimeFromPtr (f : Option FileTime) :
    ClientHandler.getTimspecFromTimestamp (signedTimeFromPtr f) = timespecOf f := by
  rcases hreq : requested f with - | g
  · rw [signedTimeFromPtr_of_requested_none hreq, timespecOf, hreq]
    rfl
  · obtain ⟨rfl, hg⟩ : f = some g ∧ g.ticks ≠ 0 := by
      rcases f with - | f
      · cases hreq
      · rw [requested] at hreq
        split at hreq
        · cases hreq
        · next hne => exact ⟨hreq, Option.some.inj hreq ▸ hne⟩
    have hlt := g.ticks_lt
    have htime := toInt_signedTimeFromPtr hg
    have hne : signedTimeFromPtr (some g) ≠ -1 := by
      intro heq
      rw [heq] at htime
      have hminus : (-1 : Int64).toInt = -1 := rfl
      omega
    have hofNat : signedTimeFromPtr (some g) =
        Int64.ofNat (g.ticks / 10000000 - 11644473600) := by
      rw [← Int64.toInt_inj, htime, Int64.toInt_ofNat_of_lt]
      omega
    rw [ClientHandler.getTimspecFromTimestamp, if_neg hne, timespecOf, hreq, hofNat]

/-! ## The callbacks -/

namespace Operations

/-- `set_file_time`, with the pointers that it is given.  The creation time is not supported. -/
def setFileTimePtr (fileName : WString) (_creationTime lastAccessTime lastWriteTime :
    Option FileTime) : OpM NtStatus :=
  setFileTime fileName (signedTimeFromPtr lastAccessTime).toUInt64
    (signedTimeFromPtr lastWriteTime).toUInt64

/-- The times that `get_file_information` fills in: of the last access, and of the last write. -/
def Output.fileTimes : Output → Option (FileTime × FileTime)
  | .information stat =>
      some (filetimeFromUnixTime stat.accessTime, filetimeFromUnixTime stat.writeTime)
  | _ => Option.none

variable {K : Type} (call : Kernel K) (fileName : WString) (k : K)

/-- What `set_file_time` does on the device. -/
theorem onDevice_setFileTimePtr (creation access write : Option FileTime) :
    onDevice call (setFileTimePtr fileName creation access write) k =
      (ntstatusFromRespstatus (statusOf (call (.utimensat (cStr (win32PathToUnix fileName))
          (timespecOf access) (timespecOf write)) k).1),
        (call (.utimensat (cStr (win32PathToUnix fileName)) (timespecOf access)
          (timespecOf write)) k).2) := by
  rw [← getTimspecFromTimestamp_signedTimeFromPtr access,
    ← getTimspecFromTimestamp_signedTimeFromPtr write]
  rfl

/-- What `get_file_information` tells of a file that the daemon finds. -/
theorem onDevice_getFileInformation (hname : ¬desktopIni <:+ win32PathToUnix fileName)
    {st : PosixStat} (hst : (call (.stat (cStr (win32PathToUnix fileName))) k).1 = .ok st)
    (info : FileInfo) :
    (onDevice call (getFileInformation fileName info) k).1.1 = .success ∧
      (onDevice call (getFileInformation fileName info) k).1.2.1.fileTimes =
        some (filetimeFromUnixTime st.stAtime.toUInt64,
          filetimeFromUnixTime st.stMtime.toUInt64) := by
  have hreply : ((Call.statFile fileName).answer call k).1 =
      .stat (ClientHandler.fileStatOf st) := by
    rw [Call.answer_statFile_of_not_suffix hname]
    simp only [Call.request, serve, statPath, hst, Response.reply]
  rw [getFileInformation, onDevice_request_bind, hreply]
  simp only
  split
  · exact ⟨rfl, rfl⟩
  · exact ⟨rfl, rfl⟩

/-- What it tells of a name that is denied. -/
theorem onDevice_getFileInformation_of_suffix (hname : desktopIni <:+ win32PathToUnix fileName)
    (info : FileInfo) : onDevice call (getFileInformation fileName info) k =
      ((.objectNameNotFound, .none, info), k) := by
  rw [getFileInformation, onDevice_request_bind, Call.answer_statFile_of_suffix hname]
  rfl

end Operations

/-! ## There and back -/

/-- The time after `utimensat`. -/
def Timespec.applied : Timespec → Int64 → Int64
  | .omit, old => old
  | .seconds t, _ => t

/-- **The times of files on a POSIX kernel**, in whole seconds: of the last access and of the last
write. -/
structure PosixTimes {K : Type} (call : Kernel K) where
  times : K → ByteString → Option (Int64 × Int64)
  utimensat_ok : ∀ k path access modification,
    (call (.utimensat path access modification) k).1 = .ok () →
    ∃ old, times k path = some old ∧
      times (call (.utimensat path access modification) k).2 path =
        some (access.applied old.1, modification.applied old.2)
  stat_ok : ∀ k path st, (call (.stat path) k).1 = .ok st →
    times k path = some (st.stAtime, st.stMtime)

/-- **What is reported of a time** after it has been asked for: it is the time before if nothing was
asked for, else what was asked for, up to the second and not before 1970. -/
def Reports (asked : Option FileTime) (old new : Int64) (told : FileTime) : Prop :=
  match requested asked with
  | none => new = old
  | some f => told.ticks =
      if unixEpoch ≤ f.ticks then f.ticks / 10000000 * 10000000 else unixEpoch

theorem reports_applied (asked : Option FileTime) (old : Int64) :
    Reports asked old ((timespecOf asked).applied old)
      (filetimeFromUnixTime ((timespecOf asked).applied old).toUInt64) := by
  rcases hreq : requested asked with - | f
  · simp only [Reports, timespecOf, hreq]
    rfl
  · have hlt := f.ticks_lt
    simp only [Reports, timespecOf, hreq, Timespec.applied]
    have hint : (Int64.ofNat (f.ticks / 10000000 - 11644473600)).toInt =
        (f.ticks / 10000000 - 11644473600 : ℕ) := Int64.toInt_ofNat_of_lt (by omega)
    have hticks := ticks_filetimeFromUnixTime
      (t := Int64.ofNat (f.ticks / 10000000 - 11644473600)) (by omega) (by omega)
    rw [hint] at hticks
    rw [unixEpoch]
    split <;> omega

section

variable {K : Type} {call : Kernel K} (px : PosixTimes call) {fileName : WString}
  {creation access write : Option FileTime} {k : K}

theorem timespecOf_eq_omit_iff (asked : Option FileTime) :
    timespecOf asked = .omit ↔ asked = none ∨ ∃ f, asked = some f ∧ f.ticks = 0 := by
  rcases asked with - | f
  · exact iff_of_true rfl (.inl rfl)
  · by_cases hf : f.ticks = 0
    · have hreq : requested (some f) = none := if_pos hf
      rw [timespecOf, hreq]
      exact iff_of_true rfl (.inr ⟨f, rfl, hf⟩)
    · have hreq : requested (some f) = some f := if_neg hf
      rw [timespecOf, hreq]
      refine iff_of_false (fun h => by cases h) ?_
      rintro (h | ⟨g, hg, hzero⟩)
      · cases h
      · exact hf (Option.some.inj hg ▸ hzero)

theorem utimensat_of_success (hok : (Operations.onDevice call
      (Operations.setFileTimePtr fileName creation access write) k).1 = .success) :
    (call (.utimensat (cStr (win32PathToUnix fileName)) (timespecOf access)
      (timespecOf write)) k).1 = .ok () := by
  rw [Operations.onDevice_setFileTimePtr] at hok
  rcases hcall : (call (.utimensat (cStr (win32PathToUnix fileName)) (timespecOf access)
    (timespecOf write)) k).1 with e | ⟨⟩
  · rw [hcall] at hok
    cases e <;> cases hok
  · rfl

include px in
/-- The times that the device has after they were set. -/
theorem times_of_success (hok : (Operations.onDevice call
      (Operations.setFileTimePtr fileName creation access write) k).1 = .success) {st : PosixStat}
    (hst : (call (.stat (cStr (win32PathToUnix fileName))) (Operations.onDevice call
      (Operations.setFileTimePtr fileName creation access write) k).2).1 = .ok st) :
    ∃ old, px.times k (cStr (win32PathToUnix fileName)) = some old ∧
      st.stAtime = (timespecOf access).applied old.1 ∧
      st.stMtime = (timespecOf write).applied old.2 := by
  obtain ⟨old, hold, hnew⟩ := px.utimensat_ok k _ _ _ (utimensat_of_success hok)
  have hstate : (Operations.onDevice call
      (Operations.setFileTimePtr fileName creation access write) k).2 =
      (call (.utimensat (cStr (win32PathToUnix fileName)) (timespecOf access)
        (timespecOf write)) k).2 :=
    congrArg Prod.snd (Operations.onDevice_setFileTimePtr call fileName k creation access write)
  rw [hstate] at hst
  rw [px.stat_ok _ _ st hst] at hnew
  exact ⟨old, hold, Prod.mk.inj (Option.some.inj hnew)⟩

end

/-- **The times of a file, there and back.**

* A time that is missing or zero reaches `utimensat` as `UTIME_OMIT`, and no other does; the times
  come in their order.
* After `set_file_time` has succeeded, what `get_file_information` finds on the device is what was
  asked for, up to the second and not before 1970, and what was not asked for is as before.
* Every time of the device that can be told is told exactly.
* All this is said of the names that do not end with `desktop.ini`.  Of the others no time is told,
  since `get_file_information` does not find them. -/
theorem setFileTime_reported {K : Type} {call : Kernel K} (px : PosixTimes call)
    (fileName : WString) (creation access write : Option FileTime) (k : K) :
    (Operations.onDevice call (Operations.setFileTimePtr fileName creation access write) k =
        (ntstatusFromRespstatus (statusOf (call (.utimensat (cStr (win32PathToUnix fileName))
            (timespecOf access) (timespecOf write)) k).1),
          (call (.utimensat (cStr (win32PathToUnix fileName)) (timespecOf access)
            (timespecOf write)) k).2) ∧
      ∀ asked, timespecOf asked = .omit ↔ asked = none ∨ ∃ f, asked = some f ∧ f.ticks = 0) ∧
    (¬desktopIni <:+ win32PathToUnix fileName →
      ((Operations.onDevice call
            (Operations.setFileTimePtr fileName creation access write) k).1 = .success →
        ∀ info st, (call (.stat (cStr (win32PathToUnix fileName))) (Operations.onDevice call
            (Operations.setFileTimePtr fileName creation access write) k).2).1 = .ok st →
        ∃ old toldAccess toldWrite,
          px.times k (cStr (win32PathToUnix fileName)) = some old ∧
          (Operations.onDevice call (Operations.getFileInformation fileName info)
            (Operations.onDevice call (Operations.setFileTimePtr fileName creation access write)
              k).2).1.2.1.fileTimes = some (toldAccess, toldWrite) ∧
          Reports access old.1 st.stAtime toldAccess ∧ Reports write old.2 st.stMtime toldWrite) ∧
      ∀ info st, (call (.stat (cStr (win32PathToUnix fileName))) k).1 = .ok st →
        ∃ toldAccess toldWrite,
          (Operations.onDevice call (Operations.getFileInformation fileName info) k).1.2.1.fileTimes
            = some (toldAccess, toldWrite) ∧
          (-11644473600 ≤ st.stAtime.toInt → st.stAtime.toInt ≤ 1833029933770 →
            (toldAccess.ticks : ℤ) = (st.stAtime.toInt + 11644473600) * 10000000) ∧
          (-11644473600 ≤ st.stMtime.toInt → st.stMtime.toInt ≤ 1833029933770 →
            (toldWrite.ticks : ℤ) = (st.stMtime.toInt + 11644473600) * 10000000)) ∧
    (desktopIni <:+ win32PathToUnix fileName → ∀ info k',
      Operations.onDevice call (Operations.getFileInformation fileName info) k' =
        ((.objectNameNotFound, .none, info), k')) := by
  refine ⟨⟨Operations.onDevice_setFileTimePtr call fileName k creation access write,
    timespecOf_eq_omit_iff⟩, fun hname => ⟨?_, ?_⟩, fun hname info k' =>
    Operations.onDevice_getFileInformation_of_suffix call fileName k' hname info⟩
  · intro hok info st hst
    obtain ⟨old, hold, hatime, hmtime⟩ := times_of_success px hok hst
    refine ⟨old, _, _, hold,
      (Operations.onDevice_getFileInformation call fileName _ hname hst info).2, ?_, ?_⟩
    · rw [hatime]
      exact reports_applied access old.1
    · rw [hmtime]
      exact reports_applied write old.2
  · intro info st hst
    exact ⟨_, _, (Operations.onDevice_getFileInformation call fileName _ hname hst info).2,
      ticks_filetimeFromUnixTime, ticks_filetimeFromUnixTime⟩

/-! ## A device with one file -/

/-- A device on which every path is the same file, of which the state has the times. -/
def Kernel.timedFile : Kernel (Int64 × Int64)
  | .utimensat _ access modification => fun k =>
      (.ok (), (access.applied k.1, modification.applied k.2))
  | .stat _ => fun k => (.ok ⟨0x81A4, 0, k.1, k.2⟩, k)
  | e => fun k => ((Kernel.failing .eacces e ()).1, k)

/-- What is assumed of a kernel holds of the device. -/
def PosixTimes.timedFile : PosixTimes Kernel.timedFile where
  times k _ := some k
  utimensat_ok k _ _ _ _ := ⟨k, rfl, rfl⟩
  stat_ok k _ st hst := by
    cases hst
    rfl

/-- The first half second of the year 2000. -/
def newYear : FileTime := ⟨632916800, 29316075⟩

/-- The file was written at the new year, and last read before it. -/
theorem setFileTime_reported_newYear : ∃ old toldAccess toldWrite,
    (Operations.onDevice Kernel.timedFile (Operations.getFileInformation [92, 97] ⟨false, false,
        ⟨NO_HANDLE, true, true⟩⟩)
      (Operations.onDevice Kernel.timedFile
        (Operations.setFileTimePtr [92, 97] none none (some newYear)) (7, 8)).2).1.2.1.fileTimes =
      some (toldAccess, toldWrite) ∧
    Reports none old 7 toldAccess ∧ toldWrite.ticks = 125911584000000000 := by
  obtain ⟨⟨-, -⟩, hset, -⟩ :=
    setFileTime_reported PosixTimes.timedFile [92, 97] none none (some newYear) (7, 8)
  obtain ⟨old, toldAccess, toldWrite, -, htold, haccess, hwrite⟩ :=
    (hset (by decide)).1 rfl ⟨false, false, ⟨NO_HANDLE, true, true⟩⟩ _ rfl
  have hreq : requested (some newYear) = some newYear := by decide
  have hticks : newYear.ticks = 125911584005000000 := by decide
  rw [Reports, hreq] at hwrite
  simp only [hticks, unixEpoch] at hwrite
  refine ⟨old.1, toldAccess, toldWrite, htold, haccess, ?_⟩
  rw [hwrite]
  decide

/-- `\desktop.ini`. -/
def theDesktopIni : WString :=
  [92, 100, 101, 115, 107, 116, 111, 112, 46, 105, 110, 105]

/-- The new year is set as the time of `desktop.ini`, the device has it, and Windows is not told of
it. -/
theorem not_reported_desktopIni :
    Operations.onDevice Kernel.timedFile
        (Operations.setFileTimePtr theDesktopIni none none (some newYear)) (7, 8) =
      (.success, (7, 946684800)) ∧
    (Kernel.timedFile (.stat (cStr (win32PathToUnix theDesktopIni))) (7, 946684800)).1 =
      .ok ⟨0x81A4, 0, 7, 946684800⟩ ∧
    ∀ info, ¬∃ told, (Operations.onDevice Kernel.timedFile
      (Operations.getFileInformation theDesktopIni info) (7, 946684800)).1.2.1.fileTimes =
        some told := by
  refine ⟨by decide, rfl, ?_⟩
  rintro info ⟨told, htold⟩
  rw [Operations.onDevice_getFileInformation_of_suffix _ _ _ (by decide)] at htold
  cases htold

end NandroidFS
