import NandroidFS.Mount.DeviceTracker
import NandroidFS.Shared.Text

/-!
# The devices that are listed

`list_authorized_adb_devices`: the output of `adb devices` is cut into lines, and a line is cut at
its first tab into a serial number and a status.  What the scan does with the devices is decided by
this alone, so a line that is missed unmounts a drive, and one that is made up mounts one.

* `mem_handleDeviceLine`: what one line contributes.
* `listLoop_eq`: the loop over the newlines, which comes to its end.
* `mem_listAuthorizedAdbDevices`: the devices are those that a line says are authorized.
-/

namespace NandroidFS

def tab : UInt8 := 9

/-- `List of devices attached`. -/
def DEVICE_LIST_HEADER : ByteString :=
  [76, 105, 115, 116, 32, 111, 102, 32, 100, 101, 118, 105, 99, 101, 115, 32, 97, 116, 116, 97, 99,
    104, 101, 100]

/-- `device`, the status of an authorized device. -/
def AUTHORIZED_STATUS : ByteString := [100, 101, 118, 105, 99, 101]

namespace DeviceTracker

/-- What is done with one line; `devicesSerial` is the set. -/
def handleDeviceLine (devicesSerial : List Serial) (line : ByteString) : List Serial :=
  if line = DEVICE_LIST_HEADER ∨ line = [] then devicesSerial
  else
    match findFrom tab line 0 with
    | none => devicesSerial
    | some tabIdx =>
        let serialNo := substr line 0 tabIdx
        let status := line.drop (tabIdx + 1)
        if status = AUTHORIZED_STATUS then devicesSerial.insert serialNo else devicesSerial

/-- The loop over the newlines, with a bound on its rounds; `none` when it has not ended within
them.  `lineStart` is `prev_newline_pos + 1`, which is `0` at first, since the position starts at
the wrapped value of `-1`. -/
def listLoop (output : ByteString) :
    (rounds lineStart : ℕ) → List Serial → Option (List Serial)
  | 0, _, _ => none
  | rounds + 1, lineStart, devicesSerial =>
      match findFrom newline output lineStart with
      | none => some devicesSerial
      | some nextNewlinePos =>
          let line := substr output lineStart (nextNewlinePos - lineStart)
          listLoop output rounds (nextNewlinePos + 1)
            (handleDeviceLine devicesSerial (popIfLast carriageReturn line))

/-- `list_authorized_adb_devices`, of the output of `adb devices`. -/
def listAuthorizedAdbDevices (output : ByteString) : Option (List Serial) :=
  listLoop output (output.length + 1) 0 []

/-! ## One line -/

/-- The line says that the device is authorized. -/
def Authorizes (line : ByteString) (serial : Serial) : Prop :=
  tab ∉ serial ∧ line = serial ++ tab :: AUTHORIZED_STATUS

variable {line output rest : ByteString} {serial : Serial} {devicesSerial : List Serial}

/-- A line that is cut at its first tab. -/
theorem authorizes_append_cons_iff {serialNo status : ByteString} (htab : tab ∉ serialNo) :
    Authorizes (serialNo ++ tab :: status) serial ↔
      status = AUTHORIZED_STATUS ∧ serial = serialNo := by
  unfold Authorizes
  constructor
  · rintro ⟨hserial, h⟩
    obtain ⟨heq, -, hstatus⟩ :=
      (List.append_cons_inj_of_notMem hserial (by decide : tab ∉ AUTHORIZED_STATUS)).mp h.symm
    exact ⟨hstatus.symm, heq⟩
  · rintro ⟨rfl, rfl⟩
    exact ⟨htab, rfl⟩

theorem Authorizes.tab_mem (h : Authorizes line serial) : tab ∈ line := by
  rw [h.2]
  simp

/-- A line without a tab: the header, an empty line, or what `adb` says when it starts. -/
theorem handleDeviceLine_of_notMem (h : tab ∉ line) :
    handleDeviceLine devicesSerial line = devicesSerial := by
  unfold handleDeviceLine
  split
  · rfl
  · rw [findFrom_of_notMem h]

/-- A line with a tab is neither the header nor empty. -/
theorem handleDeviceLine_append_cons {serialNo status : ByteString} (htab : tab ∉ serialNo) :
    handleDeviceLine devicesSerial (serialNo ++ tab :: status) =
      if status = AUTHORIZED_STATUS then devicesSerial.insert serialNo else devicesSerial := by
  have hmem : tab ∈ serialNo ++ tab :: status := by simp
  have hskip : ¬(serialNo ++ tab :: status = DEVICE_LIST_HEADER ∨
      serialNo ++ tab :: status = []) := by
    rintro (h | h)
    · rw [h] at hmem
      exact absurd hmem (by decide)
    · rw [h] at hmem
      cases hmem
  have hserial : substr (serialNo ++ tab :: status) 0 (0 + serialNo.length) = serialNo := by
    simp [substr]
  have hstatus : (serialNo ++ tab :: status).drop (0 + serialNo.length + 1) = status := by
    simp
  unfold handleDeviceLine
  rw [if_neg hskip, findFrom_of_drop htab List.drop_zero]
  simp only [hserial, hstatus]

/-- **What one line contributes.** -/
theorem mem_handleDeviceLine :
    serial ∈ handleDeviceLine devicesSerial line ↔
      serial ∈ devicesSerial ∨ Authorizes line serial := by
  by_cases htab : tab ∈ line
  · obtain ⟨serialNo, status, rfl, hserialNo⟩ := List.eq_append_cons_of_mem htab
    rw [handleDeviceLine_append_cons hserialNo, authorizes_append_cons_iff hserialNo]
    split
    · next hstatus => rw [List.mem_insert_iff, or_comm, and_iff_right hstatus]
    · next hstatus => rw [or_iff_left fun h => hstatus h.1]
  · rw [handleDeviceLine_of_notMem htab, or_iff_left fun h => htab h.tab_mem]

theorem nodup_handleDeviceLine (h : devicesSerial.Nodup) :
    (handleDeviceLine devicesSerial line).Nodup := by
  by_cases htab : tab ∈ line
  · obtain ⟨serialNo, status, rfl, hserialNo⟩ := List.eq_append_cons_of_mem htab
    rw [handleDeviceLine_append_cons hserialNo]
    split
    · exact h.insert
    · exact h
  · rwa [handleDeviceLine_of_notMem htab]

/-! ## All lines -/

/-- What is done with the text of a line, as it stands before the newline. -/
def handleEndedLine (devicesSerial : List Serial) (line : ByteString) : List Serial :=
  handleDeviceLine devicesSerial (popIfLast carriageReturn line)

/-- **The loop**, from a position where lines and an unfinished line are left.  It ends if it has
more rounds than there are lines. -/
theorem listLoop_eq (hrest : newline ∉ rest) {lines : List ByteString}
    (hlines : ∀ line ∈ lines, newline ∉ line) {rounds : ℕ} (hr : lines.length < rounds)
    {lineStart : ℕ} (houtput : output.drop lineStart = Lines.join newline lines rest)
    (devicesSerial : List Serial) :
    listLoop output rounds lineStart devicesSerial =
      some (lines.foldl handleEndedLine devicesSerial) := by
  induction lines generalizing rounds lineStart devicesSerial with
  | nil =>
    obtain ⟨rounds, rfl⟩ := Nat.exists_eq_add_of_lt hr
    have hnone : newline ∉ output.drop lineStart := by
      rw [houtput]
      exact hrest
    rw [listLoop, findFrom_of_notMem hnone]
    rfl
  | cons line lines ih =>
    obtain ⟨hline, hlines⟩ := List.forall_mem_cons.mp hlines
    cases rounds with
    | zero => cases hr
    | succ rounds =>
      have hjoin := houtput
      rw [Lines.join_cons] at hjoin
      have htext : substr output lineStart (lineStart + line.length - lineStart) = line := by
        rw [substr, hjoin, Nat.add_sub_cancel_left, List.take_left]
      rw [listLoop, findFrom_of_drop hline hjoin]
      simp only [htext]
      exact ih hlines (Nat.lt_of_succ_lt_succ hr) (drop_of_drop_eq_join houtput) _

theorem listAuthorizedAdbDevices_eq (output : ByteString) :
    listAuthorizedAdbDevices output =
      some ((Lines.ended newline output).foldl handleEndedLine []) := by
  have hrounds : (Lines.ended newline output).length < output.length + 1 :=
    Nat.lt_succ_of_le (Lines.length_ended_le output)
  have hdrop : output.drop 0 = Lines.join newline (Lines.ended newline output)
      (Lines.unfinished newline output) := (Lines.join_ended output).symm
  exact listLoop_eq (Lines.notMem_unfinished output)
    (fun _ hline => Lines.notMem_of_mem_ended hline) hrounds hdrop []

theorem mem_foldl_handleEndedLine (lines : List ByteString) :
    serial ∈ lines.foldl handleEndedLine devicesSerial ↔
      serial ∈ devicesSerial ∨
        ∃ line ∈ lines, Authorizes (popIfLast carriageReturn line) serial := by
  induction lines generalizing devicesSerial with
  | nil => simp
  | cons line lines ih =>
    rw [List.foldl_cons, ih, handleEndedLine, mem_handleDeviceLine, or_assoc]
    simp only [List.mem_cons, exists_eq_or_imp]

theorem nodup_foldl_handleEndedLine (lines : List ByteString) (h : devicesSerial.Nodup) :
    (lines.foldl handleEndedLine devicesSerial).Nodup := by
  induction lines generalizing devicesSerial with
  | nil => exact h
  | cons line lines ih => exact ih (nodup_handleDeviceLine h)

/-- **The devices are those that a line says are authorized.**  Of every output the loop comes to
its end, and its result has a serial number exactly if it has no tab and one of the lines that are
ended by a newline is, without the carriage return it may have at its end, the serial number, a tab
and `device`. -/
theorem mem_listAuthorizedAdbDevices (output : ByteString) :
    ∃ devicesSerial, listAuthorizedAdbDevices output = some devicesSerial ∧
      devicesSerial.Nodup ∧
      ∀ serial, serial ∈ devicesSerial ↔ tab ∉ serial ∧ ∃ line ∈ Lines.ended newline output,
        popIfLast carriageReturn line = serial ++ tab :: AUTHORIZED_STATUS := by
  refine ⟨_, listAuthorizedAdbDevices_eq output, nodup_foldl_handleEndedLine _ List.nodup_nil,
    fun serial => ?_⟩
  rw [mem_foldl_handleEndedLine, or_iff_right List.not_mem_nil]
  constructor
  · rintro ⟨line, hline, htab, heq⟩
    exact ⟨htab, line, hline, heq⟩
  · rintro ⟨htab, line, hline, heq⟩
    exact ⟨line, hline, htab, heq⟩

/-- `A` is authorized, `B` is not, and the line of `C` has no end yet. -/
example : listAuthorizedAdbDevices
    ([65, tab] ++ AUTHORIZED_STATUS ++ [carriageReturn, newline, 66, tab, 111, newline, 67, tab] ++
      AUTHORIZED_STATUS) = some [[65]] := by decide

end DeviceTracker

end NandroidFS
