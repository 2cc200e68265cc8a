import Mathlib.Data.List.TakeWhile
import NandroidFS.Client.Conversion

/-!
# The names of a listing

A listing hands names to Windows, Windows puts them behind the path of the directory and comes back
with the whole.  Two changes of the character set and two replacements of separators lie between the
name that the daemon sent and the one that it is asked for.

The first part of this file is about the character sets: what one reads, the other has written
(`utf8Encode_of_utf8DecodeRounds`, `utf16Decode_utf16Encode`).  The second is about the separators,
which do not come back: a backslash is a letter like any other in a name on Android, and
`win32_path_to_unix` makes a slash of it (`keptApart_iff`).
-/

namespace NandroidFS

/-! ## Character sets -/

theorem toNat_charOfNat {n : ℕ} (h : n.isValidChar) : (Char.ofNat n).toNat = n := by
  rw [Char.ofNat, dif_pos h]
  rfl

/-- The bytes of a character that can stand alone. -/
theorem utf8EncodeChar_of_lt {c : Char} (h : c.toNat < 0x80) :
    String.utf8EncodeChar c = [UInt8.ofNat c.toNat] := by
  rw [String.utf8EncodeChar]
  exact if_pos (Nat.le_of_lt_succ h)

/-- A byte that can stand alone does. -/
theorem utf8EncodeChar_of_mem {c : Char} {b : UInt8} (hmem : b ∈ String.utf8EncodeChar c)
    (hb : b < 0x80) : c.toNat = b.toNat := by
  rw [UInt8.lt_iff_toNat_lt] at hb
  have hb : b.toNat < 128 := hb
  have hv : c.val.toNat = c.toNat := rfl
  simp only [String.utf8EncodeChar, hv] at hmem
  split at hmem
  · rw [List.mem_singleton] at hmem
    rw [hmem, UInt8.toNat_ofNat']
    omega
  · -- every byte of a longer sequence has its first bit set
    exfalso
    split at hmem
    · simp only [List.mem_cons, List.not_mem_nil, or_false] at hmem
      rcases hmem with rfl | rfl <;> rw [UInt8.toNat_ofNat'] at hb <;> omega
    · split at hmem
      · simp only [List.mem_cons, List.not_mem_nil, or_false] at hmem
        rcases hmem with rfl | rfl | rfl <;> rw [UInt8.toNat_ofNat'] at hb <;> omega
      · simp only [List.mem_cons, List.not_mem_nil, or_false] at hmem
        rcases hmem with rfl | rfl | rfl | rfl <;> rw [UInt8.toNat_ofNat'] at hb <;> omega

theorem continuation?_eq_some {b : UInt8} {n : ℕ} (h : continuation? b = some n) :
    b = UInt8.ofNat (n + 0x80) ∧ n < 64 := by
  rw [continuation?] at h
  split at h
  · next hb =>
    rw [Bool.and_eq_true, decide_eq_true_iff, decide_eq_true_iff, UInt8.le_iff_toNat_le,
      UInt8.lt_iff_toNat_lt] at hb
    have hb : 128 ≤ b.toNat ∧ b.toNat < 192 := hb
    obtain rfl := Option.some.inj h
    refine ⟨UInt8.toNat_inj.mp ?_, by omega⟩
    rw [UInt8.toNat_ofNat']
    omega
  · cases h

theorem charAbove?_eq_some {least n : ℕ} {c : Char} (h : charAbove? least n = some c) :
    least ≤ n ∧ c.toNat = n := by
  rw [charAbove?] at h
  split at h
  · next hn =>
    obtain rfl := Option.some.inj h
    exact ⟨hn.1, toNat_charOfNat hn.2⟩
  · cases h

theorem utf8EncodeChar_eq_two {c : Char} {m n₁ : ℕ} (hc : c.toNat = m * 64 + n₁)
    (hleast : 0x80 ≤ c.toNat) (hm : m < 32) (hn₁ : n₁ < 64) :
    String.utf8EncodeChar c = [UInt8.ofNat (m + 0xC0), UInt8.ofNat (n₁ + 0x80)] := by
  have hv : c.val.toNat = c.toNat := rfl
  have h₀ : c.toNat / 64 % 32 = m := by omega
  have h₁ : c.toNat % 64 = n₁ := by omega
  simp only [String.utf8EncodeChar, hv]
  rw [if_neg (by omega), if_pos (by omega), h₀, h₁]

theorem utf8EncodeChar_eq_three {c : Char} {m n₁ n₂ : ℕ} (hc : c.toNat = (m * 64 + n₁) * 64 + n₂)
    (hleast : 0x800 ≤ c.toNat) (hm : m < 16) (hn₁ : n₁ < 64) (hn₂ : n₂ < 64) :
    String.utf8EncodeChar c =
      [UInt8.ofNat (m + 0xE0), UInt8.ofNat (n₁ + 0x80), UInt8.ofNat (n₂ + 0x80)] := by
  have hv : c.val.toNat = c.toNat := rfl
  have h₀ : c.toNat / 4096 % 16 = m := by omega
  have h₁ : c.toNat / 64 % 64 = n₁ := by omega
  have h₂ : c.toNat % 64 = n₂ := by omega
  simp only [String.utf8EncodeChar, hv]
  rw [if_neg (by omega), if_neg (by omega), if_pos (by omega), h₀, h₁, h₂]

theorem utf8EncodeChar_eq_four {c : Char} {m n₁ n₂ n₃ : ℕ}
    (hc : c.toNat = ((m * 64 + n₁) * 64 + n₂) * 64 + n₃) (hleast : 0x10000 ≤ c.toNat) (hm : m < 8)
    (hn₁ : n₁ < 64) (hn₂ : n₂ < 64) (hn₃ : n₃ < 64) :
    String.utf8EncodeChar c = [UInt8.ofNat (m + 0xF0), UInt8.ofNat (n₁ + 0x80),
      UInt8.ofNat (n₂ + 0x80), UInt8.ofNat (n₃ + 0x80)] := by
  have hv : c.val.toNat = c.toNat := rfl
  have h₀ : c.toNat / 262144 % 8 = m := by omega
  have h₁ : c.toNat / 4096 % 64 = n₁ := by omega
  have h₂ : c.toNat / 64 % 64 = n₂ := by omega
  have h₃ : c.toNat % 64 = n₃ := by omega
  simp only [String.utf8EncodeChar, hv]
  rw [if_neg (by omega), if_neg (by omega), if_neg (by omega), h₀, h₁, h₂, h₃]

theorem ofNat_sub_add {b : UInt8} {n : ℕ} (h : n ≤ b.toNat) :
    UInt8.ofNat (b.toNat - n + n) = b := by
  rw [Nat.sub_add_cancel h, UInt8.ofNat_toNat]

/-- What is read as a character is what the character is written as. -/
theorem eq_utf8EncodeChar_append {s rest : ByteString} {c : Char}
    (h : utf8DecodeChar? s = some (c, rest)) : s = String.utf8EncodeChar c ++ rest := by
  rw [utf8DecodeChar?.eq_def] at h
  split at h
  · cases h
  · next b tl =>
    simp only [UInt8.lt_iff_toNat_lt, UInt8.reduceToNat] at h
    split at h
    · obtain ⟨rfl, rfl⟩ := Prod.mk.inj (Option.some.inj h)
      have hc : (Char.ofNat b.toNat).toNat = b.toNat := toNat_charOfNat (.inl (by omega))
      rw [utf8EncodeChar_of_lt (by omega), hc, UInt8.ofNat_toNat, List.singleton_append]
    -- the first byte says how many follow, and each of these has six bits of the number
    split at h
    · cases h
    split at h
    · split at h
      · next b₁ tl =>
        simp only [Option.bind_eq_bind, Option.bind_eq_some_iff] at h
        obtain ⟨n₁, h₁, c', hc, heq⟩ := h
        obtain ⟨rfl, rfl⟩ := Prod.mk.inj (Option.some.inj heq)
        obtain ⟨rfl, hn₁⟩ := continuation?_eq_some h₁
        obtain ⟨hleast, hc⟩ := charAbove?_eq_some hc
        rw [utf8EncodeChar_eq_two hc (by omega) (by omega) hn₁, ofNat_sub_add (by omega)]
        rfl
      · cases h
    split at h
    · split at h
      · next b₁ b₂ tl =>
        simp only [Option.bind_eq_bind, Option.bind_eq_some_iff] at h
        obtain ⟨n₁, h₁, n₂, h₂, c', hc, heq⟩ := h
        obtain ⟨rfl, rfl⟩ := Prod.mk.inj (Option.some.inj heq)
        obtain ⟨rfl, hn₁⟩ := continuation?_eq_some h₁
        obtain ⟨rfl, hn₂⟩ := continuation?_eq_some h₂
        obtain ⟨hleast, hc⟩ := charAbove?_eq_some hc
        rw [utf8EncodeChar_eq_three hc (by omega) (by omega) hn₁ hn₂, ofNat_sub_add (by omega)]
        rfl
      · cases h
    split at h
    · split at h
      · next b₁ b₂ b₃ tl =>
        simp only [Option.bind_eq_bind, Option.bind_eq_some_iff] at h
        obtain ⟨n₁, h₁, n₂, h₂, n₃, h₃, c', hc, heq⟩ := h
        obtain ⟨rfl, rfl⟩ := Prod.mk.inj (Option.some.inj heq)
        obtain ⟨rfl, hn₁⟩ := continuation?_eq_some h₁
        obtain ⟨rfl, hn₂⟩ := continuation?_eq_some h₂
        obtain ⟨rfl, hn₃⟩ := continuation?_eq_some h₃
        obtain ⟨hleast, hc⟩ := charAbove?_eq_some hc
        rw [utf8EncodeChar_eq_four hc (by omega) (by omega) hn₁ hn₂ hn₃, ofNat_sub_add (by omega)]
        rfl
      · cases h
    · cases h

/-- **UTF-8 is read back.** -/
theorem utf8Encode_of_utf8DecodeRounds {rounds : ℕ} {s : ByteString} {cs : List Char}
    (h : utf8DecodeRounds rounds s = some cs) : utf8Encode cs = s := by
  induction rounds generalizing s cs with
  | zero =>
    cases s with
    | nil =>
      obtain rfl := Option.some.inj h
      rfl
    | cons b bs => cases h
  | succ rounds ih =>
    cases s with
    | nil =>
      obtain rfl := Option.some.inj h
      rfl
    | cons b bs =>
      rw [utf8DecodeRounds] at h
      simp only [Option.bind_eq_bind, Option.bind_eq_some_iff] at h
      obtain ⟨⟨c, rest⟩, hc, cs', hcs, heq⟩ := h
      obtain rfl := Option.some.inj heq
      rw [eq_utf8EncodeChar_append hc, utf8Encode, List.flatMap_cons]
      exact congrArg _ (ih hcs)

theorem utf8Encode_append (cs cs' : List Char) :
    utf8Encode (cs ++ cs') = utf8Encode cs ++ utf8Encode cs' :=
  List.flatMap_append

/-- A text has the byte of every character in it that can stand alone. -/
theorem mem_utf8Encode {cs : List Char} {c : Char} (hmem : c ∈ cs) (hc : c.toNat < 0x80) :
    UInt8.ofNat c.toNat ∈ utf8Encode cs := by
  refine List.mem_flatMap.mpr ⟨c, hmem, ?_⟩
  rw [utf8EncodeChar_of_lt hc]
  exact List.mem_singleton_self _

/-- A text ends with a byte that can stand alone only if it ends with its character. -/
theorem getLast?_of_utf8Encode {cs : List Char} {b : UInt8}
    (hlast : (utf8Encode cs).getLast? = some b) (hb : b < 0x80) :
    ∃ c, cs.getLast? = some c ∧ c.toNat = b.toNat := by
  rcases cs.eq_nil_or_concat with rfl | ⟨init, c, rfl⟩
  · cases hlast
  · have hsingle : utf8Encode [c] = String.utf8EncodeChar c := List.flatMap_singleton _ _
    rw [List.concat_eq_append, utf8Encode_append, hsingle,
      List.getLast?_append_of_ne_nil _ String.utf8EncodeChar_ne_nil] at hlast
    refine ⟨c, by simp, ?_⟩
    exact utf8EncodeChar_of_mem (List.mem_of_getLast? hlast) hb

theorem isHighSurrogate_iff (u : UInt16) :
    isHighSurrogate u = true ↔ 0xD800 ≤ u.toNat ∧ u.toNat < 0xDC00 := by
  rw [isHighSurrogate, Bool.and_eq_true, decide_eq_true_iff, decide_eq_true_iff,
    UInt16.le_iff_toNat_le, UInt16.lt_iff_toNat_lt]
  rfl

theorem isLowSurrogate_iff (u : UInt16) :
    isLowSurrogate u = true ↔ 0xDC00 ≤ u.toNat ∧ u.toNat < 0xE000 := by
  rw [isLowSurrogate, Bool.and_eq_true, decide_eq_true_iff, decide_eq_true_iff,
    UInt16.le_iff_toNat_le, UInt16.lt_iff_toNat_lt]
  rfl

/-- The number of a character is not that of a surrogate. -/
theorem toNat_char_cases (c : Char) :
    c.toNat < 0xD800 ∨ 0xDFFF < c.toNat ∧ c.toNat < 0x110000 :=
  c.valid

theorem toNat_unit {n : ℕ} (h : n < 0x10000) : (UInt16.ofNat n).toNat = n := by
  rw [UInt16.toNat_ofNat']
  exact Nat.mod_eq_of_lt h

theorem utf16Decode_cons_cons (u v : UInt16) (rest : WString) :
    utf16Decode (u :: v :: rest) =
      if isHighSurrogate u && isLowSurrogate v then charOfPair u v :: utf16Decode rest
      else charOfUnit u :: utf16Decode (v :: rest) := by
  rw [utf16Decode]

theorem utf16Decode_utf16EncodeChar_append (c : Char) (rest : WString) :
    utf16Decode (utf16EncodeChar c ++ rest) = c :: utf16Decode rest := by
  have hc := toNat_char_cases c
  rw [utf16EncodeChar]
  split
  · next hlt =>
    have hhigh : isHighSurrogate (UInt16.ofNat c.toNat) = false := by
      rw [← Bool.not_eq_true, isHighSurrogate_iff, toNat_unit hlt]
      omega
    have hlow : isLowSurrogate (UInt16.ofNat c.toNat) = false := by
      rw [← Bool.not_eq_true, isLowSurrogate_iff, toNat_unit hlt]
      omega
    rw [List.singleton_append, utf16Decode_cons hhigh, charOfUnit, hhigh, hlow, toNat_unit hlt,
      Char.ofNat_toNat]
    rfl
  · next hle =>
    have hu : (UInt16.ofNat (0xD800 + (c.toNat - 0x10000) / 0x400)).toNat =
        0xD800 + (c.toNat - 0x10000) / 0x400 := toNat_unit (by omega)
    have hv : (UInt16.ofNat (0xDC00 + (c.toNat - 0x10000) % 0x400)).toNat =
        0xDC00 + (c.toNat - 0x10000) % 0x400 := toNat_unit (by omega)
    have hhigh := (isHighSurrogate_iff _).mpr (by rw [hu]; omega)
    have hlow := (isLowSurrogate_iff _).mpr (by rw [hv]; omega)
    rw [List.cons_append, List.singleton_append, utf16Decode_cons_cons, hhigh, hlow, Bool.and_self,
      if_pos rfl, charOfPair, hu, hv]
    have hnum : 0x10000 + (0xD800 + (c.toNat - 0x10000) / 0x400 - 0xD800) * 0x400 +
        (0xDC00 + (c.toNat - 0x10000) % 0x400 - 0xDC00) = c.toNat := by omega
    rw [hnum, Char.ofNat_toNat]

/-- **UTF-16 is read back.** -/
theorem utf16Decode_utf16Encode (cs : List Char) : utf16Decode (utf16Encode cs) = cs := by
  induction cs with
  | nil => rfl
  | cons c cs ih =>
    rw [utf16Encode, List.flatMap_cons, utf16Decode_utf16EncodeChar_append]
    exact congrArg _ ih

/-- A unit that can stand alone does. -/
theorem mem_of_mem_utf16Encode {cs : List Char} {u : UInt16} (hmem : u ∈ utf16Encode cs)
    (hu : u.toNat < 0x80) : ∃ c ∈ cs, c.toNat = u.toNat := by
  obtain ⟨c, hc, hmem⟩ := List.mem_flatMap.mp hmem
  refine ⟨c, hc, ?_⟩
  rw [utf16EncodeChar] at hmem
  split at hmem
  · next hlt =>
    rw [List.mem_singleton] at hmem
    rw [hmem, toNat_unit hlt]
  · have := toNat_char_cases c
    simp only [List.mem_cons, List.not_mem_nil, or_false] at hmem
    rcases hmem with rfl | rfl <;> rw [toNat_unit (by omega)] at hu <;> omega

/-- Text can be cut before any unit that is not the second of a pair. -/
theorem utf16Decode_append_cons {u : UInt16} (hu : isLowSurrogate u = false) (path rest : WString) :
    utf16Decode (path ++ u :: rest) = utf16Decode path ++ utf16Decode (u :: rest) := by
  induction path using utf16Decode.induct with
  | case1 => rfl
  | case2 x =>
    rw [List.singleton_append, utf16Decode_cons_cons, hu, Bool.and_false,
      if_neg Bool.false_ne_true]
    rfl
  | case3 x y path hpair ih =>
    rw [List.cons_append, List.cons_append, utf16Decode_cons_cons, if_pos hpair, ih,
      utf16Decode_cons_cons, if_pos hpair, List.cons_append]
  | case4 x y path hpair ih =>
    rw [List.cons_append, List.cons_append, utf16Decode_cons_cons, if_neg hpair,
      utf16Decode_cons_cons, if_neg hpair, List.cons_append, ← List.cons_append, ih]

theorem toNat_charOfPair {u v : UInt16} (hpair : (isHighSurrogate u && isLowSurrogate v) = true) :
    0x10000 ≤ (charOfPair u v).toNat := by
  rw [Bool.and_eq_true, isHighSurrogate_iff, isLowSurrogate_iff] at hpair
  rw [charOfPair, toNat_charOfNat (.inr (by omega))]
  omega

theorem toNat_charOfUnit {u : UInt16} (hc : (charOfUnit u).toNat < 0x80) :
    u.toNat = (charOfUnit u).toNat := by
  have hlt := u.toNat_lt
  rw [charOfUnit] at hc ⊢
  split at hc
  · exact absurd hc (by decide)
  · next hunit =>
    rw [if_neg hunit]
    rw [Bool.or_eq_true, isHighSurrogate_iff, isLowSurrogate_iff] at hunit
    have hvalid : u.toNat.isValidChar := by
      show u.toNat < 0xD800 ∨ 0xDFFF < u.toNat ∧ u.toNat < 0x110000
      omega
    exact (toNat_charOfNat hvalid).symm

theorem utf16Decode_cons_ne_nil (u : UInt16) (rest : WString) : utf16Decode (u :: rest) ≠ [] := by
  cases rest with
  | nil => exact List.cons_ne_nil _ _
  | cons v rest =>
    rw [utf16Decode_cons_cons]
    split <;> exact List.cons_ne_nil _ _

/-- A text ends with a character that can stand alone only if it ends with its unit. -/
theorem getLast?_of_utf16Decode {path : WString} {c : Char}
    (hlast : (utf16Decode path).getLast? = some c) (hc : c.toNat < 0x80) :
    ∃ u, path.getLast? = some u ∧ u.toNat = c.toNat := by
  induction path using utf16Decode.induct with
  | case1 => cases hlast
  | case2 x =>
    obtain rfl := Option.some.inj hlast
    exact ⟨x, rfl, toNat_charOfUnit hc⟩
  | case3 x y path hpair ih =>
    rw [utf16Decode_cons_cons, if_pos hpair] at hlast
    cases path with
    | nil =>
      obtain rfl : charOfPair x y = c := Option.some.inj hlast
      have := toNat_charOfPair hpair
      omega
    | cons z path =>
      rw [List.getLast?_cons_of_ne_nil (utf16Decode_cons_ne_nil z path)] at hlast
      obtain ⟨u, hu, hnat⟩ := ih hlast
      exact ⟨u, hu, hnat⟩
  | case4 x y path hpair ih =>
    rw [utf16Decode_cons_cons, if_neg hpair,
      List.getLast?_cons_of_ne_nil (utf16Decode_cons_ne_nil y path)] at hlast
    exact ih hlast

/-! ## Separators -/

/-- `std::replace` of a value that does not occur. -/
theorem map_replace_of_notMem {α : Type} [DecidableEq α] {old new : α} {l : List α} (h : old ∉ l) :
    (l.map fun a => if a = old then new else a) = l := by
  refine (List.map_congr_left fun a ha => if_neg ?_).trans l.map_id
  rintro rfl
  exact h ha

/-- `std::replace` leaves nothing of what it replaces. -/
theorem notMem_map_replace {α : Type} [DecidableEq α] {old new : α} (hne : new ≠ old) (l : List α) :
    old ∉ l.map fun a => if a = old then new else a := by
  intro hmem
  obtain ⟨a, -, ha⟩ := List.mem_map.mp hmem
  split at ha
  · exact hne ha
  · next hold => exact hold ha

/-- A Windows path in UTF-8, with slashes; `win32_path_to_unix` then takes off the last one. -/
def slashed (win32Path : WString) : ByteString :=
  (utf8Encode (utf16Decode win32Path)).map fun b => if b = backslash then slash else b

theorem win32PathToUnix_eq {path : WString} (h0 : 0 ∉ path) :
    win32PathToUnix path =
      if (slashed path).length > 1 && endsWithSlash (slashed path) then (slashed path).dropLast
      else slashed path := by
  have htake : path.takeWhile (· ≠ 0) = path :=
    List.takeWhile_eq_self_iff.mpr fun u hu => decide_eq_true fun hzero => h0 (hzero ▸ hu)
  rw [win32PathToUnix, htake]
  rfl

theorem win32PathToUnix_of_not_ends {path : WString} (h0 : 0 ∉ path)
    (hends : endsWithSlash (slashed path) = false) : win32PathToUnix path = slashed path := by
  rw [win32PathToUnix_eq h0, hends, Bool.and_false, if_neg Bool.false_ne_true]

theorem endsWithSlash_append {path name : ByteString} (hname : name ≠ []) :
    endsWithSlash (path ++ name) = endsWithSlash name := by
  rw [endsWithSlash, endsWithSlash, List.getLast?_append_of_ne_nil _ hname]

theorem endsWithSlash_of_notMem {path : ByteString} (h : slash ∉ path) :
    endsWithSlash path = false := by
  rw [← Bool.not_eq_true, endsWithSlash, beq_iff_eq]
  exact fun hlast => h (List.mem_of_getLast? hlast)

/-- The path of a directory as Windows has it: `\a\b`, or nothing for the root. -/
structure DirectoryPath where
  path : WString
  noTerminator : 0 ∉ path
  noSeparator : path.getLast? ≠ some 92 ∧ path.getLast? ≠ some 47

/-- An entry of a directory: its name on Android, and what a listing calls it. -/
structure ListedEntry where
  name : ByteString
  shown : WString
  nonempty : name ≠ []
  noSlash : slash ∉ name
  noTerminator : 0 ∉ name
  shows : unixPathToWin32 name = some shown

/-- The path with which Windows comes back. -/
def DirectoryPath.join (dir : DirectoryPath) (entry : ListedEntry) : WString :=
  dir.path ++ 92 :: entry.shown

/-- The path leads back to the entry. -/
def LeadsBack (dir : DirectoryPath) (entry : ListedEntry) : Prop :=
  win32PathToUnix (dir.join entry) = getFullPath (win32PathToUnix dir.path) entry.name

instance (dir : DirectoryPath) (entry : ListedEntry) : Decidable (LeadsBack dir entry) :=
  inferInstanceAs (Decidable (_ = _))

theorem ListedEntry.exists_text (entry : ListedEntry) :
    ∃ cs, entry.name = utf8Encode cs ∧ entry.shown = utf16Encode cs := by
  have hshows := entry.shows
  rw [unixPathToWin32, wstringFromString] at hshows
  simp only [Option.map_eq_some_iff] at hshows
  obtain ⟨_, ⟨cs, hcs, rfl⟩, hshown⟩ := hshows
  have hname := utf8Encode_of_utf8DecodeRounds hcs
  refine ⟨cs, hname.symm, ?_⟩
  rw [← hshown]
  refine map_replace_of_notMem fun hmem => entry.noSlash ?_
  obtain ⟨c, hc, hnat⟩ := mem_of_mem_utf16Encode hmem (by decide)
  have hslash := mem_utf8Encode hc (by rw [hnat]; decide)
  rw [hnat, hname] at hslash
  exact hslash

theorem ListedEntry.zero_notMem_shown (entry : ListedEntry) : 0 ∉ entry.shown := by
  obtain ⟨cs, hname, hshown⟩ := entry.exists_text
  rw [hshown]
  intro hmem
  obtain ⟨c, hc, hnat⟩ := mem_of_mem_utf16Encode hmem (by decide)
  have hzero := mem_utf8Encode hc (by rw [hnat]; decide)
  rw [hnat, ← hname] at hzero
  exact entry.noTerminator hzero

/-- Behind the directory comes a slash and then the name, with slashes for its backslashes. -/
theorem slashed_join (dir : DirectoryPath) (entry : ListedEntry) :
    slashed (dir.join entry) = slashed dir.path ++
      slash :: entry.name.map fun b => if b = backslash then slash else b := by
  obtain ⟨cs, hname, hshown⟩ := entry.exists_text
  have hdecode : utf16Decode (dir.join entry) = utf16Decode dir.path ++ '\\' :: cs := by
    rw [DirectoryPath.join, utf16Decode_append_cons (by decide), utf16Decode_cons (by decide),
      hshown, utf16Decode_utf16Encode]
    rfl
  have hencode : utf8Encode ('\\' :: cs) = backslash :: entry.name := by
    rw [hname]
    rfl
  rw [slashed, hdecode, utf8Encode_append, hencode, List.map_append, List.map_cons, if_pos rfl]
  rfl

/-- The path of a directory ends with no separator on Android either. -/
theorem DirectoryPath.endsWithSlash_slashed (dir : DirectoryPath) :
    endsWithSlash (slashed dir.path) = false := by
  rw [← Bool.not_eq_true, endsWithSlash, beq_iff_eq, slashed, List.getLast?_map,
    Option.map_eq_some_iff]
  rintro ⟨b, hlast, hb⟩
  have hsep : b = backslash ∨ b = slash := by
    split at hb
    · next heq => exact .inl heq
    · exact .inr hb
  have hlt : b < 0x80 := by
    rcases hsep with rfl | rfl <;> decide
  obtain ⟨c, hc, hcb⟩ := getLast?_of_utf8Encode hlast hlt
  have hc' : c.toNat < 0x80 := by
    rw [hcb]
    exact UInt8.lt_iff_toNat_lt.mp hlt
  obtain ⟨u, hu, huc⟩ := getLast?_of_utf16Decode hc hc'
  rcases hsep with rfl | rfl
  · refine dir.noSeparator.1 (hu.trans (congrArg some (UInt16.toNat_inj.mp ?_)))
    rw [huc, hcb]
    rfl
  · refine dir.noSeparator.2 (hu.trans (congrArg some (UInt16.toNat_inj.mp ?_)))
    rw [huc, hcb]
    rfl

theorem DirectoryPath.getFullPath_eq (dir : DirectoryPath) (name : ByteString) :
    getFullPath (win32PathToUnix dir.path) name = slashed dir.path ++ slash :: name := by
  rw [win32PathToUnix_of_not_ends dir.noTerminator dir.endsWithSlash_slashed, getFullPath,
    dir.endsWithSlash_slashed, if_neg Bool.false_ne_true, List.append_assoc, List.singleton_append]

theorem DirectoryPath.zero_notMem_join (dir : DirectoryPath) (entry : ListedEntry) :
    0 ∉ dir.join entry := by
  rw [DirectoryPath.join, List.mem_append, List.mem_cons]
  rintro (hmem | hmem | hmem)
  · exact dir.noTerminator hmem
  · exact absurd hmem (by decide)
  · exact entry.zero_notMem_shown hmem

/-- **A name leads back exactly if there is no backslash in it.** -/
theorem leadsBack_iff_notMem (dir : DirectoryPath) (entry : ListedEntry) :
    LeadsBack dir entry ↔ backslash ∉ entry.name := by
  rw [LeadsBack, dir.getFullPath_eq]
  constructor
  · -- there is none in what comes out
    intro heq hmem
    have hnot : backslash ∉ slashed (dir.join entry) := notMem_map_replace (by decide) _
    have hout : backslash ∈ win32PathToUnix (dir.join entry) := by
      rw [heq]
      exact List.mem_append_right _ (List.mem_cons_of_mem _ hmem)
    rw [win32PathToUnix_eq (dir.zero_notMem_join entry)] at hout
    split at hout
    · exact hnot (List.dropLast_subset _ hout)
    · exact hnot hout
  · intro hname
    have hslashed := slashed_join dir entry
    rw [map_replace_of_notMem hname] at hslashed
    have hends : endsWithSlash (slashed (dir.join entry)) = false := by
      rw [hslashed, List.append_cons, endsWithSlash_append entry.nonempty]
      exact endsWithSlash_of_notMem entry.noSlash
    rw [win32PathToUnix_of_not_ends (dir.zero_notMem_join entry) hends, hslashed]

/-- What Windows does with two entries of a directory is done to these two: each path leads back to
its entry, and there is no path for both. -/
structure KeptApart (dir : DirectoryPath) (entry entry' : ListedEntry) : Prop where
  leadsBack : LeadsBack dir entry
  leadsBack' : LeadsBack dir entry'
  apart : win32PathToUnix (dir.join entry) = win32PathToUnix (dir.join entry') →
    entry.name = entry'.name

/-- **Two entries of a directory are kept apart exactly if neither name has a backslash in it.** -/
theorem keptApart_iff (dir : DirectoryPath) (entry entry' : ListedEntry) :
    KeptApart dir entry entry' ↔ backslash ∉ entry.name ∧ backslash ∉ entry'.name := by
  constructor
  · intro h
    exact ⟨(leadsBack_iff_notMem dir entry).mp h.leadsBack,
      (leadsBack_iff_notMem dir entry').mp h.leadsBack'⟩
  · rintro ⟨hname, hname'⟩
    have hback := (leadsBack_iff_notMem dir entry).mpr hname
    have hback' := (leadsBack_iff_notMem dir entry').mpr hname'
    refine ⟨hback, hback', fun hsame => ?_⟩
    rw [LeadsBack, dir.getFullPath_eq] at hback hback'
    rw [hback, hback'] at hsame
    exact (List.cons.inj (List.append_cancel_left hsame)).2

/-- The root. -/
def DirectoryPath.root : DirectoryPath where
  path := []
  noTerminator := List.not_mem_nil
  noSeparator := by decide

/-- The file `a`. -/
def ListedEntry.a : ListedEntry where
  name := [97]
  shown := [97]
  nonempty := by decide
  noSlash := by decide
  noTerminator := by decide
  shows := by decide

/-- The file whose name is `a` and a backslash. -/
def ListedEntry.aBackslash : ListedEntry where
  name := [97, 92]
  shown := [97, 92]
  nonempty := by decide
  noSlash := by decide
  noTerminator := by decide
  shows := by decide

/-- Whatever is done to the second is done to the first. -/
theorem not_keptApart_backslash :
    ¬ KeptApart .root .aBackslash .a ∧
      win32PathToUnix (DirectoryPath.root.join .aBackslash) =
        getFullPath (win32PathToUnix DirectoryPath.root.path) ListedEntry.a.name := by
  refine ⟨fun h => ?_, by decide⟩
  exact absurd h.leadsBack (by decide)

end NandroidFS
