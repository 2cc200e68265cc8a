import NandroidFS.Shared.PathUtils

/-!
# Paths of the two systems

`conversion.cpp`, as far as it is about text.  Windows paths are strings of 16-bit units, Unix
paths are strings of bytes, and both spell the same characters: `utf16Decode` and `utf8Encode` are
what `WideCharToMultiByte` does with the flags the source gives it, `utf8Decode?` and `utf16Encode`
are what `std::wstring_convert` does, which throws on bytes that are not UTF-8.
-/

namespace NandroidFS

/-- The strings of Windows. -/
abbrev WString := List UInt16

/-! ## Text encodings -/

/-- The first unit of a pair. -/
def isHighSurrogate (u : UInt16) : Bool := 0xD800 ≤ u && u < 0xDC00

/-- The second unit of a pair. -/
def isLowSurrogate (u : UInt16) : Bool := 0xDC00 ≤ u && u < 0xE000

/-- The character U+FFFD. -/
def replacementChar : Char := Char.ofNat 0xFFFD

/-- A unit on its own: a surrogate without its partner is replaced. -/
def charOfUnit (u : UInt16) : Char :=
  if isHighSurrogate u || isLowSurrogate u then replacementChar else Char.ofNat u.toNat

def charOfPair (u v : UInt16) : Char :=
  Char.ofNat (0x10000 + (u.toNat - 0xD800) * 0x400 + (v.toNat - 0xDC00))

/-- The characters of a string of 16-bit units. -/
def utf16Decode : WString → List Char
  | [] => []
  | [u] => [charOfUnit u]
  | u :: v :: rest =>
      if isHighSurrogate u && isLowSurrogate v then charOfPair u v :: utf16Decode rest
      else charOfUnit u :: utf16Decode (v :: rest)

theorem utf16Decode_cons {u : UInt16} (hu : isHighSurrogate u = false) (rest : WString) :
    utf16Decode (u :: rest) = charOfUnit u :: utf16Decode rest := by
  cases rest with
  | nil => rfl
  | cons v rest => rw [utf16Decode, hu, Bool.false_and, if_neg Bool.false_ne_true]

def utf16EncodeChar (c : Char) : WString :=
  if c.toNat < 0x10000 then [UInt16.ofNat c.toNat]
  else [UInt16.ofNat (0xD800 + (c.toNat - 0x10000) / 0x400),
    UInt16.ofNat (0xDC00 + (c.toNat - 0x10000) % 0x400)]

def utf16Encode (cs : List Char) : WString :=
  cs.flatMap utf16EncodeChar

def utf8Encode (cs : List Char) : ByteString :=
  cs.flatMap String.utf8EncodeChar

/-- The six bits of a continuation byte. -/
def continuation? (b : UInt8) : Option ℕ :=
  if 0x80 ≤ b && b < 0xC0 then some (b.toNat - 0x80) else none

/-- A character whose number is at least `least`, if the number is that of a character. -/
def charAbove? (least n : ℕ) : Option Char :=
  if least ≤ n ∧ n.isValidChar then some (Char.ofNat n) else none

/-- The first character of a string in UTF-8 and what follows it. -/
def utf8DecodeChar? : ByteString → Option (Char × ByteString)
  | [] => none
  | b :: rest =>
      if b < 0x80 then some (Char.ofNat b.toNat, rest)
      else if b < 0xC0 then none
      else if b < 0xE0 then
        match rest with
        | b₁ :: rest => do
            let n₁ ← continuation? b₁
            return (← charAbove? 0x80 ((b.toNat - 0xC0) * 64 + n₁), rest)
        | _ => none
      else if b < 0xF0 then
        match rest with
        | b₁ :: b₂ :: rest => do
            let n₁ ← continuation? b₁
            let n₂ ← continuation? b₂
            return (← charAbove? 0x800 (((b.toNat - 0xE0) * 64 + n₁) * 64 + n₂), rest)
        | _ => none
      else if b < 0xF8 then
        match rest with
        | b₁ :: b₂ :: b₃ :: rest => do
            let n₁ ← continuation? b₁
            let n₂ ← continuation? b₂
            let n₃ ← continuation? b₃
            return (← charAbove? 0x10000
              ((((b.toNat - 0xF0) * 64 + n₁) * 64 + n₂) * 64 + n₃), rest)
        | _ => none
      else none

/-- The characters of a string in UTF-8, in at most `rounds` rounds. -/
def utf8DecodeRounds : ℕ → ByteString → Option (List Char)
  | _, [] => some []
  | 0, _ :: _ => none
  | rounds + 1, b :: bs => do
      let (c, rest) ← utf8DecodeChar? (b :: bs)
      return c :: (← utf8DecodeRounds rounds rest)

/-- The characters of a string in UTF-8, if it is one.  Every character takes a byte. -/
def utf8Decode? (s : ByteString) : Option (List Char) :=
  utf8DecodeRounds s.length s

/-! ## The conversions of the source -/

/-- The separator of Windows in UTF-8. -/
def backslash : UInt8 := 92

def win32PathToUnix (win32Path : WString) : ByteString :=
  let utf8 := utf8Encode (utf16Decode (win32Path.takeWhile (· ≠ 0)))
  let unixPath := utf8.map fun b => if b = backslash then slash else b
  if unixPath.length > 1 && endsWithSlash unixPath then unixPath.dropLast else unixPath

/-- `none` is the `std::range_error` of `from_bytes`. -/
def wstringFromString (s : ByteString) : Option WString :=
  (utf8Decode? s).map utf16Encode

def unixPathToWin32 (unixPath : ByteString) : Option WString :=
  (wstringFromString unixPath).map fun w => w.map fun u => if u = 47 then 92 else u

end NandroidFS
