import CometTextel.Checked

/-!
# UTF-8, the GSM 03.38 alphabet and UCS-2

The text of a message is UTF-8 in `Message::user_data`; on the air it is septets of the GSM default
alphabet or UTF-16BE octets. A code point is a natural number: the source's `char32_t` never holds
one that 32 bits could not.
-/

namespace CometTextel

/-! ### UTF-8 -/

/-- `utf8_next`: the code point and the text after it. -/
def utf8Next : Bytes → Option (Nat × Bytes)
  | [] => none
  | c0 :: text =>
      if c0 < 0x80 then
        some (c0.toNat, text)
      else if c0 &&& 0xE0 = 0xC0 then
        match text with
        | c1 :: text => some (((c0 &&& 0x1F).toNat <<< 6) ||| (c1 &&& 0x3F).toNat, text)
        | _ => none
      else if c0 &&& 0xF0 = 0xE0 then
        match text with
        | c1 :: c2 :: text =>
            some (((c0 &&& 0x0F).toNat <<< 12) ||| ((c1 &&& 0x3F).toNat <<< 6) |||
              (c2 &&& 0x3F).toNat, text)
        | _ => none
      else if c0 &&& 0xF8 = 0xF0 then
        match text with
        | c1 :: c2 :: c3 :: text =>
            some (((c0 &&& 0x07).toNat <<< 18) ||| ((c1 &&& 0x3F).toNat <<< 12) |||
              ((c2 &&& 0x3F).toNat <<< 6) ||| (c3 &&& 0x3F).toNat, text)
        | _ => none
      else
        none

theorem utf8Next_length_lt {text rest : Bytes} {codepoint : Nat}
    (h : utf8Next text = some (codepoint, rest)) : rest.length < text.length := by
  unfold utf8Next at h
  grind

def appendUtf8 (out : Bytes) (codepoint : Nat) : Bytes :=
  if codepoint < 0x80 then
    out ++ [UInt8.ofNat codepoint]
  else if codepoint < 0x800 then
    out ++ [UInt8.ofNat (0xC0 ||| (codepoint >>> 6)), UInt8.ofNat (0x80 ||| (codepoint &&& 0x3F))]
  else if codepoint < 0x10000 then
    out ++ [UInt8.ofNat (0xE0 ||| (codepoint >>> 12)),
      UInt8.ofNat (0x80 ||| ((codepoint >>> 6) &&& 0x3F)),
      UInt8.ofNat (0x80 ||| (codepoint &&& 0x3F))]
  else
    out ++ [UInt8.ofNat (0xF0 ||| (codepoint >>> 18)),
      UInt8.ofNat (0x80 ||| ((codepoint >>> 12) &&& 0x3F)),
      UInt8.ofNat (0x80 ||| ((codepoint >>> 6) &&& 0x3F)),
      UInt8.ofNat (0x80 ||| (codepoint &&& 0x3F))]

/-! ### The GSM 03.38 default alphabet -/

/-- The default alphabet, whose index `0x1B` is the escape and not a glyph. -/
def kGsmBasic : List Nat :=
  [0x40, 0xA3, 0x24, 0xA5, 0xE8, 0xE9, 0xF9, 0xEC,
   0xF2, 0xC7, 0x0A, 0xD8, 0xF8, 0x0D, 0xC5, 0xE5,
   0x394, 0x5F, 0x3A6, 0x393, 0x39B, 0x3A9, 0x3A0, 0x3A8,
   0x3A3, 0x398, 0x39E, 0xFFFD, 0xC6, 0xE6, 0xDF, 0xC9,
   0x20, 0x21, 0x22, 0x23, 0xA4, 0x25, 0x26, 0x27,
   0x28, 0x29, 0x2A, 0x2B, 0x2C, 0x2D, 0x2E, 0x2F,
   0x30, 0x31, 0x32, 0x33, 0x34, 0x35, 0x36, 0x37,
   0x38, 0x39, 0x3A, 0x3B, 0x3C, 0x3D, 0x3E, 0x3F,
   0xA1, 0x41, 0x42, 0x43, 0x44, 0x45, 0x46, 0x47,
   0x48, 0x49, 0x4A, 0x4B, 0x4C, 0x4D, 0x4E, 0x4F,
   0x50, 0x51, 0x52, 0x53, 0x54, 0x55, 0x56, 0x57,
   0x58, 0x59, 0x5A, 0xC4, 0xD6, 0xD1, 0xDC, 0xA7,
   0xBF, 0x61, 0x62, 0x63, 0x64, 0x65, 0x66, 0x67,
   0x68, 0x69, 0x6A, 0x6B, 0x6C, 0x6D, 0x6E, 0x6F,
   0x70, 0x71, 0x72, 0x73, 0x74, 0x75, 0x76, 0x77,
   0x78, 0x79, 0x7A, 0xE4, 0xF6, 0xF1, 0xFC, 0xE0]

def kGsmEsc : UInt8 := 0x1B

structure GsmExtEntry where
  code : UInt8
  cp : Nat

def kGsmExt : List GsmExtEntry :=
  [⟨0x0A, 0x0C⟩, ⟨0x14, 0x5E⟩, ⟨0x28, 0x7B⟩, ⟨0x29, 0x7D⟩, ⟨0x2F, 0x5C⟩,
   ⟨0x3C, 0x5B⟩, ⟨0x3D, 0x7E⟩, ⟨0x3E, 0x5D⟩, ⟨0x40, 0x7C⟩, ⟨0x65, 0x20AC⟩]

/-- `gsm7_encode_codepoint`: the septets it appends, or `none` where it returns false. -/
def gsm7EncodeCodepoint (cp : Nat) : Option Bytes :=
  match (List.range 128).find? fun i => i ≠ kGsmEsc.toNat ∧ kGsmBasic[i]? = some cp with
  | some i => some [UInt8.ofNat i]
  | none =>
      match kGsmExt.find? fun entry => entry.cp == cp with
      | some entry => some [kGsmEsc, entry.code]
      | none => none

def gsm7ExtCodepoint (code : UInt8) : Checked Nat :=
  match kGsmExt.find? fun entry => entry.code == code with
  | some entry => .ok entry.cp
  -- an unknown extension shows the basic glyph of the second septet
  | none => getAt kGsmBasic (code &&& 0x7F).toNat

def utf8ToGsm7Loop (utf8 septets : Bytes) : Outcome Bytes :=
  if utf8 = [] then .ok septets
  else
    match _h : utf8Next utf8 with
    | none => .fail .encodeFailure []
    | some (codepoint, rest) =>
        match gsm7EncodeCodepoint codepoint with
        | none => .fail .encodeFailure []
        | some code => utf8ToGsm7Loop rest (septets ++ code)
  termination_by utf8.length
  decreasing_by exact utf8Next_length_lt _h

def utf8ToGsm7 (utf8 : Bytes) : Outcome Bytes := utf8ToGsm7Loop utf8 []

def gsm7ToUtf8Loop (septets : Bytes) (i : Nat) (utf8 : Bytes) : Checked Bytes :=
  if i < septets.length then do
    let value := (← getAt septets i) &&& 0x7F
    if value = kGsmEsc then
      if i + 1 ≥ septets.length then
        return appendUtf8 utf8 0x20
      else
        let ext := (← getAt septets (i + 1)) &&& 0x7F
        if ext = kGsmEsc then
          gsm7ToUtf8Loop septets (i + 2) (appendUtf8 utf8 0x20)
        else
          gsm7ToUtf8Loop septets (i + 2) (appendUtf8 utf8 (← gsm7ExtCodepoint ext))
    else
      gsm7ToUtf8Loop septets (i + 1) (appendUtf8 utf8 (← getAt kGsmBasic value.toNat))
  else
    pure utf8
  termination_by septets.length - i

def gsm7ToUtf8 (septets : Bytes) : Checked (Outcome Bytes) := do
  return .ok (← gsm7ToUtf8Loop septets 0 [])

/-! ### UCS-2 -/

def unitOctets (unit : Nat) : Bytes :=
  [UInt8.ofNat ((unit >>> 8) &&& 0xFF), UInt8.ofNat (unit &&& 0xFF)]

def encodeUcs2Loop (utf8 out : Bytes) : Outcome Bytes :=
  if utf8 = [] then .ok out
  else
    match _h : utf8Next utf8 with
    | none => .fail .encodeFailure []
    | some (codepoint, rest) =>
        if codepoint ≤ 0xFFFF then
          encodeUcs2Loop rest (out ++ unitOctets codepoint)
        else
          let adjusted := codepoint - 0x10000
          let high := 0xD800 ||| ((adjusted >>> 10) &&& 0x3FF)
          let low := 0xDC00 ||| (adjusted &&& 0x3FF)
          encodeUcs2Loop rest (out ++ unitOctets high ++ unitOctets low)
  termination_by utf8.length
  decreasing_by all_goals exact utf8Next_length_lt _h

def encodeUcs2 (utf8 : Bytes) : Outcome Bytes := encodeUcs2Loop utf8 []

def unitAt (bytes : Bytes) (i : Nat) : Checked Nat := do
  let hi ← getAt bytes i
  let lo ← getAt bytes (i + 1)
  return (hi.toNat <<< 8) ||| lo.toNat

def decodeUcs2Loop (bytes : Bytes) (i : Nat) (out : Bytes) : Checked (Outcome Bytes) :=
  if i < bytes.length then do
    let unit ← unitAt bytes i
    if 0xD800 ≤ unit ∧ unit ≤ 0xDBFF then
      if i + 2 + 1 ≥ bytes.length then
        return .fail .decodeFailure []
      else
        let low ← unitAt bytes (i + 2)
        if low < 0xDC00 ∨ low > 0xDFFF then
          return .fail .decodeFailure []
        else
          let high ← subtract unit 0xD800
          let low ← subtract low 0xDC00
          decodeUcs2Loop bytes (i + 4) (appendUtf8 out (0x10000 + ((high <<< 10) ||| low)))
    else
      decodeUcs2Loop bytes (i + 2) (appendUtf8 out unit)
  else
    return .ok out
  termination_by bytes.length - i

def decodeUcs2 (bytes : Bytes) : Checked (Outcome Bytes) :=
  if bytes.length % 2 ≠ 0 then return .fail .decodeFailure [] else decodeUcs2Loop bytes 0 []

end CometTextel
