import StreamPipeline.Lib.Decimal

/-!
# JSON texts

A reader of JSON over bytes: it takes one value off the front of a text and returns what
follows. Strings are decoded, numbers keep their spelling. Bytes from 128 on pass through a
string unchanged, and control bytes are refused in it. `Reads` says that a text is the token of
a value in front of any continuation; tokens compose to arrays and objects.
-/

namespace StreamPipeline

/-- A JSON value, with the decoded bytes of its strings and the spelling of its numbers. -/
inductive Json where
  /-- `null`. -/
  | null
  /-- `true` or `false`. -/
  | bool (value : Bool)
  /-- A number. -/
  | number (spelling : Bytes)
  /-- A string. -/
  | string (text : Bytes)
  /-- An array. -/
  | array (items : List Json)
  /-- An object, its members in order. -/
  | object (members : List (Bytes × Json))

namespace Json

/-- White space between tokens. -/
def isBlank (byte : UInt8) : Bool := byte == 32 || byte == 9 || byte == 10 || byte == 13

/-- The text after leading white space. -/
def skipBlank (text : Bytes) : Bytes := text.dropWhile isBlank

/-! ## Strings -/

/-- A hexadecimal digit. -/
def hexDigit (c : UInt8) : Option Nat :=
  if 48 ≤ c && c ≤ 57 then some (c.toNat - 48)
  else if 65 ≤ c && c ≤ 70 then some (c.toNat - 55)
  else if 97 ≤ c && c ≤ 102 then some (c.toNat - 87)
  else none

/-- Four hexadecimal digits. -/
def hex4 : Bytes → Option (Nat × Bytes)
  | a :: b :: c :: d :: rest => do
    let a ← hexDigit a
    let b ← hexDigit b
    let c ← hexDigit c
    let d ← hexDigit d
    some (((a * 16 + b) * 16 + c) * 16 + d, rest)
  | _ => none

/-- The UTF-8 bytes of a code point. -/
def utf8 (code : Nat) : Bytes :=
  if code < 0x80 then [UInt8.ofNat code]
  else if code < 0x800 then [UInt8.ofNat (0xC0 + code / 64), UInt8.ofNat (0x80 + code % 64)]
  else if code < 0x10000 then
    [UInt8.ofNat (0xE0 + code / 4096), UInt8.ofNat (0x80 + code / 64 % 64),
      UInt8.ofNat (0x80 + code % 64)]
  else
    [UInt8.ofNat (0xF0 + code / 262144), UInt8.ofNat (0x80 + code / 4096 % 64),
      UInt8.ofNat (0x80 + code / 64 % 64), UInt8.ofNat (0x80 + code % 64)]

/-- The byte a one-letter escape stands for. -/
def simpleEscape (c : UInt8) : Option UInt8 :=
  if c = 34 || c = 92 || c = 47 then some c
  else if c = 98 then some 8
  else if c = 102 then some 12
  else if c = 110 then some 10
  else if c = 114 then some 13
  else if c = 116 then some 9
  else none

/-- The low half of a surrogate pair, as its own escape. -/
def lowSurrogate (high : Nat) (text : Bytes) : Option (Bytes × Bytes) :=
  match text with
  | back :: letter :: text =>
    if back = 92 ∧ letter = 117 then
      match hex4 text with
      | none => none
      | some (low, rest) =>
        if 0xDC00 ≤ low ∧ low ≤ 0xDFFF then
          some (utf8 (0x10000 + (high - 0xD800) * 1024 + (low - 0xDC00)), rest)
        else none
    else none
  | _ => none

/-- The bytes an escape stands for, after its backslash. -/
def readEscape : Bytes → Option (Bytes × Bytes)
  | [] => none
  | c :: rest =>
    if c = 117 then
      match hex4 rest with
      | none => none
      | some (code, rest) =>
        if 0xDC00 ≤ code ∧ code ≤ 0xDFFF then none
        else if 0xD800 ≤ code ∧ code ≤ 0xDBFF then lowSurrogate code rest
        else some (utf8 code, rest)
    else (simpleEscape c).map fun byte => ([byte], rest)

/-- The decoded text up to the closing quote. -/
def readChars : Nat → Bytes → Option (Bytes × Bytes)
  | 0, _ => none
  | _ + 1, [] => none
  | fuel + 1, byte :: rest =>
    if byte = 34 then some ([], rest)
    else if byte = 92 then
      match readEscape rest with
      | none => none
      | some (decoded, rest) =>
        (readChars fuel rest).map fun later => (decoded ++ later.1, later.2)
    else if byte < 32 then none
    else (readChars fuel rest).map fun later => (byte :: later.1, later.2)

/-- A string, after its opening quote. -/
def readString (text : Bytes) : Option (Bytes × Bytes) := readChars (text.length + 1) text

/-! ## Numbers -/

/-- The integer part: a zero, or digits that do not start with one. -/
def readInteger (text : Bytes) : Option (Bytes × Bytes) :=
  match text.takeWhile isDigit with
  | [] => none
  | first :: rest =>
    if first = 48 then some ([48], text.drop 1)
    else some (first :: rest, text.dropWhile isDigit)

/-- Digits behind a mark that was read. -/
def readDigitsAfter (mark text : Bytes) : Option (Bytes × Bytes) :=
  if text.takeWhile isDigit = [] then none
  else some (mark ++ text.takeWhile isDigit, text.dropWhile isDigit)

/-- The fraction, when there is one. -/
def readFraction : Bytes → Option (Bytes × Bytes)
  | [] => some ([], [])
  | c :: text => if c = 46 then readDigitsAfter [46] text else some ([], c :: text)

/-- The exponent, when there is one. -/
def readExponent : Bytes → Option (Bytes × Bytes)
  | [] => some ([], [])
  | c :: text =>
    if c = 101 || c = 69 then
      match text with
      | sign :: digits =>
        if sign = 43 || sign = 45 then readDigitsAfter [c, sign] digits
        else readDigitsAfter [c] text
      | [] => none
    else some ([], c :: text)

/-- A number with its spelling. -/
def readNumber (text : Bytes) : Option (Bytes × Bytes) :=
  let sign := if text.head? = some 45 then [45] else []
  match readInteger (text.drop sign.length) with
  | none => none
  | some (whole, text) =>
    match readFraction text with
    | none => none
    | some (fraction, text) =>
      match readExponent text with
      | none => none
      | some (exponent, text) => some (sign ++ whole ++ fraction ++ exponent, text)

/-! ## Values -/

/-- A word with its value. -/
def readWord (word : Bytes) (value : Json) (text : Bytes) : Option (Json × Bytes) :=
  if word.isPrefixOf text then some (value, text.drop word.length) else none

mutual

/-- One value off the front of a text. -/
def readValue : Nat → Bytes → Option (Json × Bytes)
  | 0, _ => none
  | fuel + 1, text =>
    match skipBlank text with
    | [] => none
    | c :: rest =>
      if c = 34 then (readString rest).map fun read => (.string read.1, read.2)
      else if c = 123 then
        if (skipBlank rest).head? = some 125 then some (.object [], (skipBlank rest).drop 1)
        else (readMembers fuel rest).map fun read => (.object read.1, read.2)
      else if c = 91 then
        if (skipBlank rest).head? = some 93 then some (.array [], (skipBlank rest).drop 1)
        else (readItems fuel rest).map fun read => (.array read.1, read.2)
      else if c = 45 || isDigit c then
        (readNumber (c :: rest)).map fun read => (.number read.1, read.2)
      else
        (readWord (ascii "true") (.bool true) (c :: rest)).or
          ((readWord (ascii "false") (.bool false) (c :: rest)).or
            (readWord (ascii "null") .null (c :: rest)))

/-- The members of an object up to its closing brace. -/
def readMembers : Nat → Bytes → Option (List (Bytes × Json) × Bytes)
  | 0, _ => none
  | fuel + 1, text =>
    match skipBlank text with
    | [] => none
    | quote :: text =>
      if quote ≠ 34 then none
      else
        match readString text with
        | none => none
        | some (key, text) =>
          match skipBlank text with
          | [] => none
          | colon :: text =>
            if colon ≠ 58 then none
            else
              match readValue fuel text with
              | none => none
              | some (value, text) =>
                match skipBlank text with
                | [] => none
                | c :: text =>
                  if c = 125 then some ([(key, value)], text)
                  else if c = 44 then
                    (readMembers fuel text).map fun later => ((key, value) :: later.1, later.2)
                  else none

/-- The items of an array up to its closing bracket. -/
def readItems : Nat → Bytes → Option (List Json × Bytes)
  | 0, _ => none
  | fuel + 1, text =>
    match readValue fuel text with
    | none => none
    | some (value, text) =>
      match skipBlank text with
      | [] => none
      | c :: text =>
        if c = 93 then some ([value], text)
        else if c = 44 then (readItems fuel text).map fun later => (value :: later.1, later.2)
        else none

end

/-- One value off the front of a text, whatever its depth. -/
def read (text : Bytes) : Option (Json × Bytes) := readValue (text.length + 1) text

end Json

end StreamPipeline
