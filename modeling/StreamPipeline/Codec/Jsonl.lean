import StreamPipeline.Lib.Decimal

/-!
# JSON Lines getters

Every getter parses its line anew, takes one field of the object and checks its type. The parser
behind them is a parameter: it returns a tree and the text after it. Integers come out of a
double only when they are integral and within the exact range, in either direction.
-/

namespace StreamPipeline.Codec

/-- A double as `strtod` returns it. -/
inductive Double where
  /-- A finite value. -/
  | finite (value : Rat)
  /-- An overflow, with its sign. -/
  | infinite (negative : Bool)
  deriving DecidableEq

/-- A parsed tree, with the strings and doubles the items hold. -/
inductive Item where
  /-- `null`. -/
  | null
  /-- `true` or `false`. -/
  | bool (value : Bool)
  /-- A number, by its `valuedouble`. -/
  | number (valuedouble : Double)
  /-- A string, by its `valuestring`. -/
  | string (valuestring : CStr)
  /-- An array. -/
  | array (items : List Item)
  /-- An object, its members in order. -/
  | object (members : List (CStr × Item))

/-- The JSON library: `cJSON_ParseWithOpts` with the text at `parse_end`, and the printed form
of a string item. -/
structure CJson where
  /-- The tree of a text and what follows it; none when there is no tree. -/
  parseWithOpts : CStr → Option (Item × Bytes)
  /-- `cJSON_PrintUnformatted` of `cJSON_CreateString`. -/
  printString : CStr → CStr

/-- `JSONL_MAX_SAFE_INTEGER`. -/
abbrev jsonlMaxSafeInteger : Rat := 9007199254740991

/-- `parse_object`: the members of the one object on the line, white space allowed after it. -/
def parseObject (cjson : CJson) (line : CStr) : Option (List (CStr × Item)) :=
  match cjson.parseWithOpts line with
  | some (.object members, rest) => if rest.dropWhile isSpace = [] then some members else none
  | _ => none

/-- `get_item`: the first member of that name. -/
def getItem (cjson : CJson) (line key : CStr) : Option Item :=
  (parseObject cjson line).bind fun members =>
    (members.find? fun member => member.1 = key).map Prod.snd

/-- `jsonl_get_string` into a buffer. -/
def jsonlGetString (cjson : CJson) (line key : CStr) (outSize : Nat) : Option CStr :=
  match getItem cjson line key with
  | some (.string valuestring) =>
    if outSize ≤ valuestring.bytes.length then none else some valuestring
  | _ => none

/-- `jsonl_get_int64`. -/
def jsonlGetInt64 (cjson : CJson) (line key : CStr) : Option Int64 :=
  match getItem cjson line key with
  | some (.number (.finite value)) =>
    if value < -jsonlMaxSafeInteger ∨ jsonlMaxSafeInteger < value then none
    else
      let v := value.num.tdiv value.den
      if (v : Rat) ≠ value then none else some (.ofInt v)
  | _ => none

/-- `jsonl_get_uint64`. -/
def jsonlGetUInt64 (cjson : CJson) (line key : CStr) : Option UInt64 :=
  match getItem cjson line key with
  | some (.number (.finite value)) =>
    if value < 0 ∨ jsonlMaxSafeInteger < value then none
    else
      let v := value.num.tdiv value.den
      if (v : Rat) ≠ value then none else some (.ofNat v.toNat)
  | _ => none

/-- `jsonl_get_bool`. -/
def jsonlGetBool (cjson : CJson) (line key : CStr) : Option Bool :=
  match getItem cjson line key with
  | some (.bool value) => some value
  | _ => none

/-- `jsonl_is_object`. -/
def jsonlIsObject (cjson : CJson) (line : CStr) : Bool := (parseObject cjson line).isSome

/-- `jsonl_get_scalar_text` into a buffer; `printItem` is `cJSON_PrintUnformatted` of an item that
is not a string. -/
def jsonlGetScalarText (cjson : CJson) (printItem : Item → Option CStr) (line key : CStr)
    (outSize : Nat) : Option CStr :=
  match getItem cjson line key with
  | none | some (.object _) | some (.array _) => none
  | some (.string valuestring) =>
    if outSize ≤ valuestring.bytes.length then none else some valuestring
  | some item =>
    match printItem item with
    | none => none
    | some printed => if outSize ≤ printed.bytes.length then none else some printed

/-- `jsonl_write_string`: the bytes it appends. -/
def jsonlWriteString (cjson : CJson) (value : CStr) : Bytes := (cjson.printString value).bytes

end StreamPipeline.Codec
