import StreamPipeline.Merge.Fsm
import StreamPipeline.Codec.Reader

/-!
# Clip records on standard output

`emit_clip` prints a clip as one line of JSON. The session id and the path go between the quotes
as they are, while the tags go through the printer of the JSON library. `ReadsBack` is what the
consumers of the line need of it; `emitClip_readsBack_iff` says for which session ids and source
directories it holds.
-/

namespace StreamPipeline.Merge

open Codec
open Json (Plain Reads quoted Field itemsText boolToken)

/-- The start of the clip in seconds; the division truncates. -/
def ClipRecord.tsSec (clip : ClipRecord) : Int64 := clip.startTsMs / 1000

/-- `lp_build_artifact_path` into `PATH_MAX` bytes. -/
def buildArtifactPath (dir name : CStr) : Option CStr :=
  let path := dir ++ CStr.ofBytes (ascii "/") ++ name
  if path.bytes.length < pathMax then some path else none

/-- The path of the clip's artifact, when it fits. -/
def clipPath (clip : ClipRecord) (src session : CStr) : Option CStr :=
  let filename :=
    session ++ CStr.ofBytes (ascii "_") ++ CStr.ofWord clip.tsSec ++ CStr.ofBytes (ascii ".bin")
  if pathMax ≤ filename.bytes.length then none else buildArtifactPath src filename

/-- `sm_event_set_append_json`. -/
def EventSet.appendJson (cjson : CJson) (set : EventSet) : Bytes :=
  ascii "[" ++ itemsText (set.items.map fun tag => (cjson.printString tag).bytes) ++ ascii "]"

/-- The bytes printed for an open clip. -/
def clipText (cjson : CJson) (clip : ClipRecord) (session path : CStr) (complete : Bool) :
    Bytes :=
  ascii "\x7b\"type\":\"clip\"," ++
  (ascii "\"session_id\":\"" ++ session.bytes ++ ascii "\",") ++
  (ascii "\"ts\":" ++ decimal clip.tsSec.toInt ++ ascii ",") ++
  (ascii "\"path\":\"" ++ path.bytes ++ ascii "\",") ++
  (ascii "\"offset\":" ++ decimal clip.startOffset.toNat ++ ascii ",") ++
  (ascii "\"length\":" ++ decimal clip.totalLength.toNat ++ ascii ",") ++
  (ascii "\"complete\":" ++ boolToken complete) ++
  (if clip.events.items = [] then [] else ascii ",\"events\":" ++ clip.events.appendJson cjson) ++
  ascii "\x7d\n"

/-- `emit_clip`: the printed bytes, or none when the path does not fit. -/
def emitClip (cjson : CJson) (clip : ClipRecord) (src session : CStr) (complete : Bool) :
    Option Bytes :=
  if clip.active then
    (clipPath clip src session).map fun path => clipText cjson clip session path complete
  else some []

/-- The line is one line with one object, and the getters read the clip back from it. -/
structure ReadsBack (cjson : CJson) (line : Bytes) (session path : CStr) (clip : ClipRecord)
    (complete : Bool) : Prop where
  /-- There is one line feed, at the end. -/
  oneLine : ∃ body, line = body ++ [lf] ∧ lf ∉ body
  /-- The line holds one object. -/
  object : (parseObject cjson (.ofBytes line)).isSome
  /-- The session id, into any buffer that holds it. -/
  session : ∀ outSize, session.bytes.length < outSize →
    jsonlGetString cjson (.ofBytes line) (.ofBytes (ascii "session_id")) outSize = some session
  /-- The path, into any buffer that holds it. -/
  path : ∀ outSize, path.bytes.length < outSize →
    jsonlGetString cjson (.ofBytes line) (.ofBytes (ascii "path")) outSize = some path
  /-- The start in seconds, inside the exact range. -/
  ts : clip.tsSec.toInt.natAbs < 2 ^ 53 →
    jsonlGetInt64 cjson (.ofBytes line) (.ofBytes (ascii "ts")) = some clip.tsSec
  /-- The offset, inside the exact range. -/
  offset : clip.startOffset.toNat < 2 ^ 53 →
    jsonlGetUInt64 cjson (.ofBytes line) (.ofBytes (ascii "offset")) = some clip.startOffset
  /-- The length, inside the exact range. -/
  length : clip.totalLength.toNat < 2 ^ 53 →
    jsonlGetUInt64 cjson (.ofBytes line) (.ofBytes (ascii "length")) = some clip.totalLength
  /-- The flag. -/
  complete : jsonlGetBool cjson (.ofBytes line) (.ofBytes (ascii "complete")) = some complete

/-! ## The members of the line -/

/-- The member `"type":"clip"`. -/
def typeField : Field :=
  ⟨ascii "type", quoted (ascii "clip"), .string (ascii "clip"), by decide,
    Json.reads_quoted (by decide)⟩

/-- A member that holds a plain text. -/
def textField (key text : Bytes) (plainKey : Plain key) (plain : Plain text) : Field :=
  ⟨key, quoted text, .string text, plainKey, Json.reads_quoted plain⟩

/-- A member that holds an integer. -/
def numberField (key : Bytes) (value : Int) (plainKey : Plain key) : Field :=
  ⟨key, decimal value, .number (decimal value), plainKey, Json.reads_decimal value⟩

/-- The members up to the path, when the session id is plain. -/
def fieldsBeforePath (clip : ClipRecord) {session : CStr} (plain : Plain session.bytes) :
    List Field :=
  [typeField, textField (ascii "session_id") session.bytes (by decide) plain,
    numberField (ascii "ts") clip.tsSec.toInt (by decide)]

/-- The members up to the flag. -/
def fieldsBeforeFlag (clip : ClipRecord) {session path : CStr} (plain : Plain session.bytes)
    (plainPath : Plain path.bytes) : List Field :=
  fieldsBeforePath clip plain ++
    [textField (ascii "path") path.bytes (by decide) plainPath,
      numberField (ascii "offset") clip.startOffset.toNat (by decide),
      numberField (ascii "length") clip.totalLength.toNat (by decide)]

/-- The flag. -/
def flagField (complete : Bool) : Field :=
  ⟨ascii "complete", boolToken complete, .bool complete, by decide, Json.reads_bool complete⟩

/-- The text between the braces, when the session id and the path are plain. -/
def membersText (cjson : CJson) (clip : ClipRecord) {session path : CStr} (complete : Bool)
    (plain : Plain session.bytes) (plainPath : Plain path.bytes) : Bytes :=
  Field.front (fieldsBeforeFlag clip plain plainPath) ++ ((flagField complete).text ++
    if clip.events.items = [] then []
    else 44 :: (quoted (ascii "events") ++ 58 :: clip.events.appendJson cjson))

section Line

variable (cjson : CJson) (clip : ClipRecord) (session path : CStr) (complete : Bool)

/-- The line, token by token. -/
theorem clipText_eq : clipText cjson clip session path complete =
    123 :: (quoted (ascii "type") ++ 58 :: (quoted (ascii "clip") ++
      44 :: (quoted (ascii "session_id") ++ 58 :: (quoted session.bytes ++
      44 :: (quoted (ascii "ts") ++ 58 :: (decimal clip.tsSec.toInt ++
      44 :: (quoted (ascii "path") ++ 58 :: (quoted path.bytes ++
      44 :: (quoted (ascii "offset") ++ 58 :: (decimal clip.startOffset.toNat ++
      44 :: (quoted (ascii "length") ++ 58 :: (decimal clip.totalLength.toNat ++
      44 :: (quoted (ascii "complete") ++ 58 :: (boolToken complete ++
      ((if clip.events.items = [] then []
        else 44 :: (quoted (ascii "events") ++ 58 :: clip.events.appendJson cjson)) ++
        [125, 10]))))))))))))))) := by
  have opens : ascii "\x7b\"type\":\"clip\"," =
      123 :: (quoted (ascii "type") ++ 58 :: (quoted (ascii "clip") ++ [44])) := by decide
  have key : ascii "\"session_id\":\"" = quoted (ascii "session_id") ++ [58, 34] := by decide
  have close : ascii "\"," = [34, 44] := by decide
  have ts : ascii "\"ts\":" = quoted (ascii "ts") ++ [58] := by decide
  have comma : ascii "," = [44] := by decide
  have artifact : ascii "\"path\":\"" = quoted (ascii "path") ++ [58, 34] := by decide
  have offset : ascii "\"offset\":" = quoted (ascii "offset") ++ [58] := by decide
  have length : ascii "\"length\":" = quoted (ascii "length") ++ [58] := by decide
  have flag : ascii "\"complete\":" = quoted (ascii "complete") ++ [58] := by decide
  have events : ascii ",\"events\":" = 44 :: (quoted (ascii "events") ++ [58]) := by decide
  have ends : ascii "\x7d\n" = [125, 10] := by decide
  rw [clipText, opens, key, close, ts, comma, artifact, offset, length, flag, events, ends]
  simp only [quoted, List.append_assoc, List.cons_append, List.nil_append]

/-- The line up to the session id. -/
theorem clipText_session : ∃ rest, clipText cjson clip session path complete =
    123 :: (Field.front [typeField] ++
      (quoted (ascii "session_id") ++
        58 :: (quoted session.bytes ++ 44 :: 34 :: 116 :: rest))) := by
  have next : quoted (ascii "ts") = [34, 116, 115, 34] := by decide
  rw [clipText_eq, next]
  simp only [Field.front, Field.text, typeField, List.flatMap_cons, List.flatMap_nil,
    List.append_assoc, List.cons_append, List.nil_append, List.append_nil]
  exact ⟨_, rfl⟩

/-- The line of a plain session id, up to the path. -/
theorem clipText_path (plain : Plain session.bytes) :
    ∃ rest, clipText cjson clip session path complete =
      123 :: (Field.front (fieldsBeforePath clip plain) ++
        (quoted (ascii "path") ++ 58 :: (quoted path.bytes ++ 44 :: 34 :: 111 :: rest))) := by
  have next : quoted (ascii "offset") = 34 :: 111 :: (ascii "ffset" ++ [34]) := by decide
  rw [clipText_eq, next]
  simp only [Field.front, Field.text, fieldsBeforePath, typeField, textField, numberField,
    List.flatMap_cons, List.flatMap_nil, List.append_assoc, List.cons_append, List.nil_append,
    List.append_nil]
  exact ⟨_, rfl⟩

/-- The line of a plain session id and a plain path. -/
theorem clipText_members (plain : Plain session.bytes) (plainPath : Plain path.bytes) :
    clipText cjson clip session path complete =
      123 :: (membersText cjson clip complete plain plainPath ++ 125 :: [lf]) := by
  rw [clipText_eq]
  simp only [membersText, Field.front, Field.text, fieldsBeforeFlag, fieldsBeforePath, flagField,
    typeField, textField, numberField, lf, List.flatMap_cons, List.flatMap_nil,
    List.append_assoc, List.cons_append, List.nil_append, List.append_nil]

/-- The bytes of a printed tag list are brackets, commas and the bytes of its tags. -/
theorem mem_appendJson {set : EventSet} {byte : UInt8} (member : byte ∈ set.appendJson cjson) :
    byte = 91 ∨ byte = 93 ∨ byte = 44 ∨ ∃ tag, byte ∈ (cjson.printString tag).bytes := by
  have opens : ascii "[" = [91] := by decide
  have closes : ascii "]" = [93] := by decide
  rw [EventSet.appendJson, opens, closes] at member
  simp only [List.mem_append, List.mem_singleton] at member
  rcases member with (first | inside) | last
  · exact .inl first
  · rcases Json.mem_itemsText inside with comma | ⟨token, printed, deeper⟩
    · exact .inr (.inr (.inl comma))
    · obtain ⟨tag, -, rfl⟩ := List.mem_map.mp printed
      exact .inr (.inr (.inr ⟨tag, deeper⟩))
  · exact .inr (.inl last)

/-- The line ends in a line feed. A control byte in front of it comes from the session id, the
path or a printed tag. -/
theorem clipText_body : ∃ body, clipText cjson clip session path complete = body ++ [lf] ∧
    ∀ byte < 32, byte ∉ session.bytes → byte ∉ path.bytes →
      (∀ tag, byte ∉ (cjson.printString tag).bytes) → byte ∉ body := by
  have ends : ascii "\x7d\n" = [125] ++ [lf] := by decide
  rw [clipText, ends, ← List.append_assoc]
  refine ⟨_, rfl, ?_⟩
  intro byte control inSession inPath inTags
  have literal {text : Bytes} (printable : Json.Printable text) : byte ∉ text := by
    intro member
    exact absurd (printable byte member) (UInt8.not_le.mpr control)
  have digits (value : Int) : byte ∉ decimal value :=
    not_mem_decimal value (UInt8.lt_trans control (by decide))
  have flag : byte ∉ boolToken complete := by
    apply literal
    cases complete <;> decide
  have tags : byte ∉ clip.events.appendJson cjson := by
    intro member
    rcases mem_appendJson cjson member with rfl | rfl | rfl | ⟨tag, inside⟩
    · contradiction
    · contradiction
    · contradiction
    · exact inTags tag inside
  simp only [List.mem_append, not_or]
  refine ⟨⟨⟨⟨⟨⟨⟨⟨literal (by decide), ⟨literal (by decide), inSession⟩, literal (by decide)⟩,
    ⟨literal (by decide), digits _⟩, literal (by decide)⟩,
    ⟨literal (by decide), inPath⟩, literal (by decide)⟩,
    ⟨literal (by decide), digits _⟩, literal (by decide)⟩,
    ⟨literal (by decide), digits _⟩, literal (by decide)⟩, literal (by decide), flag⟩, ?_⟩,
    literal (by decide)⟩
  split
  · simp
  · simp only [List.mem_append, not_or]
    exact ⟨literal (by decide), tags⟩

/-- The line is a whole string. -/
theorem zero_notMem_clipText : 0 ∉ clipText cjson clip session path complete := by
  obtain ⟨body, split, clean⟩ := clipText_body cjson clip session path complete
  have inside := clean 0 (by decide) session.nulFree path.nulFree
    fun tag => (cjson.printString tag).nulFree
  rw [split, List.mem_append, not_or]
  exact ⟨inside, by decide⟩

end Line

section Getters

variable {cjson : CJson} {strtod : Bytes → Double} (exact : cjson.Exact strtod)

include exact

/-- The printed tags are an array token. -/
theorem reads_appendJson {set : EventSet} (tagged : set.items ≠ []) :
    ∃ value, Reads (set.appendJson cjson) value := by
  choose inside decoded shape read using exact.prints
  let tokens := set.items.map fun tag => (34 :: inside tag, Json.string (decoded tag))
  have texts : tokens.map Prod.fst = set.items.map fun tag => (cjson.printString tag).bytes := by
    simp [tokens, shape]
  have nonempty : tokens ≠ [] := by simpa [tokens] using tagged
  have opens : ascii "[" = [91] := by decide
  have closes : ascii "]" = [93] := by decide
  refine ⟨.array (tokens.map Prod.snd), ?_⟩
  rw [EventSet.appendJson, opens, closes, ← texts]
  apply Json.reads_array nonempty
  · intro token member
    obtain ⟨tag, -, rfl⟩ := List.mem_map.mp member
    exact Json.reads_string (read tag)
  · intro token member
    obtain ⟨tag, -, rfl⟩ := List.mem_map.mp member
    rfl

variable (clip : ClipRecord) {session path : CStr} (complete : Bool)
  (plain : Plain session.bytes) (plainPath : Plain path.bytes)

/-- The text of plain members between braces, with white space behind it, is one object: the
members, and the tags behind them. -/
theorem parseObject_members {line : CStr} {blank : Bytes}
    (shape : line.bytes = 123 :: (membersText cjson clip complete plain plainPath ++ 125 :: blank))
    (white : blank.dropWhile isSpace = []) : ∃ more,
    parseObject cjson line =
      some (membersOf strtod ((fieldsBeforeFlag clip plain plainPath ++
        [flagField complete]).map Field.member ++ more)) := by
  by_cases tags : clip.events.items = []
  · have alone : line.bytes = 123 :: (Field.front (fieldsBeforeFlag clip plain plainPath) ++
        ((flagField complete).text ++ 125 :: blank)) := by
      rw [shape]
      simp [membersText, tags]
    refine ⟨[], ?_⟩
    have parsed := parseObject_fields exact _ (flagField complete) alone white
    simpa using parsed
  · obtain ⟨value, reads⟩ := reads_appendJson exact tags
    let events : Field := ⟨ascii "events", clip.events.appendJson cjson, value, by decide, reads⟩
    have longer : line.bytes =
        123 :: (Field.front (fieldsBeforeFlag clip plain plainPath ++ [flagField complete]) ++
          (events.text ++ 125 :: blank)) := by
      rw [shape]
      simp [membersText, tags, Field.front, Field.text, events]
    refine ⟨[events.member], ?_⟩
    exact parseObject_fields exact _ events longer white

/-- A member up to the flag is found under its name. -/
theorem getItem_members {line : CStr} {blank : Bytes}
    (shape : line.bytes = 123 :: (membersText cjson clip complete plain plainPath ++ 125 :: blank))
    (white : blank.dropWhile isSpace = []) (front : List Field) (field : Field)
    (later : List Field)
    (split : fieldsBeforeFlag clip plain plainPath ++ [flagField complete] =
      front ++ field :: later)
    (fresh : CStr.ofBytes field.key ∉ names front) :
    getItem cjson line (.ofBytes field.key) = some (itemOf strtod field.value) := by
  obtain ⟨more, parsed⟩ := parseObject_members exact clip complete plain plainPath shape white
  rw [split, List.map_append, List.map_cons, List.append_assoc, List.cons_append] at parsed
  rw [getItem, parsed]
  exact find_member strtod front field fresh _

/-- A printed tag holds no control bytes. -/
theorem printable_printString {byte : UInt8} (control : byte < 32) (tag : CStr) :
    byte ∉ (cjson.printString tag).bytes := by
  obtain ⟨inside, decoded, shape, read⟩ := exact.prints tag
  rw [shape]
  intro member
  rcases List.mem_cons.mp member with rfl | deeper
  · contradiction
  · exact absurd (Json.printable_of_readString read byte deeper) (UInt8.not_le.mpr control)

include plain plainPath

/-- The getters read a line of plain texts back. -/
theorem readsBack_of_plain :
    ReadsBack cjson (clipText cjson clip session path complete) session path clip complete := by
  have whole := CStr.bytes_ofBytes (zero_notMem_clipText cjson clip session path complete)
  have shape := whole.trans (clipText_members cjson clip session path complete plain plainPath)
  have white : [lf].dropWhile isSpace = [] := by decide
  have item := getItem_members exact clip complete plain plainPath shape white
  constructor
  case oneLine =>
    obtain ⟨body, split, clean⟩ := clipText_body cjson clip session path complete
    refine ⟨body, split, clean lf (by decide) ?_ ?_ (printable_printString exact (by decide))⟩
    · intro member
      exact absurd (plain lf member).2.2 (by decide)
    · intro member
      exact absurd (plainPath lf member).2.2 (by decide)
  case object =>
    obtain ⟨more, parsed⟩ := parseObject_members exact clip complete plain plainPath shape white
    rw [parsed]
    rfl
  case session =>
    intro outSize room
    have found := item [typeField] (textField (ascii "session_id") session.bytes (by decide) plain)
      _ rfl (show CStr.ofBytes (ascii "session_id") ∉ [CStr.ofBytes (ascii "type")] by decide)
    rw [textField, itemOf, CStr.ofBytes_bytes] at found
    rw [jsonlGetString, found]
    exact if_neg (Nat.not_le.mpr room)
  case path =>
    intro outSize room
    have found := item (fieldsBeforePath clip plain)
      (textField (ascii "path") path.bytes (by decide) plainPath) _ rfl
      (show CStr.ofBytes (ascii "path") ∉ [CStr.ofBytes (ascii "type"),
        CStr.ofBytes (ascii "session_id"), CStr.ofBytes (ascii "ts")] by decide)
    rw [textField, itemOf, CStr.ofBytes_bytes] at found
    rw [jsonlGetString, found]
    exact if_neg (Nat.not_le.mpr room)
  case ts =>
    intro small
    apply jsonlGetInt64_decimal exact (by omega)
    exact item [typeField, textField (ascii "session_id") session.bytes (by decide) plain]
      (numberField (ascii "ts") clip.tsSec.toInt (by decide)) _ rfl
      (show CStr.ofBytes (ascii "ts") ∉ [CStr.ofBytes (ascii "type"),
        CStr.ofBytes (ascii "session_id")] by decide)
  case offset =>
    intro small
    apply jsonlGetUInt64_decimal exact (by omega)
    exact item (fieldsBeforePath clip plain ++
        [textField (ascii "path") path.bytes (by decide) plainPath])
      (numberField (ascii "offset") clip.startOffset.toNat (by decide)) _ rfl
      (show CStr.ofBytes (ascii "offset") ∉ [CStr.ofBytes (ascii "type"),
        CStr.ofBytes (ascii "session_id"), CStr.ofBytes (ascii "ts"),
        CStr.ofBytes (ascii "path")] by decide)
  case length =>
    intro small
    apply jsonlGetUInt64_decimal exact (by omega)
    exact item (fieldsBeforePath clip plain ++
        [textField (ascii "path") path.bytes (by decide) plainPath,
          numberField (ascii "offset") clip.startOffset.toNat (by decide)])
      (numberField (ascii "length") clip.totalLength.toNat (by decide)) _ rfl
      (show CStr.ofBytes (ascii "length") ∉ [CStr.ofBytes (ascii "type"),
        CStr.ofBytes (ascii "session_id"), CStr.ofBytes (ascii "ts"),
        CStr.ofBytes (ascii "path"), CStr.ofBytes (ascii "offset")] by decide)
  case complete =>
    have found := item (fieldsBeforeFlag clip plain plainPath) (flagField complete) [] rfl
      (show CStr.ofBytes (ascii "complete") ∉ [CStr.ofBytes (ascii "type"),
        CStr.ofBytes (ascii "session_id"), CStr.ofBytes (ascii "ts"),
        CStr.ofBytes (ascii "path"), CStr.ofBytes (ascii "offset"),
        CStr.ofBytes (ascii "length")] by decide)
    rw [flagField, itemOf] at found
    rw [jsonlGetBool, found]

end Getters

/-- The parts of a built path. -/
theorem bytes_clipPath {clip : ClipRecord} {src session path : CStr}
    (built : clipPath clip src session = some path) :
    path.bytes = src.bytes ++ ascii "/" ++
      (session.bytes ++ ascii "_" ++ decimal clip.tsSec.toInt ++ ascii ".bin") := by
  have slash : (CStr.ofBytes (ascii "/")).bytes = ascii "/" := by decide
  have under : (CStr.ofBytes (ascii "_")).bytes = ascii "_" := by decide
  have suffix : (CStr.ofBytes (ascii ".bin")).bytes = ascii ".bin" := by decide
  unfold clipPath buildArtifactPath at built
  dsimp only at built
  split at built
  · contradiction
  · split at built
    · rw [← Option.some.inj built]
      simp only [CStr.bytes_append, slash, under, suffix, CStr.ofWord]
    · contradiction

/-- The path is plain when the source directory and the session id are. -/
theorem plain_clipPath {clip : ClipRecord} {src session path : CStr}
    (built : clipPath clip src session = some path) :
    Plain path.bytes ↔ Plain src.bytes ∧ Plain session.bytes := by
  have slash : Plain (ascii "/") := by decide
  have under : Plain (ascii "_") := by decide
  have suffix : Plain (ascii ".bin") := by decide
  have number := Json.plain_decimal clip.tsSec.toInt
  rw [bytes_clipPath built]
  simp only [Json.plain_append, slash, under, suffix, number, and_true]

/-- A line the getters read back holds plain texts. -/
theorem plain_of_readsBack {cjson : CJson} {strtod : Bytes → Double}
    (exact : cjson.Exact strtod) {clip : ClipRecord} {session path : CStr} {complete : Bool}
    (back : ReadsBack cjson (clipText cjson clip session path complete) session path clip
      complete) : Plain session.bytes ∧ Plain path.bytes := by
  have whole := CStr.bytes_ofBytes (zero_notMem_clipText cjson clip session path complete)
  have key : (CStr.ofBytes (ascii "session_id")).bytes = ascii "session_id" := by decide
  have pathKey : (CStr.ofBytes (ascii "path")).bytes = ascii "path" := by decide
  have plain : Plain session.bytes := by
    obtain ⟨rest, shape⟩ := clipText_session cjson clip session path complete
    rw [← key] at shape
    have plainKey : Plain (CStr.ofBytes (ascii "session_id")).bytes := by
      rw [key]
      decide
    apply plain_of_jsonlGetString exact [typeField] plainKey (by decide) (whole.trans shape)
      (by decide)
    exact back.session (session.bytes.length + 1) (Nat.lt_succ_self _)
  obtain ⟨rest, shape⟩ := clipText_path cjson clip session path complete plain
  rw [← pathKey] at shape
  have fresh : CStr.ofBytes (ascii "path") ∉ names (fieldsBeforePath clip plain) :=
    show CStr.ofBytes (ascii "path") ∉ [CStr.ofBytes (ascii "type"),
      CStr.ofBytes (ascii "session_id"), CStr.ofBytes (ascii "ts")] by decide
  have plainKey : Plain (CStr.ofBytes (ascii "path")).bytes := by
    rw [pathKey]
    decide
  have plainPath := plain_of_jsonlGetString exact (fieldsBeforePath clip plain) plainKey
    (by decide) (whole.trans shape) fresh
    (back.path (path.bytes.length + 1) (Nat.lt_succ_self _))
  exact ⟨plain, plainPath⟩

/-- For every snapshot, session id and source directory whose path can be built, with a library
that parses exactly JSON and prints valid string tokens: the applet prints something, and what it
prints is one line that the getters read back if and only if the clip is open and neither the
session id nor the source directory holds a quote, a backslash or a control byte. -/
theorem emitClip_readsBack_iff (cjson : CJson) (strtod : Bytes → Double)
    (exact : cjson.Exact strtod) (clip : ClipRecord) (src session path : CStr)
    (built : clipPath clip src session = some path) (complete : Bool) :
    ∃ line, emitClip cjson clip src session complete = some line ∧
      (ReadsBack cjson line session path clip complete ↔
        clip.active = true ∧ Plain session.bytes ∧ Plain src.bytes) := by
  cases opened : clip.active with
  | false =>
    refine ⟨[], by simp [emitClip, opened], ?_⟩
    constructor
    · intro back
      obtain ⟨body, same, -⟩ := back.oneLine
      simp at same
    · rintro ⟨contra, -⟩
      contradiction
  | true =>
    refine ⟨clipText cjson clip session path complete, by simp [emitClip, opened, built], ?_⟩
    constructor
    · intro back
      obtain ⟨plain, plainPath⟩ := plain_of_readsBack exact back
      exact ⟨rfl, plain, ((plain_clipPath built).mp plainPath).1⟩
    · rintro ⟨-, plain, plainSrc⟩
      have plainPath := (plain_clipPath built).mpr ⟨plainSrc, plain⟩
      exact readsBack_of_plain exact clip complete plain plainPath

/-- A clip of one tagged chunk. -/
def taggedClip : ClipRecord where
  active := true
  startTsMs := 1700000012345
  endTsMs := 1700000012345
  startOffset := 4096
  totalLength := 512
  events := ⟨[CStr.ofBytes (ascii "motion")], by decide, by decide⟩

/-- A plain session id and source directory. -/
theorem emitClip_readsBack_tagged :
    ∃ line, emitClip sampleJson taggedClip (.ofBytes (ascii "/data")) (.ofBytes (ascii "cam-1"))
        true = some line ∧
      (ReadsBack sampleJson line (.ofBytes (ascii "cam-1"))
          (.ofBytes (ascii "/data/cam-1_1700000012.bin")) taggedClip true ↔
        taggedClip.active = true ∧ Plain (CStr.ofBytes (ascii "cam-1")).bytes ∧
          Plain (CStr.ofBytes (ascii "/data")).bytes) :=
  emitClip_readsBack_iff sampleJson sampleStrtod sampleJson_exact taggedClip _ _ _ (by decide) true

/-- A clip of one chunk without tags, at the epoch. -/
def plainClip : ClipRecord where
  active := true
  startTsMs := 0
  endTsMs := 0
  startOffset := 0
  totalLength := 9
  events := .reset

/-- The line printed for that clip in the directory `d` under the session id `a"b`. -/
def quotedLine : Bytes :=
  ascii "\x7b\"type\":\"clip\",\"session_id\":\"a\"b\",\"ts\":0,\"path\":\"d/a\"b_0.bin\"," ++
    ascii "\"offset\":0,\"length\":9,\"complete\":true\x7d\n"

/-- The session id `a"b` has a path and its clip is printed, but the line holds no object. -/
theorem quoted_session_unreadable :
    clipPath plainClip (.ofBytes (ascii "d")) (.ofBytes (ascii "a\"b")) =
        some (.ofBytes (ascii "d/a\"b_0.bin")) ∧
      emitClip sampleJson plainClip (.ofBytes (ascii "d")) (.ofBytes (ascii "a\"b")) true =
        some quotedLine ∧
      ¬ReadsBack sampleJson quotedLine (.ofBytes (ascii "a\"b"))
        (.ofBytes (ascii "d/a\"b_0.bin")) plainClip true := by
  have noObject : (parseObject sampleJson (.ofBytes quotedLine)).isSome = false := by
    decide +kernel
  refine ⟨by decide +kernel, by decide +kernel, ?_⟩
  intro back
  exact Bool.false_ne_true (noObject.symm.trans back.object)

end StreamPipeline.Merge
