import StreamPipeline.Dispatch.Config
import StreamPipeline.Parse.Applet
import StreamPipeline.Store.Arguments

/-!
# The children of the dispatcher

All applets are one binary that looks at the name it is run under. The dispatcher runs it three
times; each child reads its argument vector from the start, so a text the dispatcher took as an
operand may be an option there.
-/

namespace StreamPipeline.Pipeline

open Codec Dispatch Getopt Parse Store

/-- The applets. -/
inductive Applet where
  /-- `pipeline_dispatcher_main`. -/
  | pipelineDispatcher
  /-- `stream_merge_main`. -/
  | streamMerge
  /-- `log_parse_main`. -/
  | logParse
  /-- `clip_store_main`. -/
  | clipStore
  deriving DecidableEq

/-- The applet of a name; `127` for another name. -/
def selectApplet (name : Bytes) : Except Nat Applet :=
  if name = ascii "pipeline_dispatcher" then .ok .pipelineDispatcher
  else if name = ascii "stream_merge" then .ok .streamMerge
  else if name = ascii "log_parse" then .ok .logParse
  else if name = ascii "clip_store" then .ok .clipStore
  else .error 127

/-- `main`: the applet with the argument vector it gets, or the exit status. -/
def boxMain : List CStr → Except Nat (Applet × List CStr)
  | [] => .error 1
  | argv0 :: args =>
    let name :=
      match splitPath argv0.bytes with
      | some (_, name) => name
      | none => argv0.bytes
    if name = ascii "box" ∨ name = ascii "busybox" then
      match args with
      | [] => .error 1
      | applet :: rest => (selectApplet applet.bytes).map fun main => (main, applet :: rest)
    else (selectApplet name).map fun main => (main, argv0 :: args)

/-- The values of `long_options` of `stream_merge`. -/
inductive MergeOption where
  /-- `1000`. -/
  | clipSecs
  /-- `1001`. -/
  | idleSecs
  /-- `'h'`. -/
  | help
  deriving DecidableEq

/-- `"h"` and `long_options` of `stream_merge`. -/
def mergeTable : Table MergeOption where
  short letter := if letter = 104 then some (false, .help) else none
  long := [
    ⟨ascii "clip-secs", true, .clipSecs⟩, ⟨ascii "idle-secs", true, .idleSecs⟩,
    ⟨ascii "help", false, .help⟩]

/-- The variables of `stream_merge_main`; a duration is absent where its conversion is
undefined. -/
structure MergeTimes where
  /-- `clip_ms`. -/
  clipMs : Option Int64 := some 5000
  /-- `idle_ms`. -/
  idleMs : Option Int64 := some 2000

/-- One turn of the argument loop. -/
def MergeTimes.take (times : MergeTimes) (given : Given MergeOption) : Except Nat MergeTimes :=
  match given.val with
  | .clipSecs => .ok { times with clipMs := given.optarg.bind optionMs }
  | .idleSecs => .ok { times with idleMs := given.optarg.bind optionMs }
  | .help => .error 0

/-- What `stream_merge_main` runs with. -/
structure MergeArguments extends MergeTimes where
  /-- `session`. -/
  session : CStr
  /-- `src`. -/
  src : CStr

/-- `stream_merge_main` up to the paths: the status it leaves with, or the variables. -/
def mergeArguments (args : List CStr) : Except Nat MergeArguments :=
  let scan := mergeTable.scan args
  (scan.loop MergeTimes.take 1 {}).bind fun times =>
    match scan.operands with
    | session :: src :: _ => .ok { times with session, src }
    | _ => .error 1

/-! ## Names -/

/-- A child run by the path of an applet is that applet. -/
theorem boxMain_sibling {exe : Option CStr} {argv0 name path : CStr} {applet : Applet}
    (found : siblingPath exe argv0 name = some path) (plain : 47 ∉ name.bytes)
    (other : ¬(name.bytes = ascii "box" ∨ name.bytes = ascii "busybox"))
    (named : selectApplet name.bytes = .ok applet) (args : List CStr) :
    boxMain (path :: args) = .ok (applet, path :: args) := by
  have ⟨dir, shape⟩ := siblingPath_shape found
  have split := splitPath_append dir plain
  simp only [boxMain, shape, split, if_neg other, named, Except.map]

/-! ## The second reading -/

/-- `stream_merge` takes its two operands when they are operands, and leaves otherwise. -/
theorem mergeArguments_child (clipSecs idleSecs session src : CStr) :
    let result := mergeArguments [.ofBytes (ascii "--clip-secs"), clipSecs,
      .ofBytes (ascii "--idle-secs"), idleSecs, session, src]
    if Operand session ∧ Operand src then
      result = .ok { clipMs := optionMs clipSecs, idleMs := optionMs idleSecs, session, src }
    else ∃ status, result = .error status := by
  have first : mergeTable.read (.ofBytes (ascii "--clip-secs")) = .pending [] .clipSecs := by
    decide
  have second : mergeTable.read (.ofBytes (ascii "--idle-secs")) = .pending [] .idleSecs := by
    decide
  dsimp only
  rw [mergeArguments, mergeTable.scan_pending first, mergeTable.scan_pending second]
  split
  · rename_i plain
    have operands : ∀ arg ∈ [session, src], Operand arg := by simpa using plain
    rw [mergeTable.scan_operands operands]
    rfl
  · rename_i other
    have count := mergeTable.length_operands [session, src]
    have few : (mergeTable.scan [session, src]).operands.length ≠ 2 := by
      intro all
      have each := count.2 all
      exact other ⟨each session (by simp), each src (by simp)⟩
    have bound := count.1
    generalize mergeTable.scan [session, src] = scan at few bound
    dsimp only [Scan.after]
    generalize Scan.loop _ MergeTimes.take 1 {} = looped
    cases looped with
    | error status => exact ⟨status, rfl⟩
    | ok times =>
      rcases scan with ⟨given, refused, _ | ⟨one, _ | ⟨two, more⟩⟩⟩
      · exact ⟨1, rfl⟩
      · exact ⟨1, rfl⟩
      · simp only [List.length_cons, List.length_nil] at few bound
        omega

/-- `log_parse` has the filter, or leaves when the text is none. -/
theorem parseArguments_child (regcomp : CStr → Option Regex) (filter : CStr) :
    (parseArguments [.ofBytes (ascii "--filter"), filter]).bind (checkArguments regcomp) =
      match logFilterParse filter with
      | none => .error 1
      | some filter => .ok (.jsonl (some filter) false) := by
  have reads : parseTable.read (.ofBytes (ascii "--filter")) = .pending [] .filter := by decide
  rw [parseArguments, parseTable.scan_pending reads]
  have taken : Arguments.take {} ⟨.filter, some filter⟩ =
      match logFilterParse filter with
      | none => .error 1
      | some filter => .ok { filter := some filter } := rfl
  have walk : ((parseTable.scan []).after [⟨.filter, some filter⟩]).loop Arguments.take 1 {} =
      Arguments.take {} ⟨.filter, some filter⟩ := by
    show (Except.bind (Except.bind _ Except.ok) Except.ok) = _
    cases Arguments.take {} ⟨.filter, some filter⟩ <;> rfl
  rw [walk, taken]
  cases logFilterParse filter with
  | none => rfl
  | some filter => rfl

/-- `clip_store` appends to the database with the lifetime, whatever the texts are. -/
theorem storeArguments_child (dbPath ttl : CStr) (stdin : Bytes) :
    (storeArguments [.ofBytes (ascii "--db"), dbPath, .ofBytes (ascii "--ttl"), ttl]).map
        (fun last => last.command stdin) =
      .ok (some { db := dbPath, ttlArg := ttl, mode := .append stdin }) := by
  have first : storeTable.read (.ofBytes (ascii "--db")) = .pending [] .db := by decide
  have second : storeTable.read (.ofBytes (ascii "--ttl")) = .pending [] .ttl := by decide
  rw [storeArguments, storeTable.scan_pending first, storeTable.scan_pending second]
  rfl

/-- What the three children make of the options and operands of the dispatcher. -/
structure ChildrenRead (regcomp : CStr → Option Regex) (stdin : Bytes) (scan : Scan PdOption)
    (sessionId srcDir dbPath : CStr) (cfg : Config) : Prop where
  /-- Each path leads to its applet. -/
  applets : boxMain cfg.mergeArgv = .ok (.streamMerge, cfg.mergeArgv) ∧
    boxMain cfg.parseArgv = .ok (.logParse, cfg.parseArgv) ∧
      boxMain cfg.storeArgv = .ok (.clipStore, cfg.storeArgv)
  /-- `stream_merge` works on the session with the times given last, or leaves at once. -/
  merge : if Operand sessionId ∧ Operand srcDir then
      mergeArguments cfg.mergeArgv.tail = .ok {
        clipMs := optionMs ((scan.lastArg .clipSecs).getD (.ofBytes (ascii "5")))
        idleMs := optionMs ((scan.lastArg .idleSecs).getD (.ofBytes (ascii "2")))
        session := sessionId
        src := srcDir }
    else ∃ status, mergeArguments cfg.mergeArgv.tail = .error status
  /-- `log_parse` filters objects by the expression given last, or leaves when it is none. -/
  parse : (parseArguments cfg.parseArgv.tail).bind (checkArguments regcomp) =
    match logFilterParse ((scan.lastArg .filter).getD defaultFilter) with
    | none => .error 1
    | some filter => .ok (.jsonl (some filter) false)
  /-- `clip_store` appends to the database with the lifetime given last. -/
  store : (storeArguments cfg.storeArgv.tail).map (fun last => last.command stdin) =
    .ok (some {
      db := dbPath
      ttlArg := (scan.lastArg .ttl).getD (.ofBytes (ascii "300"))
      mode := .append stdin })

/-- What the children get from a configuration that `pd_config_validate` passes. -/
structure ChildrenChecked (isDirectory : CStr → Bool) (sessionId srcDir dbPath : CStr)
    (cfg : Config) : Prop where
  /-- The operands are there. -/
  operands : sessionId.bytes ≠ [] ∧ srcDir.bytes ≠ [] ∧ isDirectory srcDir = true ∧
    dbPath.bytes ≠ []
  /-- `clip_store` reads the lifetime that was checked exactly when a signed word holds it. -/
  lifetime : (∃ n ttl, strtoul cfg.ttl.bytes = some (n, false, []) ∧
      parseTtl cfg.ttl = some ttl ∧ ttl.toInt = n.toNat) ↔
    ∃ value, spelled cfg.ttl.bytes = some value ∧ 0 ≤ value ∧ value < 2 ^ 63
  /-- `stream_merge` closes clips after a positive time exactly when positive seconds were given
  whose milliseconds a word holds. -/
  clipSecs : ((∃ value, spelled cfg.clipSecs.bytes = some value ∧ 0 < value) ∧
      ∃ ms, optionMs cfg.clipSecs = some ms ∧ 0 < ms) ↔
    ∃ value, spelled cfg.clipSecs.bytes = some value ∧ 0 < value ∧ value ≤ 9223372036854774
  /-- And it is idle after a positive time exactly when these were. -/
  idleSecs : ((∃ value, spelled cfg.idleSecs.bytes = some value ∧ 0 < value) ∧
      ∃ ms, optionMs cfg.idleSecs = some ms ∧ 0 < ms) ↔
    ∃ value, spelled cfg.idleSecs.bytes = some value ∧ 0 < value ∧ value ≤ 9223372036854774

/-- The checks of the dispatcher are those the children rely on. -/
theorem childrenChecked_of_accepted {isDirectory : CStr → Bool} {executable : Bool} {cfg : Config}
    {sessionId srcDir dbPath : CStr} (session : cfg.sessionId = some sessionId)
    (src : cfg.srcDir = some srcDir) (db : cfg.dbPath = some dbPath)
    (accepted : Accepted isDirectory executable cfg.toPdConfig) :
    ChildrenChecked isDirectory sessionId srcDir dbPath cfg := by
  obtain ⟨⟨one, same, named⟩, ⟨two, found, filled, isDir⟩, ⟨three, stored, database⟩, ttl, clip,
    idle, -⟩ := accepted
  obtain rfl : sessionId = one := Option.some.inj (session.symm.trans same)
  obtain rfl : srcDir = two := Option.some.inj (src.symm.trans found)
  obtain rfl : dbPath = three := Option.some.inj (db.symm.trans stored)
  exact ⟨⟨named, filled, isDir, database⟩, lifetime_of_valid ttl, seconds_of_valid clip,
    seconds_of_valid idle⟩

/-- For every command line the dispatcher accepts: the three binaries it starts are the three
applets, `log_parse` and `clip_store` read the filter, the database and the lifetime back as they
were given last, and `stream_merge` runs with the session, the directory and the times exactly
when neither operand starts like an option. When the configuration is valid as well, the numbers
the children read are those that were checked exactly when they are positive and fit. -/
theorem children_configured (regcomp : CStr → Option Regex) (stdin : Bytes) (exe : Option CStr)
    (argv0 : CStr) (args : List CStr) (cfg : Config)
    (accepted : pdConfigParse exe argv0 args = .ok cfg) :
    ∃ sessionId srcDir dbPath, (pdTable.scan args).operands = [sessionId, srcDir, dbPath] ∧
      ChildrenRead regcomp stdin (pdTable.scan args) sessionId srcDir dbPath cfg ∧
      ∀ isDirectory executable,
        pdConfigValidate isDirectory executable cfg.toPdConfig = none →
        ChildrenChecked isDirectory sessionId srcDir dbPath cfg := by
  have parsed := parsed_of_pdConfigParse accepted
  have reads := parsed.reads
  have ⟨sessionId, srcDir, dbPath, operands, session, src, db⟩ := parsed.operands
  have merge : cfg.mergeArgv = [cfg.binStreamMerge, .ofBytes (ascii "--clip-secs"), cfg.clipSecs,
      .ofBytes (ascii "--idle-secs"), cfg.idleSecs, sessionId, srcDir] := by
    rw [Config.mergeArgv, session, src]
    rfl
  have store : cfg.storeArgv = [cfg.binClipStore, .ofBytes (ascii "--db"), dbPath,
      .ofBytes (ascii "--ttl"), cfg.ttl] := by
    rw [Config.storeArgv, db]
    rfl
  refine ⟨sessionId, srcDir, dbPath, operands, ?_, ?_⟩
  · exact {
      applets := by
        rw [merge, store]
        exact ⟨boxMain_sibling parsed.binStreamMerge (by decide) (by decide) rfl _,
          boxMain_sibling parsed.binLogParse (by decide) (by decide) rfl _,
          boxMain_sibling parsed.binClipStore (by decide) (by decide) rfl _⟩
      merge := by
        rw [merge, ← reads.clipSecs, ← reads.idleSecs]
        exact mergeArguments_child cfg.clipSecs cfg.idleSecs sessionId srcDir
      parse := by
        rw [← reads.filter]
        exact parseArguments_child regcomp cfg.filter
      store := by
        rw [store, ← reads.ttl]
        exact storeArguments_child dbPath cfg.ttl stdin }
  · intro isDirectory executable valid
    exact childrenChecked_of_accepted session src db (accepted_iff.mp valid)

/-- The arguments `-- -h data clips.db`. -/
def dashedArgs : List CStr :=
  [.ofBytes (ascii "--"), .ofBytes (ascii "-h"), .ofBytes (ascii "data"),
    .ofBytes (ascii "clips.db")]

/-- What the dispatcher makes of them. -/
def dashedConfig : Config where
  sessionId := some (.ofBytes (ascii "-h"))
  srcDir := some (.ofBytes (ascii "data"))
  dbPath := some (.ofBytes (ascii "clips.db"))
  binStreamMerge := .ofBytes (ascii "bin/stream_merge")
  binLogParse := .ofBytes (ascii "bin/log_parse")
  binClipStore := .ofBytes (ascii "bin/clip_store")

/-- A session id that `stream_merge` takes for its help option. -/
theorem children_configured_dashed :
    ∃ sessionId srcDir dbPath, (pdTable.scan dashedArgs).operands = [sessionId, srcDir, dbPath] ∧
      ChildrenRead (fun _ => none) [] (pdTable.scan dashedArgs) sessionId srcDir dbPath
        dashedConfig ∧
      ∀ isDirectory executable,
        pdConfigValidate isDirectory executable dashedConfig.toPdConfig = none →
        ChildrenChecked isDirectory sessionId srcDir dbPath dashedConfig :=
  children_configured (fun _ => none) [] none (.ofBytes (ascii "bin/pipeline_dispatcher"))
    dashedArgs dashedConfig rfl

/-- That child leaves with success and prints no clip. -/
example : mergeArguments dashedConfig.mergeArgv.tail = .error 0 := rfl

end StreamPipeline.Pipeline
