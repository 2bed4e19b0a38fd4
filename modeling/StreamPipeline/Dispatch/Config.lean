import StreamPipeline.Dispatch.Options
import StreamPipeline.Lib.Getopt
import StreamPipeline.Parse.Filter

/-!
# The command line of the dispatcher

The dispatcher reads its options, takes three operands and looks for the applets next to its own
binary. What it read goes into the argument vectors of the three children as it is, where it is
read a second time.
-/

namespace StreamPipeline.Dispatch

open Getopt
open Parse (defaultFilter)

/-- The values of `long_options`. -/
inductive PdOption where
  /-- `1000`. -/
  | ttl
  /-- `1001`. -/
  | clipSecs
  /-- `1002`. -/
  | idleSecs
  /-- `1003`. -/
  | filter
  /-- `'h'`. -/
  | help
  deriving DecidableEq

/-- `"h"` and `long_options`. -/
def pdTable : Table PdOption where
  short letter := if letter = 104 then some (false, .help) else none
  long := [
    ⟨ascii "ttl", true, .ttl⟩, ⟨ascii "clip-secs", true, .clipSecs⟩,
    ⟨ascii "idle-secs", true, .idleSecs⟩, ⟨ascii "filter", true, .filter⟩,
    ⟨ascii "help", false, .help⟩]

/-- `pd_config_t` with the filter and the applet paths. -/
structure Config extends PdConfig where
  /-- `filter`. -/
  filter : CStr := defaultFilter
  /-- `bin_stream_merge`. -/
  binStreamMerge : CStr := .empty
  /-- `bin_log_parse`. -/
  binLogParse : CStr := .empty
  /-- `bin_clip_store`. -/
  binClipStore : CStr := .empty

/-- The configuration before the options are read. -/
def Config.start : Config := { sessionId := none, srcDir := none, dbPath := none }

/-- What an option does to the configuration. -/
def Config.after (cfg : Config) (given : Given PdOption) : Config :=
  match given.val with
  | .ttl => { cfg with ttl := given.optarg.getD cfg.ttl }
  | .clipSecs => { cfg with clipSecs := given.optarg.getD cfg.clipSecs }
  | .idleSecs => { cfg with idleSecs := given.optarg.getD cfg.idleSecs }
  | .filter => { cfg with filter := given.optarg.getD cfg.filter }
  | .help => cfg

/-- One turn of the loop over the options; `--help` leaves with `1`. -/
def Config.take (cfg : Config) (given : Given PdOption) : Except Int Config :=
  if given.val = .help then .error 1 else .ok (cfg.after given)

/-- `strrchr(path, '/')`: the bytes before and behind the last slash. -/
def splitPath : Bytes → Option (Bytes × Bytes)
  | [] => none
  | byte :: rest =>
    match splitPath rest with
    | some (dir, name) => some (byte :: dir, name)
    | none => if byte = 47 then some ([], rest) else none

/-- `sibling_path`; the first argument is where `/proc/self/exe` leads, absent when it cannot be
read. -/
def siblingPath (exe : Option CStr) (argv0 name : CStr) : Option CStr :=
  let base :=
    match exe with
    | some exe => if exe.bytes = [] then argv0 else .ofBytes (exe.bytes.take (pathMax - 1))
    | none => argv0
  match splitPath base.bytes with
  | none =>
    let path := CStr.ofBytes (ascii "./") ++ name
    if path.bytes.length < pathMax then some path else none
  | some (dir, _) =>
    if pathMax < dir.length + 1 + name.bytes.length + 1 then none
    else some (.ofBytes dir ++ CStr.ofBytes (ascii "/") ++ name)

/-- `pd_config_parse`: the configuration, or the status that is not `0`. -/
def pdConfigParse (exe : Option CStr) (argv0 : CStr) (args : List CStr) : Except Int Config :=
  let scan := pdTable.scan args
  (scan.loop Config.take (-1) Config.start).bind fun cfg =>
    match scan.operands with
    | [sessionId, srcDir, dbPath] =>
      match siblingPath exe argv0 (.ofBytes (ascii "stream_merge")),
        siblingPath exe argv0 (.ofBytes (ascii "log_parse")),
        siblingPath exe argv0 (.ofBytes (ascii "clip_store")) with
      | some binStreamMerge, some binLogParse, some binClipStore =>
        .ok { cfg with
          sessionId := some sessionId, srcDir := some srcDir, dbPath := some dbPath
          binStreamMerge, binLogParse, binClipStore }
      | _, _, _ => .error (-1)
    | _ => .error (-1)

/-- An argument vector of `pd_pipeline_run`: a `NULL` among the arguments ends it. -/
def argv (args : List (Option CStr)) : List CStr := (args.takeWhile Option.isSome).filterMap id

/-- `merge_argv`. -/
def Config.mergeArgv (cfg : Config) : List CStr :=
  argv [cfg.binStreamMerge, CStr.ofBytes (ascii "--clip-secs"), cfg.clipSecs,
    CStr.ofBytes (ascii "--idle-secs"), cfg.idleSecs, cfg.sessionId, cfg.srcDir]

/-- `parse_argv`. -/
def Config.parseArgv (cfg : Config) : List CStr :=
  argv [cfg.binLogParse, CStr.ofBytes (ascii "--filter"), cfg.filter]

/-- `store_argv`. -/
def Config.storeArgv (cfg : Config) : List CStr :=
  argv [cfg.binClipStore, CStr.ofBytes (ascii "--db"), cfg.dbPath, CStr.ofBytes (ascii "--ttl"),
    cfg.ttl]

/-- A path is split at its last slash. -/
theorem splitPath_append (dir : Bytes) {name : Bytes} (plain : 47 ∉ name) :
    splitPath (dir ++ 47 :: name) = some (dir, name) := by
  have whole : ∀ {name : Bytes}, 47 ∉ name → splitPath name = none := by
    intro name plain
    induction name with
    | nil => rfl
    | cons byte name ih =>
      rw [List.mem_cons, not_or] at plain
      rw [splitPath, ih plain.2]
      exact if_neg (Ne.symm plain.1)
  induction dir with
  | nil => rw [List.nil_append, splitPath, whole plain]; rfl
  | cons byte dir ih => rw [List.cons_append, splitPath, ih]

/-- The path of an applet ends in a slash and its name. -/
theorem siblingPath_shape {exe : Option CStr} {argv0 name path : CStr}
    (found : siblingPath exe argv0 name = some path) :
    ∃ dir, path.bytes = dir ++ 47 :: name.bytes := by
  unfold siblingPath at found
  dsimp only at found
  split at found
  · split at found
    · rw [← Option.some.inj found]
      exact ⟨[46], rfl⟩
    · contradiction
  · rename_i dir _ _
    split at found
    · contradiction
    · rw [← Option.some.inj found]
      refine ⟨(CStr.ofBytes dir).bytes, ?_⟩
      have slash : (CStr.ofBytes (ascii "/")).bytes = [47] := by decide
      simp [slash]

/-- `--help` leaves with `1`. -/
def asksHelp (given : Given PdOption) : Option Int := if given.val = .help then some 1 else none

/-- One turn leaves at `--help` and goes on otherwise. -/
theorem Config.take_eq (cfg : Config) (given : Given PdOption) :
    cfg.take given = (asksHelp given).elim (.ok (cfg.after given)) .error := by
  rw [take, asksHelp]
  split <;> rfl

/-- The option texts of a configuration, by what the command line has last. -/
structure Reads (scan : Scan PdOption) (cfg : Config) : Prop where
  ttl : cfg.ttl = (scan.lastArg .ttl).getD (.ofBytes (ascii "300"))
  clipSecs : cfg.clipSecs = (scan.lastArg .clipSecs).getD (.ofBytes (ascii "5"))
  idleSecs : cfg.idleSecs = (scan.lastArg .idleSecs).getD (.ofBytes (ascii "2"))
  filter : cfg.filter = (scan.lastArg .filter).getD defaultFilter

/-- The loop leaves the texts given last. -/
theorem reads_foldl (scan : Scan PdOption) :
    Reads scan (scan.given.foldl Config.after Config.start) where
  ttl := foldl_last (fun cfg : Config => cfg.ttl)
    (fun _ one _ => by obtain ⟨val, optarg⟩ := one; cases val <;> rfl) Config.start
  clipSecs := foldl_last (fun cfg : Config => cfg.clipSecs)
    (fun _ one _ => by obtain ⟨val, optarg⟩ := one; cases val <;> rfl) Config.start
  idleSecs := foldl_last (fun cfg : Config => cfg.idleSecs)
    (fun _ one _ => by obtain ⟨val, optarg⟩ := one; cases val <;> rfl) Config.start
  filter := foldl_last (fun cfg : Config => cfg.filter)
    (fun _ one _ => by obtain ⟨val, optarg⟩ := one; cases val <;> rfl) Config.start

/-- What is known of a configuration that is not refused. -/
structure Parsed (exe : Option CStr) (argv0 : CStr) (scan : Scan PdOption) (cfg : Config) :
    Prop where
  reads : Reads scan cfg
  operands : ∃ sessionId srcDir dbPath, scan.operands = [sessionId, srcDir, dbPath] ∧
    cfg.sessionId = some sessionId ∧ cfg.srcDir = some srcDir ∧ cfg.dbPath = some dbPath
  binStreamMerge :
    siblingPath exe argv0 (.ofBytes (ascii "stream_merge")) = some cfg.binStreamMerge
  binLogParse : siblingPath exe argv0 (.ofBytes (ascii "log_parse")) = some cfg.binLogParse
  binClipStore : siblingPath exe argv0 (.ofBytes (ascii "clip_store")) = some cfg.binClipStore

/-- What `pd_config_parse` fills in. -/
theorem parsed_of_pdConfigParse {exe : Option CStr} {argv0 : CStr} {args : List CStr}
    {cfg : Config} (accepted : pdConfigParse exe argv0 args = .ok cfg) :
    Parsed exe argv0 (pdTable.scan args) cfg := by
  rw [pdConfigParse] at accepted
  generalize pdTable.scan args = scan at accepted
  have reads := reads_foldl scan
  cases looped : scan.loop Config.take (-1) Config.start with
  | error status =>
    rw [looped] at accepted
    contradiction
  | ok last =>
    have texts := (Scan.loop_eq_ok Config.take_eq looped).2.2
    rw [looped] at accepted
    rw [← texts] at reads
    simp only [Except.bind] at accepted
    split at accepted
    · rename_i sessionId srcDir dbPath operands
      split at accepted
      · rename_i merge parse store foundMerge foundParse foundStore
        cases accepted
        exact {
          reads := ⟨reads.ttl, reads.clipSecs, reads.idleSecs, reads.filter⟩
          operands := ⟨sessionId, srcDir, dbPath, operands, rfl, rfl, rfl⟩
          binStreamMerge := foundMerge
          binLogParse := foundParse
          binClipStore := foundStore }
      · contradiction
    · contradiction

end StreamPipeline.Dispatch
