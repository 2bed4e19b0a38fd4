import StreamPipeline.Lib.Getopt
import StreamPipeline.Store.Main

/-!
# The arguments of `clip_store`

The argument loop keeps one variable for the mode and one for the argument of each mode. A mode
given later replaces one given earlier, and the variable of the mode that is left is the one its
own option set, so no mode runs without its argument.
-/

namespace StreamPipeline.Store

open Getopt

/-- The values of `long_options`. -/
inductive StoreOption where
  /-- `'d'`. -/
  | db
  /-- `'t'`. -/
  | ttl
  /-- `1000`. -/
  | set
  /-- `1001`. -/
  | get
  /-- `1002`. -/
  | list
  /-- `1003`. -/
  | withPrefix
  /-- `1004`. -/
  | delete
  /-- `1005`. -/
  | compact
  /-- `1006`. -/
  | gc
  /-- `'h'`. -/
  | help
  deriving DecidableEq

/-- `"d:t:h"` and `long_options`. -/
def storeTable : Table StoreOption where
  short letter :=
    if letter = 100 then some (true, .db)
    else if letter = 116 then some (true, .ttl)
    else if letter = 104 then some (false, .help)
    else none
  long := [
    ⟨ascii "db", true, .db⟩, ⟨ascii "ttl", true, .ttl⟩, ⟨ascii "set", true, .set⟩,
    ⟨ascii "get", true, .get⟩, ⟨ascii "list", false, .list⟩,
    ⟨ascii "prefix", true, .withPrefix⟩, ⟨ascii "delete", true, .delete⟩,
    ⟨ascii "compact", false, .compact⟩, ⟨ascii "gc", false, .gc⟩, ⟨ascii "help", false, .help⟩]

/-- `clip_mode_t`. -/
inductive ClipMode where
  /-- `MODE_APPEND`. -/
  | append
  /-- `MODE_SET`. -/
  | set
  /-- `MODE_GET`. -/
  | get
  /-- `MODE_DELETE`. -/
  | delete
  /-- `MODE_LIST`. -/
  | list
  /-- `MODE_PREFIX`. -/
  | withPrefix
  /-- `MODE_COMPACT`. -/
  | compact

/-- The variables of the argument loop. -/
structure Arguments where
  /-- `db`. -/
  db : Option CStr := none
  /-- `ttl_arg`. -/
  ttlArg : CStr := .ofBytes (ascii "3600")
  /-- `mode`. -/
  mode : ClipMode := .append
  /-- `set_arg`. -/
  setArg : Option CStr := none
  /-- `get_key`. -/
  getKey : Option CStr := none
  /-- `delete_key`. -/
  deleteKey : Option CStr := none
  /-- `prefix`. -/
  prefixArg : Option CStr := none

/-- What an option does to the variables. -/
def Arguments.after (args : Arguments) (given : Given StoreOption) : Arguments :=
  match given.val with
  | .db => { args with db := given.optarg }
  | .ttl => { args with ttlArg := given.optarg.getD args.ttlArg }
  | .set => { args with mode := .set, setArg := given.optarg }
  | .get => { args with mode := .get, getKey := given.optarg }
  | .list => { args with mode := .list }
  | .withPrefix => { args with mode := .withPrefix, prefixArg := given.optarg }
  | .delete => { args with mode := .delete, deleteKey := given.optarg }
  | .compact | .gc => { args with mode := .compact }
  | .help => args

/-- One turn of the argument loop; `--help` leaves with `0`. -/
def Arguments.take (args : Arguments) (given : Given StoreOption) : Except Nat Arguments :=
  if given.val = .help then .error 0 else .ok (args.after given)

/-- The mode with its argument; none where the argument is `NULL`. -/
def Arguments.selected (args : Arguments) (stdin : Bytes) : Option Mode :=
  match args.mode with
  | .append => some (.append stdin)
  | .set => args.setArg.map .set
  | .get => args.getKey.map .get
  | .delete => args.deleteKey.map .delete
  | .list => some .list
  | .withPrefix => args.prefixArg.map .withPrefix
  | .compact => some .compact

/-- `clip_store_main` up to the check of the database path: the status it leaves with, or the
variables. Without `--db` the first operand is the path. -/
def storeArguments (args : List CStr) : Except Nat Arguments :=
  let scan := storeTable.scan args
  (scan.loop Arguments.take 1 {}).bind fun last =>
    match last.db.or scan.operands.head? with
    | none => .error 1
    | some db => .ok { last with db := some db }

/-- What the variables ask for; none where the argument of the mode is `NULL`. -/
structure Command where
  /-- `db`. -/
  db : CStr
  /-- `ttl_arg`. -/
  ttlArg : CStr
  /-- The mode with its argument. -/
  mode : Mode

/-- The command of the variables. -/
def Arguments.command (args : Arguments) (stdin : Bytes) : Option Command :=
  args.db.bind fun db => (args.selected stdin).map fun mode => ⟨db, args.ttlArg, mode⟩

/-- The mode an option asks for. -/
def requested (given : Given StoreOption) : Option Mode :=
  match given.val with
  | .set => given.optarg.map .set
  | .get => given.optarg.map .get
  | .list => some .list
  | .withPrefix => given.optarg.map .withPrefix
  | .delete => given.optarg.map .delete
  | .compact | .gc => some .compact
  | _ => none

/-- The values of `clip_store` that come with an argument. -/
def StoreOption.arity : StoreOption → Bool
  | .db | .ttl | .set | .get | .withPrefix | .delete => true
  | _ => false

/-- They do so by every name they have. -/
theorem storeTable_arity : storeTable.Arity StoreOption.arity := by
  constructor
  · intro letter hasArg val found
    simp only [storeTable] at found
    split_ifs at found <;> simp_all [StoreOption.arity]
    all_goals (obtain ⟨rfl, rfl⟩ := found; rfl)
  · decide

/-- `--help` leaves with `0`. -/
def helps (given : Given StoreOption) : Option Nat := if given.val = .help then some 0 else none

/-- One turn leaves at `--help` and goes on otherwise. -/
theorem take_eq (args : Arguments) (given : Given StoreOption) :
    args.take given = (helps given).elim (.ok (args.after given)) .error := by
  rw [Arguments.take, helps]
  split <;> rfl

/-- The selected mode is that of the last mode option. -/
theorem selected_after (stdin : Bytes) (args : Arguments) {given : Given StoreOption}
    (full : given.optarg.isSome = given.val.arity) :
    (args.after given).selected stdin =
      ((requested given).map some).getD (args.selected stdin) := by
  obtain ⟨val, optarg⟩ := given
  cases val <;> cases optarg <;>
    simp_all [StoreOption.arity, Arguments.after, Arguments.selected, requested]

/-- A path that is set. -/
theorem db_after (args : Arguments) {given : Given StoreOption}
    (full : given.optarg.isSome = given.val.arity) :
    (args.after given).db =
      ((if given.val = .db then given.optarg else none).map some).getD args.db := by
  obtain ⟨val, optarg⟩ := given
  cases val <;> cases optarg <;> simp_all [StoreOption.arity, Arguments.after]

/-- A lifetime that is set. -/
theorem ttlArg_after (args : Arguments) (given : Given StoreOption) :
    (args.after given).ttlArg =
      (if given.val = .ttl then given.optarg else none).getD args.ttlArg := by
  obtain ⟨val, optarg⟩ := given
  cases val <;> rfl

/-- The loop leaves exactly when help is asked for. -/
theorem findSome?_helps (given : List (Given StoreOption)) :
    given.findSome? helps = if ∃ one ∈ given, one.val = .help then some 0 else none := by
  induction given with
  | nil => simp
  | cons one given ih =>
    rw [List.findSome?_cons, ih, helps]
    by_cases here : one.val = .help <;> simp [here]

/-- The last of some values, each in its own option. -/
theorem getLast?_filterMap_some {α β : Type} (sets : α → Option β) (given : List α) :
    (given.filterMap fun one => (sets one).map some).getLast? =
      ((given.filterMap sets).getLast?).map some := by
  rw [← List.map_filterMap, List.getLast?_map]

/-- For every command line: a `--help` that is read wins, then a refused element over what is
missing, and otherwise each variable is that of its last option, so the mode that runs is the last
one asked for and has its own argument. -/
theorem storeArguments_eq (args : List CStr) (stdin : Bytes) :
    (storeArguments args).map (fun last => last.command stdin) =
      if ∃ given ∈ (storeTable.scan args).given, given.val = .help then .error 0
      else if (storeTable.scan args).refused then .error 1
      else
        match ((storeTable.scan args).lastArg .db).or (storeTable.scan args).operands.head? with
        | none => .error 1
        | some db => .ok (some {
            db
            ttlArg := ((storeTable.scan args).lastArg .ttl).getD (.ofBytes (ascii "3600"))
            mode := (((storeTable.scan args).given.filterMap requested).getLast?).getD
              (.append stdin) }) := by
  have full := storeTable.sound_scan storeTable_arity args
  rw [storeArguments]
  generalize storeTable.scan args = scan at full
  have mode := foldl_last (fun args => args.selected stdin)
    (fun state one member => selected_after stdin state (full one member)) {}
  have db := foldl_last Arguments.db
    (fun state one member => @db_after state one (full one member)) {}
  have ttl := foldl_last Arguments.ttlArg
    (fun state one (_ : one ∈ scan.given) => ttlArg_after state one) {}
  rw [getLast?_filterMap_some] at mode db
  rw [Scan.loop, foldlM_eq take_eq scan.given, findSome?_helps]
  generalize scan.given.foldl Arguments.after {} = last at mode db ttl
  by_cases help : ∃ given ∈ scan.given, given.val = .help
  · simp only [if_pos help]
    rfl
  · simp only [if_neg help]
    cases refused : scan.refused with
    | true => rfl
    | false =>
      have lastDb : last.db = scan.lastArg .db := by
        rw [db, Scan.lastArg]
        cases (scan.given.filterMap fun one => if one.val = .db then one.optarg else none).getLast? <;>
          rfl
      show Except.map _ (match last.db.or scan.operands.head? with | none => _ | some db => _) = _
      rw [lastDb]
      cases (scan.lastArg .db).or scan.operands.head? with
      | none => rfl
      | some path =>
        have kept : ({ last with db := some path } : Arguments).selected stdin =
            some (((scan.given.filterMap requested).getLast?).getD (.append stdin)) := by
          show last.selected stdin = _
          rw [mode]
          cases (scan.given.filterMap requested).getLast? <;> rfl
        have lifetime : last.ttlArg = (scan.lastArg .ttl).getD (.ofBytes (ascii "3600")) := ttl
        rw [← lifetime, if_neg (by decide)]
        show Except.ok (Option.map _ (Arguments.selected _ stdin)) = _
        rw [kept]
        rfl

end StreamPipeline.Store
