import StreamPipeline.Lib.Bytes

/-!
# Command lines

`getopt_long` walks the arguments of a program: an element that starts with a dash holds options,
every other one is an operand and stays for the end, and `--` ends the options. A long name may
be abbreviated as long as one option remains. The walk ends where an element is refused, which
every program here answers by leaving.
-/

namespace StreamPipeline.Getopt

/-- A row of `struct option`: a long name and what it stands for. -/
structure LongOption (γ : Type) where
  /-- `name`. -/
  name : Bytes
  /-- `has_arg` is `required_argument`; it is `no_argument` otherwise. -/
  hasArg : Bool
  /-- `val`. -/
  val : γ

/-- The options of a program. -/
structure Table (γ : Type) where
  /-- The letters of `optstring`: whether a colon follows, and the value returned. -/
  short : UInt8 → Option (Bool × γ)
  /-- `longopts`. -/
  long : List (LongOption γ)

/-- An option handed out, with `optarg`. -/
structure Given (γ : Type) where
  /-- The value returned. -/
  val : γ
  /-- `optarg`; absent for `NULL`. -/
  optarg : Option CStr
  deriving DecidableEq

/-- What one element says, without the elements behind it. -/
inductive Reading (γ : Type) where
  /-- It is an operand. -/
  | operand
  /-- It is `--`. -/
  | stop
  /-- It holds these options. -/
  | options (given : List (Given γ))
  /-- It holds these options, and the last one takes the next element as its argument. -/
  | pending (given : List (Given γ)) (val : γ)
  /-- It holds these options and then something that is none. -/
  | refused (given : List (Given γ))
  deriving DecidableEq

/-- One more option in front. -/
def Reading.after {γ : Type} (first : Given γ) : Reading γ → Reading γ
  | .options given => .options (first :: given)
  | .pending given val => .pending (first :: given) val
  | .refused given => .refused (first :: given)
  | reading => reading

/-- What a walk over the arguments finds. -/
structure Scan (γ : Type) where
  /-- The options, in order. -/
  given : List (Given γ)
  /-- The walk ended with `?`. -/
  refused : Bool
  /-- The elements from `optind` on; none are looked for behind `?`. -/
  operands : List CStr
  deriving DecidableEq

/-- More options in front. -/
def Scan.after {γ : Type} (given : List (Given γ)) (scan : Scan γ) : Scan γ :=
  { scan with given := given ++ scan.given }

/-- One more operand in front. -/
def Scan.behind {γ : Type} (operand : CStr) (scan : Scan γ) : Scan γ :=
  { scan with operands := if scan.refused then [] else operand :: scan.operands }

section

variable {γ : Type} (table : Table γ)

/-- The letters behind a single dash. -/
def Table.readShort : Bytes → Reading γ
  | [] => .options []
  | letter :: rest =>
    match table.short letter with
    | none => .refused []
    | some (false, val) => (readShort rest).after ⟨val, none⟩
    | some (true, val) =>
      if rest = [] then .pending [] val else .options [⟨val, some (.ofBytes rest)⟩]

variable [DecidableEq γ]

/-- The option of a long name: the one of that name, or the only one it abbreviates. Options that
are returned alike count as one. -/
def Table.findLong (name : Bytes) : Option (LongOption γ) :=
  match table.long.find? fun option => option.name = name with
  | some option => some option
  | none =>
    match table.long.filter fun option => name.isPrefixOf option.name with
    | [] => none
    | first :: others =>
      if others.all fun other => other.hasArg = first.hasArg ∧ other.val = first.val then
        some first
      else none

/-- The text behind two dashes: a name and perhaps `=` with an argument. -/
def Table.readLong (text : Bytes) : Reading γ :=
  match table.findLong (text.takeWhile (· ≠ 61)), text.dropWhile (· ≠ 61) with
  | none, _ => .refused []
  | some option, [] => if option.hasArg then .pending [] option.val else .options [⟨option.val, none⟩]
  | some option, _ :: value =>
    if option.hasArg then .options [⟨option.val, some (.ofBytes value)⟩] else .refused []

/-- One element. A dash alone is an operand. -/
def Table.read (arg : CStr) : Reading γ :=
  match arg.bytes with
  | 45 :: 45 :: [] => .stop
  | 45 :: 45 :: text => table.readLong text
  | 45 :: letter :: rest => table.readShort (letter :: rest)
  | _ => .operand

/-- `getopt_long` until it returns `-1` or `?`, over the elements behind the program's name. -/
def Table.scan : List CStr → Scan γ
  | [] => ⟨[], false, []⟩
  | arg :: rest =>
    match table.read arg with
    | .operand => (scan rest).behind arg
    | .stop => ⟨[], false, rest⟩
    | .options given => (scan rest).after given
    | .refused given => ⟨given, true, []⟩
    | .pending given val =>
      match rest with
      | [] => ⟨given, true, []⟩
      | value :: rest => (scan rest).after (given ++ [⟨val, some value⟩])

/-- An option whose argument is the next element, whatever that is. -/
theorem Table.scan_pending {arg : CStr} {val : γ} (reads : table.read arg = .pending [] val)
    (value : CStr) (rest : List CStr) :
    table.scan (arg :: value :: rest) = (table.scan rest).after [⟨val, some value⟩] := by
  simp [scan, reads]

/-! ## Operands -/

/-- The elements that are operands whatever the options are. -/
def Operand (arg : CStr) : Prop := arg.bytes.head? ≠ some 45 ∨ arg.bytes = [45]

instance (arg : CStr) : Decidable (Operand arg) := inferInstanceAs (Decidable (_ ∨ _))

omit [DecidableEq γ] in
/-- More options in front make no operand. -/
theorem Reading.after_ne_operand {first : Given γ} {reading : Reading γ}
    (other : reading ≠ .operand) : reading.after first ≠ .operand := by
  cases reading <;> simp_all [Reading.after]

omit [DecidableEq γ] in
/-- Letters are no operand. -/
theorem Table.readShort_ne_operand (letters : Bytes) : table.readShort letters ≠ .operand := by
  induction letters with
  | nil => simp [readShort]
  | cons letter rest ih =>
    rw [readShort]
    split
    · simp
    · exact Reading.after_ne_operand ih
    · split <;> simp

/-- A long name is no operand. -/
theorem Table.readLong_ne_operand (text : Bytes) : table.readLong text ≠ .operand := by
  rw [readLong]
  split
  · simp
  · split <;> simp
  · split <;> simp

/-- Which elements are operands does not depend on the options. -/
theorem Table.read_eq_operand_iff (arg : CStr) : table.read arg = .operand ↔ Operand arg := by
  rw [read, Operand]
  split
  · simp_all
  · simp_all [table.readLong_ne_operand]
  · rename_i bytes
    simp [bytes, table.readShort_ne_operand]
  · rename_i notStop notLong notShort
    constructor
    · intro _
      by_cases dash : arg.bytes.head? = some 45
      · right
        obtain ⟨rest, shape⟩ := List.head?_eq_some_iff.mp dash
        cases rest with
        | nil => exact shape
        | cons letter rest => exact absurd shape (notShort letter rest)
      · exact .inl dash
    · intro _
      rfl

/-- Operands alone. -/
theorem Table.scan_operands {args : List CStr} (plain : ∀ arg ∈ args, Operand arg) :
    table.scan args = ⟨[], false, args⟩ := by
  induction args with
  | nil => rfl
  | cons arg rest ih =>
    have first := (table.read_eq_operand_iff arg).mpr (plain arg List.mem_cons_self)
    have later := ih fun other member => plain other (List.mem_cons_of_mem arg member)
    simp [scan, first, later, Scan.behind]

omit [DecidableEq γ] in
/-- One more operand counts unless the walk was refused. -/
theorem Scan.length_behind (operand : CStr) (scan : Scan γ) :
    (scan.behind operand).operands.length = if scan.refused then 0 else scan.operands.length + 1 := by
  rw [behind]
  split <;> simp_all

/-- A walk has at most as many operands as elements, and as many only when all are operands. -/
theorem Table.length_operands (args : List CStr) :
    (table.scan args).operands.length ≤ args.length ∧
      ((table.scan args).operands.length = args.length → ∀ arg ∈ args, Operand arg) := by
  induction args using Table.scan.induct table with
  | case1 => simp [scan]
  | case2 arg rest reads ih =>
    have count := Scan.length_behind arg (table.scan rest)
    have plain := (table.read_eq_operand_iff arg).mp reads
    rw [scan, reads, List.length_cons]
    dsimp only
    constructor
    · rw [count]
      split <;> omega
    · intro all
      rw [count] at all
      split at all
      · omega
      · intro other member
        rcases List.mem_cons.mp member with rfl | later
        · exact plain
        · exact ih.2 (by omega) other later
  | case3 arg rest reads => simp [scan, reads]
  | case4 arg rest given reads ih =>
    rw [scan, reads, List.length_cons]
    simp only [Scan.after]
    exact ⟨by omega, fun all => by omega⟩
  | case5 arg rest given reads => simp [scan, reads]
  | case6 arg given val reads => simp [scan, reads]
  | case7 arg given val reads value rest ih =>
    rw [scan, reads, List.length_cons, List.length_cons]
    simp only [Scan.after]
    exact ⟨by omega, fun all => by omega⟩

/-! ## Arguments of options -/

/-- The values that come with an argument, by every letter and long name they are given with. -/
def Table.Arity (arity : γ → Bool) : Prop :=
  (∀ letter hasArg val, table.short letter = some (hasArg, val) → arity val = hasArg) ∧
    ∀ option ∈ table.long, arity option.val = option.hasArg

/-- The options one element holds have the arguments they take. -/
def Reading.Sound (arity : γ → Bool) : Reading γ → Prop
  | .options given | .refused given => ∀ one ∈ given, one.optarg.isSome = arity one.val
  | .pending given val => (∀ one ∈ given, one.optarg.isSome = arity one.val) ∧ arity val = true
  | _ => True

omit [DecidableEq γ] in
/-- One more option in front. -/
theorem Reading.sound_after {arity : γ → Bool} {first : Given γ} {reading : Reading γ}
    (same : first.optarg.isSome = arity first.val) (sound : reading.Sound arity) :
    (reading.after first).Sound arity := by
  cases reading <;> simp_all [Reading.after, Reading.Sound]

omit [DecidableEq γ] in
/-- Letters have the arguments they take. -/
theorem Table.sound_readShort {arity : γ → Bool} (known : table.Arity arity) (letters : Bytes) :
    (table.readShort letters).Sound arity := by
  induction letters with
  | nil => simp [readShort, Reading.Sound]
  | cons letter rest ih =>
    rw [readShort]
    split
    · simp [Reading.Sound]
    · rename_i val found
      exact Reading.sound_after (known.1 _ _ _ found).symm ih
    · rename_i val found
      have takes := known.1 _ _ _ found
      split <;> simp [Reading.Sound, takes]

/-- A long name stands for a row of the table. -/
theorem Table.mem_of_findLong {name : Bytes} {option : LongOption γ}
    (found : table.findLong name = some option) : option ∈ table.long := by
  rw [findLong] at found
  split at found
  · rename_i other exact
    rw [← Option.some.inj found]
    exact List.mem_of_find?_eq_some exact
  · split at found
    · contradiction
    · rename_i first others rows
      split at found
      · rw [← Option.some.inj found]
        have member : first ∈ first :: others := List.mem_cons_self
        rw [← rows] at member
        exact List.mem_of_mem_filter member
      · contradiction

/-- A long name has the argument it takes. -/
theorem Table.sound_readLong {arity : γ → Bool} (known : table.Arity arity) (text : Bytes) :
    (table.readLong text).Sound arity := by
  rw [readLong]
  split
  · simp [Reading.Sound]
  · rename_i option found _
    have takes := known.2 option (table.mem_of_findLong found)
    split <;> simp_all [Reading.Sound]
  · rename_i option _ _ found _
    have takes := known.2 option (table.mem_of_findLong found)
    split <;> simp_all [Reading.Sound]

/-- The options of one element have the arguments they take. -/
theorem Table.sound_read {arity : γ → Bool} (known : table.Arity arity) (arg : CStr) :
    (table.read arg).Sound arity := by
  rw [read]
  split
  · trivial
  · exact table.sound_readLong known _
  · exact table.sound_readShort known _
  · trivial

/-- The options of a walk have the arguments they take. -/
theorem Table.sound_scan {arity : γ → Bool} (known : table.Arity arity) (args : List CStr) :
    ∀ one ∈ (table.scan args).given, one.optarg.isSome = arity one.val := by
  have element := table.sound_read known
  induction args using Table.scan.induct table with
  | case1 => simp [scan]
  | case2 arg rest reads ih =>
    rw [scan, reads]
    exact ih
  | case3 arg rest reads => simp [scan, reads]
  | case4 arg rest given reads ih =>
    have here := element arg
    rw [reads] at here
    rw [scan, reads]
    intro one member
    exact (List.mem_append.mp member).elim (here one) (ih one)
  | case5 arg rest given reads =>
    have here := element arg
    rw [reads] at here
    rw [scan, reads]
    exact here
  | case6 arg given val reads =>
    have here := element arg
    rw [reads] at here
    rw [scan, reads]
    exact here.1
  | case7 arg given val reads value rest ih =>
    have here := element arg
    rw [reads] at here
    rw [scan, reads]
    intro one member
    rcases List.mem_append.mp member with first | later
    · rcases List.mem_append.mp first with before | last
      · exact here.1 one before
      · rw [List.mem_singleton.mp last]
        exact here.2.symm
    · exact ih one later

/-! ## The loop over the options -/

/-- The argument of the last option of a value. -/
def Scan.lastArg (scan : Scan γ) (val : γ) : Option CStr :=
  (scan.given.filterMap fun one => if one.val = val then one.optarg else none).getLast?


/-- `while ((opt = getopt_long(..)) != -1) switch (opt)`: each option changes the variables or
leaves with a status; the last argument but one is the status of `case '?'`. -/
def Scan.loop {σ ε : Type} (scan : Scan γ) (take : σ → Given γ → Except ε σ) (refused : ε)
    (start : σ) : Except ε σ :=
  (scan.given.foldlM take start).bind fun last => if scan.refused then .error refused else .ok last

section Loop

variable {σ ε α : Type}

omit [DecidableEq γ] in
/-- The loop leaves at the first option that leaves, and otherwise takes them all. -/
theorem foldlM_eq {take : σ → Given γ → Except ε σ} {leaves : Given γ → Option ε}
    {next : σ → Given γ → σ}
    (step : ∀ state one, take state one = (leaves one).elim (.ok (next state one)) .error)
    (given : List (Given γ)) (start : σ) :
    given.foldlM take start =
      (given.findSome? leaves).elim (.ok (given.foldl next start)) .error := by
  induction given generalizing start with
  | nil => rfl
  | cons one given ih =>
    rw [List.foldlM_cons, step start one, List.findSome?_cons]
    cases leaves one with
    | some status => rfl
    | none => exact ih (next start one)

omit [DecidableEq γ] in
/-- The loop ends well when no option leaves and no element is refused. -/
theorem Scan.loop_eq_ok {take : σ → Given γ → Except ε σ} {leaves : Given γ → Option ε}
    {next : σ → Given γ → σ}
    (step : ∀ state one, take state one = (leaves one).elim (.ok (next state one)) .error)
    {scan : Scan γ} {refused : ε} {start last : σ}
    (done : scan.loop take refused start = .ok last) :
    scan.given.findSome? leaves = none ∧ scan.refused = false ∧
      last = scan.given.foldl next start := by
  rw [loop, foldlM_eq step] at done
  generalize scan.given.findSome? leaves = left at done
  cases left with
  | some status => contradiction
  | none =>
    cases clean : scan.refused with
    | true =>
      rw [clean] at done
      contradiction
    | false =>
      rw [clean] at done
      cases done
      exact ⟨rfl, rfl, rfl⟩

omit [DecidableEq γ] in
/-- A variable that some options set holds what the last of them set. -/
theorem foldl_last (field : σ → α) {next : σ → Given γ → σ} {sets : Given γ → Option α}
    {given : List (Given γ)}
    (step : ∀ state, ∀ one ∈ given, field (next state one) = (sets one).getD (field state))
    (start : σ) :
    field (given.foldl next start) = ((given.filterMap sets).getLast?).getD (field start) := by
  induction given generalizing start with
  | nil => rfl
  | cons one given ih =>
    have here := step start one List.mem_cons_self
    have later := ih (fun state other member => step state other (.tail _ member)) (next start one)
    rw [List.foldl_cons, later, here, List.filterMap_cons]
    cases sets one with
    | none => rfl
    | some value => rw [List.getLast?_cons, Option.getD_some, Option.getD_some]

end Loop

end

end StreamPipeline.Getopt
