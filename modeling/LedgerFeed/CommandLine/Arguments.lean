/-!
# Arguments of a command

A command takes options, which have long names, and operands. The value of an option is the next
argument or follows an equals sign; a value that starts with a hyphen needs the equals sign, unless
it is the hyphen alone. After an argument of two hyphens all are operands. An option is given once
unless it may be repeated.
-/

namespace LedgerFeed.CommandLine

/-- What follows the name of an option. -/
inductive OptionShape
  /-- Nothing: the option is there or not. -/
  | flag
  /-- One value. -/
  | value
  /-- One value each time. -/
  | values
  deriving DecidableEq, Repr

/-- The options of a command, by their names without the hyphens. -/
abbrev OptionTable := List (String × OptionShape)

/-- An argument with its meaning. -/
inductive Argument
  | option (name value : String)
  | flag (name : String)
  | operand (value : String)
  deriving DecidableEq, Repr

/-- The argument starts with a hyphen and is not the hyphen alone. -/
def startsOption (s : String) : Bool :=
  match s.toList with
  | '-' :: _ :: _ => true
  | _ => false

/-- The name of an option and the value after the equals sign, if the argument is an option. -/
def splitOption? (s : String) : Option (String × Option String) :=
  match s.toList with
  | '-' :: '-' :: rest =>
    let name := String.ofList (rest.takeWhile (· ≠ '='))
    match rest.dropWhile (· ≠ '=') with
    | _ :: value => some (name, some (String.ofList value))
    | [] => some (name, none)
  | _ => none

/-- What an option is for a command: an argument, or a name that waits for its value. -/
def option? (table : OptionTable) (name : String) (value : Option String) :
    Option (Argument ⊕ String) :=
  match table.lookup name, value with
  | none, _ => none
  | some .flag, none => some (.inl (.flag name))
  | some .flag, some _ => none
  | some _, some v => some (.inl (.option name v))
  | some _, none => some (.inr name)

/-- The arguments of a command with their meanings. The first argument may be the value that an
option waits for. -/
def arguments? (table : OptionTable) : Option String → List String → Option (List Argument)
  | none, [] => some []
  | some _, [] => none
  | some name, a :: rest =>
    if startsOption a then none else (arguments? table none rest).map (.option name a :: ·)
  | none, a :: rest =>
    if a = "--" then some (rest.map .operand)
    else if !startsOption a then (arguments? table none rest).map (.operand a :: ·)
    else
      match (splitOption? a).bind fun (name, value) => option? table name value with
      | none => none
      | some (.inl argument) => (arguments? table none rest).map (argument :: ·)
      | some (.inr name) => arguments? table (some name) rest

/-- What a command has been given. -/
structure Arguments where
  options : List (String × String)
  flags : List String
  operands : List String
  deriving DecidableEq, Repr

namespace Arguments

/-- Arguments by their kind. -/
def ofList : List Argument → Arguments
  | [] => ⟨[], [], []⟩
  | a :: rest =>
    let r := ofList rest
    match a with
    | .option name value => { r with options := (name, value) :: r.options }
    | .flag name => { r with flags := name :: r.flags }
    | .operand value => { r with operands := value :: r.operands }

/-- An option is given as often as it may be. -/
def respects (a : Arguments) (entry : String × OptionShape) : Bool :=
  match entry.2 with
  | .flag => a.flags.count entry.1 ≤ 1
  | .value => (a.options.map Prod.fst).count entry.1 ≤ 1
  | .values => true

/-- The arguments of a command. -/
def parse? (table : OptionTable) (s : List String) : Option Arguments := do
  let a := ofList (← arguments? table none s)
  if table.all a.respects then some a else none

/-- The option is given. -/
def has (a : Arguments) (name : String) : Bool :=
  a.flags.contains name

/-- The value of an option, if it is given. -/
def value? (a : Arguments) (name : String) : Option String :=
  a.options.lookup name

/-- All values of an option in their order. -/
def values (a : Arguments) (name : String) : List String :=
  a.options.filterMap fun o => if o.1 = name then some o.2 else none

/-- The value of an option, if it is given, read by a rule that must accept it. -/
def read? {α : Type} (a : Arguments) (name : String) (rule : String → Option α) :
    Option (Option α) :=
  match a.value? name with
  | none => some none
  | some s => (rule s).map some

end Arguments

end LedgerFeed.CommandLine
