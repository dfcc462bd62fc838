/-!
Forms of commands: their options, an operand without a name, and the commands below them. Arguments
are read by their form.
-/

namespace SpatialQuery.CommandLine

/-- Why arguments are no command. Help and the version may be asked for. -/
inductive Usage where
  | help
  | version
  | missingCommand
  | unknownCommand
  | unknownArgument
  | missingValue
  | unexpectedValue
  | invalidValue
  | conflict
  | missingArgument
  deriving DecidableEq, Repr

/-- What follows an option. -/
inductive Shape where
  | switch
  | value
  /-- A value each time the option is given. -/
  | values
  deriving DecidableEq, Repr

structure Parameter where
  name : String
  shape : Shape := .value
  check : String → Except Usage Unit := fun _ => .ok ()
  required : Bool := false
  /-- The parameter is required where that one is missing. -/
  alternative : Option String := none
  /-- With the parameter, these are required. -/
  needs : List String := []
  /-- The parameter does not go with these. -/
  excludes : List String := []

structure Form where
  name : String
  operand : Option Parameter := none
  options : List Parameter := []
  forms : List Form := []
  versioned : Bool := false

def Form.parameters (f : Form) : List Parameter :=
  f.operand.toList ++ f.options

/-- The arguments of a command, and the names by which it is reached. -/
structure Invocation where
  path : List String
  given : List (String × List String)
  deriving DecidableEq, Repr

namespace Invocation

def has (i : Invocation) (name : String) : Bool :=
  (List.lookup name i.given).isSome

def values (i : Invocation) (name : String) : List String :=
  (i.given.filter (·.1 == name)).flatMap (·.2)

def get? (i : Invocation) (name : String) : Option String :=
  (i.values name).head?

end Invocation

/-- What has been read. The last parameter may wait for its value, which is taken up once the next
argument is known. -/
structure Progress where
  given : List (String × List String) := []
  pending : Option (Parameter × List String) := none
  operandTaken : Bool := false
  /-- The arguments that follow are operands. -/
  trailing : Bool := false

namespace Progress

def has (s : Progress) (name : String) : Bool :=
  (List.lookup name s.given).isSome

/-- Takes up a parameter. Only one that has values may be given twice. -/
def take (s : Progress) (p : Parameter) (values : List String) : Except Usage Progress := do
  if p.shape != .values && s.has p.name then throw .conflict
  values.forM p.check
  return { s with given := s.given ++ [(p.name, values)], pending := none }

/-- Takes up the parameter that waits. -/
def settle (s : Progress) : Except Usage Progress :=
  match s.pending with
  | none => .ok s
  | some (_, []) => .error .missingValue
  | some (p, values) => s.take p values

/-- A parameter waits for its value. -/
def isWaiting (s : Progress) : Bool :=
  s.pending.any fun (_, values) => values.isEmpty

/-- The name behind two hyphens, and the value behind the equals sign. -/
def splitLong (cs : List Char) : String × Option String :=
  match cs.dropWhile (· != '=') with
  | [] => (String.ofList cs, none)
  | _ :: value => (String.ofList (cs.takeWhile (· != '=')), some (String.ofList value))

/-- Asks for help or for the version, once what waits is taken up. -/
def ask (s : Progress) (u : Usage) (attached : Option String) : Except Usage Progress :=
  match attached with
  | some _ => .error .unexpectedValue
  | none =>
    match s.settle with
    | .error e => .error e
    | .ok _ => .error u

def readLong (f : Form) (s : Progress) (cs : List Char) : Except Usage Progress := do
  let (name, attached) := splitLong cs
  if name == "help" then s.ask .help attached
  else if name == "version" && f.versioned then s.ask .version attached
  else match f.options.find? (·.name == name) with
    | none => .error .unknownArgument
    | some p =>
      match p.shape, attached with
      | .switch, some _ => .error .unexpectedValue
      | .switch, none => (← s.settle).take p []
      | _, some value => (← s.settle).take p [value]
      | _, none => return { ← s.settle with pending := some (p, []) }

/-- Only help and the version have one letter. -/
def readShort (f : Form) (s : Progress) (c : Char) : Except Usage Progress :=
  if c == 'h' then s.ask .help none
  else if c == 'V' && f.versioned then s.ask .version none
  else .error .unknownArgument

def readOperand (f : Form) (s : Progress) (a : String) : Except Usage Progress := do
  match f.operand with
  | some p =>
    if s.operandTaken then throw .unknownArgument
    return { ← s.settle with pending := some (p, [a]), operandTaken := true }
  | none =>
    if f.forms.isEmpty || s.trailing && f.forms.any (·.name == a) then throw .unknownArgument
    throw .unknownCommand

/-- Reads an argument that is no command. -/
def read (f : Form) (s : Progress) (a : String) : Except Usage Progress :=
  if s.trailing then readOperand f s a
  else match a.toList with
    | ['-', '-'] => .ok { s with trailing := true }
    | '-' :: '-' :: cs => readLong f s cs
    | '-' :: c :: _ => readShort f s c
    | _ =>
      match s.pending with
      | some (p, []) => .ok { s with pending := some (p, [a]) }
      | _ => readOperand f s a

end Progress

namespace Form

/-- Two parameters do not go together. -/
def clash (p q : Parameter) : Bool :=
  p.excludes.contains q.name || q.excludes.contains p.name

/-- A parameter is missing. It is not, where it would clash with one that is given. -/
def isMissing (given : List Parameter) (p : Parameter) : Bool :=
  let has (name : String) := given.any (·.name == name)
  !has p.name &&
    ((p.required || given.any (·.needs.contains p.name)) && !given.any (clash p) ||
      p.alternative.any fun other => !has other)

/-- Checks that arguments go together and that none is missing. -/
def finish (f : Form) (s : Progress) : Except Usage Invocation := do
  let s ← s.settle
  if !f.forms.isEmpty then throw .missingCommand
  let given := f.parameters.filter fun p => s.has p.name
  if given.any fun p => given.any (clash p) then throw .conflict
  if f.parameters.any (isMissing given) then throw .missingArgument
  return ⟨[], s.given⟩

/-- Reads arguments from the left. -/
def readFrom (f : Form) (s : Progress) : List String → Except Usage Invocation
  | [] => f.finish s
  | a :: rest =>
    match if s.trailing || s.isWaiting then none else f.forms.find? (·.name == a) with
    | some form => (readFrom form {} rest).map fun i => { i with path := a :: i.path }
    | none =>
      match s.read f a with
      | .error u => .error u
      | .ok s => readFrom f s rest

def read (f : Form) (arguments : List String) : Except Usage Invocation :=
  f.readFrom {} arguments

end Form

end SpatialQuery.CommandLine
