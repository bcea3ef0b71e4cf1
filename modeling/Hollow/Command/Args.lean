/-!
# Command lines

Arguments are read from left to right, and the first complaint ends the reading.  An option that
takes its value from the next argument, like a positional argument, is settled only when another
known argument follows or the line ends: until then a complaint about an unknown argument comes
first.
-/

namespace Hollow

/-- Why a command line is not carried out. -/
inductive Usage where
  | displayHelp
  | displayVersion
  /-- Nothing was asked for, so help is shown. -/
  | displayHelpOnMissing
  | missingSubcommand
  | missingRequiredArgument
  | invalidSubcommand
  | unknownArgument
  | invalidValue
  | tooManyValues
  | argumentConflict
  deriving DecidableEq, Repr

/-- Whether the user asked for the answer, so that it is no error. -/
def Usage.isRequested : Usage → Bool
  | .displayHelp | .displayVersion => true
  | _ => false

/-- What a command is asked to do. -/
inductive Action where
  /-- Judge every supported file under a path. -/
  | scan
  /-- Show the empty declaration at a position. -/
  | at
  /-- Judge a declaration tree given as JSON. -/
  | tree
  deriving DecidableEq, Repr

namespace Action

/-- The action that a word names. -/
def ofName? : String → Option Action
  | "scan" | "check" => some .scan
  | "at" => some .at
  | "tree" => some .tree
  | _ => none

/-- Whether the positional argument is a path, which must not be empty. -/
def takesPath : Action → Bool
  | .at => false
  | _ => true

/-- Whether everything can be asked to be shown. -/
def mayShowAll : Action → Bool
  | .at => false
  | _ => true

/-- Whether empty declarations can be asked to count as failure. -/
def mayFailOnEmpty : Action → Bool
  | .scan => true
  | _ => false

end Action

/-- A command line that can be carried out. -/
structure Invocation where
  action : Action
  /-- The positional argument: a path or a position. -/
  subject : String
  config : Option String := none
  format : String := "pretty"
  failOnEmpty : Bool := false
  showAll : Bool := false
  /-- How often more log output was asked for. -/
  verbosity : Nat := 0
  deriving DecidableEq, Repr

namespace Args

/-- Something that takes a value. -/
inductive Slot where
  | config
  | format
  | subject
  deriving DecidableEq, Repr

/-- Something that is on or off. -/
inductive Switch where
  | failOnEmpty
  | showAll
  deriving DecidableEq, Repr

/-- What a name on the command line stands for. -/
inductive Meaning where
  | verbose
  | help
  | switch (s : Switch)
  | option (s : Slot)
  deriving DecidableEq, Repr

/-- The meaning of a long name. -/
def longMeaning (action : Action) : String → Option Meaning
  | "verbose" => some .verbose
  | "help" => some .help
  | "config" => some (.option .config)
  | "format" => some (.option .format)
  | "fail-on-empty" => if action.mayFailOnEmpty then some (.switch .failOnEmpty) else none
  | "show-all" => if action.mayShowAll then some (.switch .showAll) else none
  | _ => none

/-- The meaning of a single letter. -/
def shortMeaning : Char → Option Meaning
  | 'v' => some .verbose
  | 'h' => some .help
  | 'c' => some (.option .config)
  | 'f' => some (.option .format)
  | _ => none

/-- What has been read of the arguments of a command. -/
structure State where
  values : List (Slot × String) := []
  switches : List Switch := []
  verbosity : Nat := 0
  /-- A slot that has yet to be settled, and its value if there is one. -/
  pending : Option (Slot × Option String) := none
  /-- Two dashes have been read, so that only positional arguments follow. -/
  isTrailing : Bool := false

/-- Give a slot its value. -/
def State.fill (s : State) (action : Action) (slot : Slot) (value : String) :
    Except Usage State :=
  let isPath := match slot with
    | .config => true
    | .format => false
    | .subject => action.takesPath
  if s.values.any (·.1 == slot) then .error .argumentConflict
  else if isPath && value == "" then .error .invalidValue
  else .ok { s with values := (slot, value) :: s.values }

/-- Settle what is pending. -/
def State.settle (s : State) (action : Action) : Except Usage State :=
  match s.pending with
  | none => .ok s
  | some (_, none) => .error .invalidValue
  | some (slot, some value) => { s with pending := none }.fill action slot value

/-- The greatest count of requests for more log output. -/
def verbosityLimit : Nat := 255

/-- One more request for log output. -/
def moreVerbose (n : Nat) : Nat := min (n + 1) verbosityLimit

/-- Take in a flag or an option that is known; an option may have its value attached. -/
def State.take (s : State) (action : Action) (attached : Option String) :
    Meaning → Except Usage State
  | .verbose => (s.settle action).map fun s => { s with verbosity := moreVerbose s.verbosity }
  | .help =>
    match s.settle action with
    | .error usage => .error usage
    | .ok _ => .error .displayHelp
  | .switch w =>
    match s.settle action with
    | .error usage => .error usage
    | .ok s =>
      if s.switches.contains w then .error .argumentConflict
      else .ok { s with switches := w :: s.switches }
  | .option slot =>
    match s.settle action with
    | .error usage => .error usage
    | .ok s =>
      match attached with
      | some value => s.fill action slot value
      | none => .ok { s with pending := some (slot, none) }

/-- A name and the value attached to it with an equals sign. -/
def splitAttached (cs : List Char) : String × Option String :=
  let name := cs.takeWhile (· != '=')
  match cs.drop name.length with
  | [] => (String.ofList name, none)
  | _ :: value => (String.ofList name, some (String.ofList value))

/-- Read a long argument, without its dashes. -/
def State.readLong (s : State) (action : Action) (cs : List Char) : Except Usage State :=
  let (name, attached) := splitAttached cs
  match longMeaning action name with
  | none => .error .unknownArgument
  | some (.option slot) => s.take action attached (.option slot)
  | some meaning =>
    match attached with
    | some _ => .error .tooManyValues
    | none => s.take action none meaning

/-- Read the letters of a short argument, without its dash.  An option takes the rest of the
letters as its value. -/
def State.readShort (action : Action) (s : State) : List Char → Except Usage State
  | [] => .ok s
  | c :: cs =>
    match shortMeaning c with
    | none => .error .unknownArgument
    | some (.option slot) =>
      let attached := match cs with
        | [] => none
        | '=' :: value => some (String.ofList value)
        | value => some (String.ofList value)
      s.take action attached (.option slot)
    | some meaning =>
      match s.take action none meaning with
      | .error usage => .error usage
      | .ok s' => readShort action s' cs

/-- Read an argument that is no option: the value of the pending option, or the subject. -/
def State.readValue (s : State) (action : Action) (arg : String) : Except Usage State :=
  match s.isTrailing, s.pending with
  | false, some (slot, none) => .ok { s with pending := some (slot, some arg) }
  | _, _ =>
    let isSurplus := s.values.any (·.1 == .subject) ||
      s.pending.any fun p => p.1 == .subject && p.2.isSome
    if isSurplus then .error .unknownArgument
    else (s.settle action).map fun s => { s with pending := some (.subject, some arg) }

/-- Read one argument of a command. -/
def State.read (action : Action) (s : State) (arg : String) : Except Usage State :=
  if s.isTrailing then s.readValue action arg
  else match arg.toList with
    | ['-', '-'] => .ok { s with isTrailing := true }
    | '-' :: '-' :: cs => s.readLong action cs
    | '-' :: c :: cs => s.readShort action (c :: cs)
    | _ => s.readValue action arg

/-- Read the arguments of a command.  A count of requests for log output replaces the one given
in front of the command. -/
def parseCommand (verbosity : Nat) (action : Action) (args : List String) :
    Except Usage Invocation :=
  match args.foldlM (State.read action) ({} : State) with
  | .error usage => .error usage
  | .ok read =>
    match read.settle action with
    | .error usage => .error usage
    | .ok s =>
      match s.values.lookup .subject with
      | none => .error .missingRequiredArgument
      | some subject =>
        .ok { action, subject, config := s.values.lookup .config
              format := (s.values.lookup .format).getD "pretty"
              failOnEmpty := s.switches.contains .failOnEmpty
              showAll := s.switches.contains .showAll
              verbosity := if s.verbosity = 0 then verbosity else s.verbosity }

/-- Read the letters of a short argument in front of the command. -/
def readShort (verbosity : Nat) : List Char → Except Usage Nat
  | [] => .ok verbosity
  | 'v' :: cs => readShort (moreVerbose verbosity) cs
  | 'h' :: _ => .error .displayHelp
  | 'V' :: _ => .error .displayVersion
  | _ => .error .unknownArgument

/-- Read a long argument in front of the command, without its dashes. -/
def readLong (verbosity : Nat) (cs : List Char) : Except Usage Nat :=
  let (name, attached) := splitAttached cs
  if name ∉ ["verbose", "help", "version"] then .error .unknownArgument
  else if attached.isSome then .error .tooManyValues
  else if name = "help" then .error .displayHelp
  else if name = "version" then .error .displayVersion
  else .ok (moreVerbose verbosity)

/-- What is wrong when help is asked for by the command of that name. -/
def helpFor : List String → Usage
  | [] => .displayHelp
  | ["help"] => .displayHelp
  | [name] => if (Action.ofName? name).isSome then .displayHelp else .invalidSubcommand
  | _ => .invalidSubcommand

/-- The complaint about a word behind two dashes in front of the command. -/
def strayWord (word : String) : Usage :=
  if word = "help" ∨ (Action.ofName? word).isSome then .unknownArgument else .invalidSubcommand

/-- Read a command line up to the name of the command.  `isFirst` tells whether nothing but two
dashes has been read. -/
def parseFrom (isFirst : Bool) (verbosity : Nat) : List String → Except Usage Invocation
  | [] => .error (if isFirst then .displayHelpOnMissing else .missingSubcommand)
  | arg :: args =>
    match arg.toList with
    | ['-', '-'] =>
      match args with
      | [] => .error (if isFirst then .displayHelpOnMissing else .missingSubcommand)
      | word :: _ => .error (strayWord word)
    | '-' :: '-' :: cs =>
      match readLong verbosity cs with
      | .error usage => .error usage
      | .ok v => parseFrom false v args
    | '-' :: c :: cs =>
      match readShort verbosity (c :: cs) with
      | .error usage => .error usage
      | .ok v => parseFrom false v args
    | _ =>
      if arg = "help" then .error (helpFor args)
      else match Action.ofName? arg with
        | none => .error .invalidSubcommand
        | some action => parseCommand verbosity action args

/-- Read a command line without the name of the program. -/
def parse (args : List String) : Except Usage Invocation := parseFrom true 0 args

end Args

end Hollow
