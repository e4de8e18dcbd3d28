import RvBoard.CommandLine.Options

/-!
# Reading the command line

Arguments are read from left to right. A value that stands as an argument of its own is kept until
the next known argument, and only then looked at, so that an argument that nobody knows is reported
before a value that is wrong. Behind a double dash everything is positional.
-/

set_option autoImplicit false

namespace RvBoard.CommandLine

inductive UsageError where
  | unexpectedArgument (text : String)
  | unexpectedValue (value : String) (switch : Switch)
  | missingValue (argument : String)
  | repeated (argument : String)
  | badValue (value argument : String) (reason : Option String)
  | missingFirmware
deriving DecidableEq, Repr

def UsageError.message : UsageError → String
  | unexpectedArgument text => "unexpected argument '" ++ text ++ "' found"
  | unexpectedValue value switch =>
    "unexpected value '" ++ value ++ "' for '" ++ switch.text ++ "' found; no more were expected"
  | missingValue argument => "a value is required for '" ++ argument ++ "' but none was supplied"
  | repeated argument => "the argument '" ++ argument ++ "' cannot be used multiple times"
  | badValue value argument reason =>
    "invalid value '" ++ value ++ "' for '" ++ argument ++ "'"
      ++ (match reason with
        | some reason => ": " ++ reason
        | none => "")
  | missingFirmware => "the following required arguments were not provided:"

inductive Refusal where
  | usage (error : UsageError)
  | help
  | version
deriving DecidableEq, Repr

inductive Pending where
  | nothing
  | firmware (path : String)
  | setting (setting : Setting) (value : Option String)
deriving DecidableEq, Repr

structure Reading where
  options : Options := { firmware := "" }
  hasFirmware : Bool := false
  switches : List Switch := []
  settings : List Setting := []
  pending : Pending := .nothing
deriving DecidableEq, Repr

abbrev Result := Except Refusal Reading

namespace Reading

def fail (error : UsageError) : Result :=
  .error (.usage error)

def useSetting (reading : Reading) (setting : Setting) (value : String) : Result :=
  if reading.settings.contains setting then fail (.repeated setting.text)
  else
    match reading.options.withSetting setting value with
    | .ok options =>
      .ok { reading with options := options, settings := setting :: reading.settings }
    | .error .missing => fail (.missingValue setting.text)
    | .error error => fail (.badValue value setting.text error.reason?)

def settle (reading : Reading) : Result :=
  let settled := { reading with pending := .nothing }
  match reading.pending with
  | .nothing => .ok settled
  | .firmware path =>
    if path.isEmpty then fail (.missingValue firmwareText)
    else .ok { settled with options := { settled.options with firmware := path } }
  | .setting setting none => fail (.missingValue setting.text)
  | .setting setting (some value) => settled.useSetting setting value

def useSwitch (reading : Reading) (switch : Switch) : Result := do
  let reading ← reading.settle
  match switch with
  | .help => .error .help
  | .version => .error .version
  | switch =>
    if reading.switches.contains switch then fail (.repeated switch.text)
    else
      .ok { reading with
        options := reading.options.withSwitch switch
        switches := switch :: reading.switches }

def openSetting (reading : Reading) (setting : Setting) (attached : Option String) : Result := do
  let reading ← reading.settle
  match attached with
  | some value => reading.useSetting setting value
  | none => .ok { reading with pending := .setting setting none }

def useLong (reading : Reading) (name : String) (attached : Option String) : Result :=
  match Setting.all.find? (·.long = name), Switch.all.find? (·.long = name), attached with
  | some setting, _, attached => reading.openSetting setting attached
  | none, some switch, none => reading.useSwitch switch
  | none, some switch, some value => fail (.unexpectedValue value switch)
  | none, none, _ => fail (.unexpectedArgument ("--" ++ name))

def attachedTo : List Char → Option String
  | [] => none
  | '=' :: value => some (String.ofList value)
  | value => some (String.ofList value)

/-- One letter after the other, until one of them takes the rest as its value. -/
def useShort : List Char → Reading → Result
  | [], reading => .ok reading
  | char :: rest, reading =>
    match Setting.all.find? (·.short? = some char), Switch.all.find? (·.short? = some char) with
    | some setting, _ => reading.openSetting setting (attachedTo rest)
    | none, some switch => do useShort rest (← reading.useSwitch switch)
    | none, none => fail (.unexpectedArgument (String.ofList ['-', char]))

def usePositional (reading : Reading) (text : String) : Result :=
  if reading.hasFirmware then fail (.unexpectedArgument text)
  else do
    let reading ← reading.settle
    .ok { reading with pending := .firmware text, hasFirmware := true }

def usePlain (reading : Reading) (text : String) : Result :=
  match reading.pending with
  | .setting setting none => .ok { reading with pending := .setting setting (some text) }
  | _ => reading.usePositional text

/-- The name of a long argument, and the value behind its first equals sign. -/
def splitLong (text : List Char) : String × Option String :=
  let name := text.takeWhile (· != '=')
  match text.drop name.length with
  | [] => (String.ofList name, none)
  | _ :: value => (String.ofList name, some (String.ofList value))

def useArgument (reading : Reading) (argument : String) : Result :=
  match argument.toList with
  | '-' :: '-' :: long =>
    let (name, attached) := splitLong long
    reading.useLong name attached
  | '-' :: char :: rest => useShort (char :: rest) reading
  | _ => reading.usePlain argument

def useArguments (reading : Reading) : List String → Result
  | [] => reading.settle
  | "--" :: rest => do
    let reading ← rest.foldlM usePositional reading
    reading.settle
  | argument :: rest => do (← reading.useArgument argument).useArguments rest

end Reading

def parse (arguments : List String) : Except Refusal Options := do
  let reading ← Reading.useArguments {} arguments
  if reading.hasFirmware then .ok reading.options else .error (.usage .missingFirmware)

end RvBoard.CommandLine
