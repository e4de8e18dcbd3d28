import RvBoard.CommandLine.Number

/-!
# Options of the program

The arguments that the program takes, how they are written, and what their values mean.
-/

set_option autoImplicit false

namespace RvBoard.CommandLine

inductive LogLevel where
  | trace
  | debug
  | info
  | warn
  | error
deriving DecidableEq, Repr

def LogLevel.ofName? : String → Option LogLevel
  | "trace" => some trace
  | "debug" => some debug
  | "info" => some info
  | "warn" => some warn
  | "error" => some error
  | _ => none

inductive Switch where
  | readOnly
  | gdb
  | waitGdb
  | benchmark
  | terminal
  | help
  | version
deriving DecidableEq, Repr

inductive Setting where
  | kernel
  | kernelOffset
  | drive
  | share
  | shareTag
  | memory
  | bootArguments
  | gdbPort
  | benchmarkCycles
  | logLevel
deriving DecidableEq, Repr

namespace Switch

def all : List Switch := [readOnly, gdb, waitGdb, benchmark, terminal, help, version]

def long : Switch → String
  | readOnly => "read-only"
  | gdb => "gdb"
  | waitGdb => "wait-gdb"
  | benchmark => "benchmark"
  | terminal => "terminal"
  | help => "help"
  | version => "version"

def short? : Switch → Option Char
  | gdb => some 's'
  | waitGdb => some 'S'
  | terminal => some 't'
  | help => some 'h'
  | version => some 'V'
  | _ => none

def text (switch : Switch) : String :=
  "--" ++ switch.long

end Switch

namespace Setting

def all : List Setting :=
  [kernel, kernelOffset, drive, share, shareTag, memory, bootArguments, gdbPort, benchmarkCycles,
    logLevel]

def long : Setting → String
  | kernel => "kernel"
  | kernelOffset => "kernel-offset"
  | drive => "drive"
  | share => "share"
  | shareTag => "share-tag"
  | memory => "memory"
  | bootArguments => "bootargs"
  | gdbPort => "gdb-port"
  | benchmarkCycles => "benchmark-cycles"
  | logLevel => "loglevel"

def short? : Setting → Option Char
  | kernel => some 'k'
  | drive => some 'd'
  | memory => some 'm'
  | _ => none

def valueName : Setting → String
  | kernel => "KERNEL"
  | kernelOffset => "KERNEL_OFFSET"
  | drive => "DRIVE"
  | share => "SHARE"
  | shareTag => "SHARE_TAG"
  | memory => "MEMORY"
  | bootArguments => "BOOTARGS"
  | gdbPort => "GDB_PORT"
  | benchmarkCycles => "BENCHMARK_CYCLES"
  | logLevel => "LOG_LEVEL"

def text (setting : Setting) : String :=
  "--" ++ setting.long ++ " <" ++ setting.valueName ++ ">"

end Setting

def firmwareText : String := "<FIRMWARE>"

structure Options where
  firmware : String
  kernel : Option String := none
  kernelOffset : UInt64 := 0x200000
  drive : Option String := none
  readOnly : Bool := false
  share : Option String := none
  shareTag : String := "host_fs"
  memory : Nat := 0x2000000
  bootArguments : String := "root=/dev/vda rw"
  gdb : Bool := false
  waitGdb : Bool := false
  gdbPort : UInt16 := 55554
  benchmark : Bool := false
  benchmarkCycles : UInt64 := 100000000
  terminal : Bool := false
  logLevel : LogLevel := .info
deriving DecidableEq, Repr

inductive ValueError where
  | missing
  | number (error : NumberError)
  | quoted (text : String) (error : NumberError)
  | size (text : String)
  | port (value : Int)
  | choice
deriving DecidableEq, Repr

def ValueError.reason? : ValueError → Option String
  | missing => none
  | number error => some error.message
  | quoted text error => some ("\x60" ++ text ++ "\x60: " ++ error.message)
  | size text => some ("\x60" ++ text ++ "\x60 is not a usable memory size")
  | port value => some (toString value ++ " is not in 0..=65535")
  | choice => none

namespace Options

def withSwitch (options : Options) : Switch → Options
  | .readOnly => { options with readOnly := true }
  | .gdb => { options with gdb := true }
  | .waitGdb => { options with waitGdb := true }
  | .benchmark => { options with benchmark := true }
  | .terminal => { options with terminal := true }
  | .help | .version => options

def pathValue (value : String) : Except ValueError String :=
  if value.isEmpty then .error .missing else .ok value

def numberValue (value : List Char) : Except ValueError UInt64 :=
  (readNumber value).mapError fun error => .quoted (String.ofList value) error

def sizeValue (value : String) : Except ValueError Nat := do
  let (digits, shift) := splitUnit value.toList
  let number ← numberValue digits
  match sizeOf? number shift with
  | some size => return size
  | none => throw (.size value)

def portValue (value : String) : Except ValueError UInt16 := do
  let number ← (readSigned value.toList).mapError .number
  if 0 ≤ number ∧ number ≤ 65535 then return UInt16.ofNat number.toNat
  else throw (.port number)

def levelValue (value : String) : Except ValueError LogLevel :=
  match LogLevel.ofName? value with
  | some level => .ok level
  | none => .error (if value.isEmpty then .missing else .choice)

def withSetting (options : Options) (setting : Setting) (value : String) :
    Except ValueError Options := do
  match setting with
  | .kernel => return { options with kernel := some (← pathValue value) }
  | .kernelOffset => return { options with kernelOffset := ← numberValue value.toList }
  | .drive => return { options with drive := some (← pathValue value) }
  | .share => return { options with share := some (← pathValue value) }
  | .shareTag => return { options with shareTag := value }
  | .memory => return { options with memory := ← sizeValue value }
  | .bootArguments => return { options with bootArguments := value }
  | .gdbPort => return { options with gdbPort := ← portValue value }
  | .benchmarkCycles =>
    return { options with
      benchmarkCycles := ← (readUnsigned 10 value.toList).mapError ValueError.number }
  | .logLevel => return { options with logLevel := ← levelValue value }

end Options

end RvBoard.CommandLine
