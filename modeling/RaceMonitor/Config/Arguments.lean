import RaceMonitor.Config
import RaceMonitor.Fault
import RaceMonitor.Text.Numeral

/-! Settings from an argument list.

A setting's flag takes a number, written `--flag=N` or as the next argument, whatever that
looks like; `--no-alloc-tracking` takes none and ignores one. Other arguments are passed over.
Arguments apply from left to right on top of a given configuration, and the first bad one
rejects them all. -/
namespace RaceMonitor.Config

/-- The settings that take a number. -/
inductive Setting where
  | stackSize
  | maxThreads
  | maxLocks
  | maxLocations
  | maxFreed
  deriving DecidableEq, Repr, Inhabited

namespace Setting

def flag : Setting → String
  | stackSize => "--stack-size"
  | maxThreads => "--max-threads"
  | maxLocks => "--max-locks"
  | maxLocations => "--max-locations"
  | maxFreed => "--max-freed"

def all : List Setting := [stackSize, maxThreads, maxLocks, maxLocations, maxFreed]

def ofFlag? (s : String) : Option Setting := all.find? fun f => f.flag == s

end Setting

/-- Why the value of a setting is refused. -/
inductive ValueFault where
  | missing
  | malformed (raw : String) (fault : Text.NumeralFault)
  | outOfRange
  deriving DecidableEq, Repr, Inhabited

def ValueFault.text : ValueFault → String
  | missing => "missing value"
  | malformed raw fault => Text.quoted raw ++ ": " ++ fault.text
  | outOfRange => "must be within 1..=" ++ Text.decimal stackCapacity

/-- The configuration with a setting changed. -/
def put (c : Config) (value : Word) : Setting → Config
  | .stackSize => { c with maxStackSize := value }
  | .maxThreads => { c with maxThreads := value }
  | .maxLocks => { c with maxLocks := value }
  | .maxLocations => { c with maxLocations := value }
  | .maxFreed => { c with maxFreed := value }

/-- Whether a value is allowed for a setting: only the stack size has a range. -/
def Setting.admits (s : Setting) (value : Word) : Bool :=
  match s with
  | .stackSize => 1 ≤ value.toNat && value.toNat ≤ stackCapacity
  | _ => true

/-- The configuration with a setting changed to what `raw` says. -/
def assign (c : Config) (s : Setting) (raw : String) : Except ValueFault Config :=
  match Text.word raw.toList with
  | .error fault => .error (.malformed raw fault)
  | .ok value => if s.admits value then .ok (c.put value s) else .error .outOfRange

/-- The part of an argument before its first equals sign, and the part behind it. -/
def splitArgument (arg : String) : String × Option String :=
  let flag := arg.toList.takeWhile (· != '=')
  match arg.toList.dropWhile (· != '=') with
  | [] => (arg, none)
  | _ :: value => (String.ofList flag, some (String.ofList value))

/-- What an argument asks for. -/
inductive Request where
  | noTracking
  /-- A setting, with its value if that is written behind an equals sign. -/
  | set (s : Setting) (value : Option String)
  | unknown
  deriving DecidableEq, Repr, Inhabited

def Request.ofArgument (arg : String) : Request :=
  let (flag, value) := splitArgument arg
  if flag == "--no-alloc-tracking" then .noTracking
  else match Setting.ofFlag? flag with
    | some s => .set s value
    | none => .unknown

/-- Applies the arguments, and lists the unknown ones passed over on the way. -/
def walk (c : Config) : List String → List String × Except Fault Config
  | [] => ([], .ok c)
  | arg :: args =>
    match Request.ofArgument arg with
    | .noTracking => walk { c with trackAllocations := false } args
    | .unknown =>
      let (passed, result) := walk c args
      (arg :: passed, result)
    | .set s (some raw) =>
      match c.assign s raw with
      | .ok c => walk c args
      | .error fault => ([], .error (.invalidArgument s.flag fault.text))
    | .set s none =>
      match args with
      | [] => ([], .error (.invalidArgument s.flag ValueFault.missing.text))
      | raw :: args =>
        match c.assign s raw with
        | .ok c => walk c args
        | .error fault => ([], .error (.invalidArgument s.flag fault.text))

/-- Applies the arguments on top of `c`. -/
def apply (c : Config) (args : List String) : Except Fault Config := (c.walk args).2

def ofArguments (args : List String) : Except Fault Config := Config.default.apply args

end RaceMonitor.Config
