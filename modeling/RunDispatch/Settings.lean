/-
# Settings of a worker

A worker is set up from named variables. A blank variable counts as unset, other texts are kept as
they are. Numbers are read without the blanks around them: an optional plus sign and digits. The
variables are looked at in a fixed order, and the first that does not fit is reported. Unless a variable
names another place, files are staged below the directory for temporary files, which the system tells.

Key definitions: `Settings`, `SettingsError`, `Settings.defaultRoot`, `Settings.read`, `readNumber?`.
-/
import RunDispatch.Layout
import RunDispatch.Text.Blank

namespace RunDispatch

/-- Why a number cannot be read. -/
inductive NumberFault where
  | invalidDigit
  | tooLarge
  deriving DecidableEq, Repr

/-- The wording of a fault. -/
def NumberFault.message : NumberFault → String
  | invalidDigit => "invalid digit found in string"
  | tooLarge => "number too large to fit in target type"

/-- Why the variables make no settings. -/
inductive SettingsError where
  | missing (name : String)
  | number (name value : String) (fault : NumberFault)
  | mountKind (value : String)
  | noSlots
  deriving DecidableEq, Repr

/-- The wording of an error. -/
def SettingsError.message : SettingsError → String
  | missing name => name ++ " must be set"
  | number name value fault => invalid name value fault.message
  | mountKind value => invalid "MOUNT_TYPE" value "must be 'bind' or 'volume'"
  | noSlots => invalid "MAX_CONCURRENT_ACTIVITIES" "0" "must be at least 1"
where
  /-- A variable whose value does not fit. -/
  invalid (name value why : String) : String :=
    name ++ " has invalid value '" ++ value ++ "': " ++ why

/-- Digits appended to a number that has to stay below `limit`. -/
def readDigits (limit value : Nat) : List Char → Except NumberFault Nat
  | [] => .ok value
  | c :: r =>
    if '0' ≤ c ∧ c ≤ '9' then
      let next := value * 10 + (c.toNat - '0'.toNat)
      if limit ≤ next then .error .tooLarge else readDigits limit next r
    else .error .invalidDigit

/-- The number of a text, which has to be below `limit`. -/
def readNumber? (limit : Nat) (s : String) : Except NumberFault Nat :=
  match Text.trimChars s.toList with
  | [] => .error .invalidDigit
  | ['+'] => .error .invalidDigit
  | '+' :: r => readDigits limit 0 r
  | r => readDigits limit 0 r

/-- How a worker is set up. Durations are in seconds. -/
structure Settings where
  host : String
  port : Nat
  databaseUrl : String
  stagingRoot : String
  mountSource : String
  mountTarget : String
  mountKind : Container.MountKind
  sharedMountSource : Option String
  sharedMountTarget : String
  activityTimeout : Nat
  slots : Nat
  dispatchTtl : Nat
  stopGrace : Nat
  requestTimeout : Nat
  shutdownTimeout : Nat
  deriving DecidableEq, Repr

namespace Settings

/-- Ports are below this. -/
def portLimit : Nat := Nat.pow 2 16

/-- Other numbers are below this. -/
def wordLimit : Nat := Nat.pow 2 64

/-- The value of a variable that is set and not blank. -/
def valueOf? (lookup : String → Option String) (name : String) : Option String :=
  (lookup name).filter fun v => !Text.allBlank v

/-- The number of a variable, or its default. -/
def number (lookup : String → Option String) (name : String) (limit default : Nat) :
    Except SettingsError Nat :=
  match valueOf? lookup name with
  | none => .ok default
  | some v => (readNumber? limit v).mapError (SettingsError.number name v)

/-- The kind of mounts. -/
def readMountKind (lookup : String → Option String) : Except SettingsError Container.MountKind :=
  match valueOf? lookup "MOUNT_TYPE" with
  | none => .ok .bind
  | some v =>
    match Container.MountKind.ofName? v with
    | some k => .ok k
    | none => .error (.mountKind v)

/-- Where files are staged unless a variable names another place. -/
def defaultRoot (temp : String) : String := Staging.joinPath temp "vdp"

/-- The settings that variables make where `temp` is the directory for temporary files, which is `/tmp`
unless the system names another. -/
def read (lookup : String → Option String) (temp : String := "/tmp") :
    Except SettingsError Settings := do
  let text (name default : String) : String := (valueOf? lookup name).getD default
  let port ← number lookup "PORT" portLimit 8090
  let databaseUrl ← match valueOf? lookup "DATABASE_URL" with
    | some url => Except.ok url
    | none => Except.error (SettingsError.missing "DATABASE_URL")
  let stagingRoot := text "STAGING_ROOT" (defaultRoot temp)
  let mountKind ← readMountKind lookup
  let slots ← number lookup "MAX_CONCURRENT_ACTIVITIES" wordLimit 2
  if slots = 0 then Except.error SettingsError.noSlots
  let activityTimeout ← number lookup "ACTIVITY_TIMEOUT_SECS" wordLimit 120
  let dispatchTtl ← number lookup "DISPATCH_TTL_SECS" wordLimit 3600
  let stopGrace ← number lookup "STOP_GRACE_SECS" wordLimit 10
  let requestTimeout ← number lookup "REQUEST_TIMEOUT_SECS" wordLimit 30
  let shutdownTimeout ← number lookup "SHUTDOWN_TIMEOUT_SECS" wordLimit 30
  return {
    host := text "HOST" "0.0.0.0"
    port, databaseUrl, stagingRoot
    mountSource := text "MOUNT_SOURCE" stagingRoot
    mountTarget := text "MOUNT_TARGET" stagingRoot
    mountKind
    sharedMountSource := valueOf? lookup "SHARED_MOUNT_SOURCE"
    sharedMountTarget := text "SHARED_MOUNT_TARGET" "/local"
    activityTimeout, slots, dispatchTtl, stopGrace, requestTimeout, shutdownTimeout }

/-- The mounts of a worker's containers. -/
def layout (s : Settings) : Layout where
  staging := ⟨s.mountKind, s.mountSource, s.mountTarget⟩
  shared := s.sharedMountSource.map fun source => ⟨s.mountKind, source, s.sharedMountTarget⟩

end Settings

end RunDispatch
