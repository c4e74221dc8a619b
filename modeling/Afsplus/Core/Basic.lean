import Afsplus.Format.Basic

/-!
# Errors and mount modes of the engine
-/

namespace Afsplus

inductive BlockError where
  | outOfBounds (lba totalBlocks : Nat)
  | wrongBufferSize (expected actual : Nat)
  | injected (point : String)
  | io
  deriving DecidableEq, Repr

inductive CoreError where
  | block (e : BlockError)
  | format (e : FormatError)
  | noValidCheckpoint (slotA slotB : FormatError)
  | ambiguousCheckpoints (generation : Nat)
  | corrupt (what : String)
  | alreadyExists
  | notFound
  | notDirectory
  | isDirectory
  | directoryNotEmpty
  | invalidMove (what : String)
  | invalidMetadata (what : String)
  | invalidName (e : FormatError)
  | noSpace
  | prototypeLimit (what : String)
  | unsupportedGeometry (what : String)
  | windowOpen
  | windowPoisoned
  | readOnly
  | stale
  | busy
  | featureDisabled (what : String)
  | unsupportedIncompatFeatures (bits : Nat)
  | readOnlyRequiredFeatures (bits : Nat)
  | securityProjectionRefused
  deriving DecidableEq, Repr

/-- The errors that refuse one window operation and leave the staged window in use. -/
def CoreError.isValidationError : CoreError → Bool
  | .alreadyExists | .notFound | .invalidName _ | .notDirectory | .isDirectory
  | .directoryNotEmpty | .noSpace | .prototypeLimit _ => true
  | _ => false

inductive MountMode where
  | readWrite
  | readOnly
  | noChanges
  | recovery
  deriving DecidableEq, Repr

def MountMode.allowsUserWrites (mode : MountMode) : Bool := mode = .readWrite

def MountMode.writesDuringMount (mode : MountMode) : Bool :=
  mode = .readWrite || mode = .recovery

def validateTime (time : Timespec) : Except CoreError Unit :=
  time.validate.mapError fun _ => .invalidMetadata "timestamp nanoseconds out of range"

end Afsplus
