import Afsplus.Core.Tree
import Afsplus.Format.Object
import Afsplus.Lib.SortedMap
import Afsplus.Format.Ident

/-!
# Objects and their names

The committed objects of a volume and how a call reads them. An object is what its record and the trees
under it hold: a directory's entries, a file's bytes with the logical extents they lie in. Where the
blocks of all this are, and how a transaction writes them, is not modelled; that the block layer may
refuse at any of these points is, by an `Engine` that answers for it during one call.
-/

namespace Afsplus.Names

open Fallible Wire

/-- The Unicode library's normal form and case folding, used for names that are not ASCII. -/
structure UnicodeTables where
  nfc : Bytes → Bytes
  nfcCasefold : Bytes → Bytes

structure Config where
  mode : MountMode
  orphanDirectory : Bool
  persistentSnapshots : Bool
  blockSize : Nat
  orphanCleanupExtentBudget : Nat
  nameKeyAlgorithm : NameKeyAlgorithm
  tables : UnicodeTables

def isAscii (name : Bytes) : Bool := name.all (· < 0x80)

def asciiLowercase (byte : UInt8) : UInt8 := if 65 ≤ byte ∧ byte ≤ 90 then byte + 32 else byte

def nameKey (algorithm : NameKeyAlgorithm) (tables : UnicodeTables) (name : Bytes) : Bytes :=
  match algorithm with
  | .legacyIdentity => name
  | .unicodeNfc => if isAscii name then name else tables.nfc name
  | .unicodeNfcCasefold => if isAscii name then name.map asciiLowercase else tables.nfcCasefold name

def checkName (name : Bytes) : Except CoreError Unit := (validateName name).mapError .invalidName

def comparisonKey (cfg : Config) (name : Bytes) : Except CoreError Bytes := do
  checkName name
  let key := nameKey cfg.nameKeyAlgorithm cfg.tables name
  refuseIf (key.length > maxTreeKeyBytes) (.invalidName (.overflow "directory comparison key"))
  pure key

/-- The name of an orphan: the sixteen hexadecimal digits of its object id. -/
def hexDigit (n : Nat) : UInt8 := if n < 10 then .ofNat (48 + n) else .ofNat (87 + n)

def orphanName (objectId : ObjectId) : Bytes :=
  (List.range 16).map fun i => hexDigit (objectId / 16 ^ (15 - i) % 16)

structure LogicalExtent where
  logicalStart : Nat
  blockCount : Nat
  deriving DecidableEq, Repr

structure Object where
  objectType : ObjectType
  linkCount : Nat
  modified : Timespec
  changed : Timespec
  content : Bytes
  extents : List LogicalExtent
  entries : SortedMap Bytes DirEntry
  deriving DecidableEq

def protectionArchive : Nat := 1 <<< 4

/-- `u32` words: the archive bit is cleared, the others stay. -/
def archiveCleared (protection : Nat) : Nat := protection &&& (2 ^ 32 - 1 - protectionArchive)

def newObject (objectType : ObjectType) (now : Timespec) : Object where
  objectType
  linkCount := 1
  modified := now
  changed := now
  content := []
  extents := []
  entries := .empty

def newDirectoryRecord (now : Timespec) : Object := newObject .directory now

/-- The content of a new file is one run of blocks, if it has any. -/
def newFile (cfg : Config) (content : Bytes) (now : Timespec) : Object :=
  { newObject .file now with
    content
    extents := if content = [] then [] else [⟨0, (content.length + cfg.blockSize - 1) / cfg.blockSize⟩] }

structure Committed where
  objects : SortedMap ObjectId Object
  nextObjectId : ObjectId

/-- Errors of the block layer that are not refusals: a failing device, or blocks that do not decode. -/
inductive Fault where
  | block (e : BlockError)
  | format (e : FormatError)
  | corrupt (what : String)
  deriving DecidableEq, Repr

def Fault.error : Fault → CoreError
  | .block e => .block e
  | .format e => .format e
  | .corrupt what => .corrupt what

/-- How the block layer answers during one call: reading an object's record or its entries, finding out
its extents, giving up what it holds, opening a transaction, whether the edit of the snapshots' lifetimes
keeps to its work limits, and publishing. With an error of the last comes whether checkpoint I/O had
begun. -/
structure Engine where
  object : ObjectId → Option Fault
  entries : ObjectId → Option Fault
  layout : ObjectId → Option CoreError
  release : ObjectId → Option Fault
  begins : Option CoreError
  lifetimesFit : Bool
  publish : Option (CoreError × Bool)

/-- No device error and room for everything; the work limits of a commit remain. -/
def Engine.sound (lifetimesFit : Bool) : Engine where
  object _ := none
  entries _ := none
  layout _ := none
  release _ := none
  begins := none
  lifetimesFit
  publish := none

def answered : Option CoreError → Except CoreError Unit
  | none => .ok ()
  | some e => .error e

def faultless (fault : Option Fault) : Except CoreError Unit := answered (fault.map Fault.error)

section Calls

variable (cfg : Config) (io : Engine) (c : Committed)

/-! ### Reading -/

def readObject (id : ObjectId) : Except CoreError (Option Object) := do
  faultless (io.object id)
  pure (c.objects.get? id)

def readExisting (id : ObjectId) (missing : CoreError) : Except CoreError Object := do
  let record ← readObject io c id
  match record with
  | some object => .ok object
  | none => .error missing

def validateOrphanDirectory (record : Object) : Except CoreError Unit :=
  refuseIf (record.objectType ≠ .directory ∨ record.linkCount ≠ 1 ∨ record.content ≠ [] ∨
    record.extents ≠ []) (.corrupt "reserved orphan-directory object has invalid metadata")

end Calls

end Afsplus.Names
