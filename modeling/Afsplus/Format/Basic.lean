import Afsplus.Lib.Fallible
import Afsplus.Lib.Wire

/-!
# Format constants, errors, timestamps and names

The part of the format crate every codec and the engine share. A block is the list of its bytes; a
block address and an object id are natural numbers, bounded where the code bounds them.
-/

namespace Afsplus

open Wire

abbrev Bytes := List UInt8

/-- Tree keys are compared byte by byte. -/
instance Bytes.lawfulOrderLT : Std.LawfulOrderLT Bytes := List.instLawfulOrderLTOfAsymmLt

abbrev Lba := Nat

abbrev ObjectId := Nat

def formatEpoch : Nat := 1

/-- `AFSPLUS1` as a little-endian word. -/
def fsMagic : Nat := 0x3153554C50534641

def objectInvalid : ObjectId := 0

def objectRoot : ObjectId := 1

/-- The reserved directory of files whose last visible link went while a handle was open. -/
def objectOrphanDirectory : ObjectId := 2

def objectFirstDynamic : ObjectId := 16

def nameMaxUtf8Bytes : Nat := 255

inductive FormatError where
  | wrongBufferSize (expected actual : Nat)
  | wrongBlockType (expected actual : Nat)
  | unsupportedHeaderVersion (version : Nat)
  | checksumMismatch (stored computed : Nat)
  | payloadTooLarge (payloadLen max : Nat)
  | invalid (what : String)
  | invalidUtf8
  | overflow (what : String)
  deriving DecidableEq, Repr

structure Timespec where
  seconds : Int
  nanoseconds : Nat
  deriving DecidableEq, Repr, Inhabited

namespace Timespec

def validate (t : Timespec) : Except FormatError Unit :=
  if t.nanoseconds ≥ 1000000000 then .error (.invalid "timestamp nanoseconds out of range")
  else .ok ()

theorem validate_eq_ok {t : Timespec} {u : Unit} : t.validate = .ok u ↔ t.nanoseconds < 1000000000 := by
  unfold validate
  split <;> simp <;> omega

end Timespec

def Timespec.write (t : Timespec) : Bytes := leBytesInt 8 t.seconds ++ leBytes 4 t.nanoseconds

def readTimespec (p : Bytes) : Except FormatError Timespec × Bytes :=
  let (seconds, p) := readLe 8 p
  let (nanoseconds, p) := readLe 4 p
  let time : Timespec := ⟨toSigned 8 seconds, nanoseconds⟩
  (do time.validate; pure time, p)

structure Timespec.InRange (t : Timespec) : Prop where
  low : -(256 ^ 8 : Nat) ≤ 2 * t.seconds
  high : 2 * t.seconds < (256 ^ 8 : Nat)

theorem length_timespecWrite (t : Timespec) : t.write.length = 12 := by
  simp [Timespec.write, leBytesInt]

variable {t : Timespec} {p : Bytes}

theorem readTimespec_append (hrng : t.InRange) (hval : t.validate = .ok ())
    (rest : Bytes) : readTimespec (t.write ++ rest) = (.ok t, rest) := by
  obtain ⟨hread, hsigned⟩ := toSigned_leBytesInt hrng.low hrng.high (leBytes 4 t.nanoseconds ++ rest)
  have hnano : t.nanoseconds < 256 ^ 4 := by
    have := Timespec.validate_eq_ok.mp hval
    omega
  simp only [readTimespec, Timespec.write, List.append_assoc, hread, hsigned, readLe_append hnano]
  rw [hval]
  rfl

theorem length_readTimespec (p : Bytes) : (readTimespec p).2.length = p.length - 12 := by
  show (readLe 4 (readLe 8 p).2).2.length = _
  rw [length_readLe, length_readLe]
  omega

theorem readTimespec_eq_ok (h : (readTimespec p).1 = .ok t) :
    t = ⟨toSigned 8 (readLe 8 p).1, (readLe 4 (readLe 8 p).2).1⟩ := by
  unfold readTimespec at h
  exact Fallible.pure_ok.mp (Fallible.after_check h)

theorem inRange_of_readTimespec (h : (readTimespec p).1 = .ok t) : t.InRange := by
  obtain ⟨hlow, hhigh⟩ := toSigned_range (readLe_lt 8 p)
  exact readTimespec_eq_ok h ▸ ⟨hlow, hhigh⟩

theorem write_readTimespec_append (hlen : 12 ≤ p.length)
    (h : (readTimespec p).1 = .ok t) : t.write ++ (readTimespec p).2 = p := by
  show t.write ++ (readLe 4 (readLe 8 p).2).2 = p
  rw [readTimespec_eq_ok h, Timespec.write, leBytesInt_toSigned (readLe_lt ..), List.append_assoc,
    leBytes_readLe (by rw [length_readLe]; omega), leBytes_readLe (by omega)]

def isContinuation (b : UInt8) : Bool := 0x80 ≤ b && b ≤ 0xBF

/-- Well-formed UTF-8, as the standard library's checked conversion accepts it: shortest forms only,
no surrogates, nothing past U+10FFFF. -/
def utf8Valid : Bytes → Bool
  | [] => true
  | a :: rest =>
    if a ≤ 0x7F then utf8Valid rest
    else match rest with
      | [] => false
      | b :: rest =>
        if 0xC2 ≤ a && a ≤ 0xDF then isContinuation b && utf8Valid rest
        else match rest with
          | [] => false
          | c :: rest =>
            if 0xE0 ≤ a && a ≤ 0xEF then
              (if a = 0xE0 then 0xA0 ≤ b && b ≤ 0xBF
                else if a = 0xED then 0x80 ≤ b && b ≤ 0x9F
                else isContinuation b) && isContinuation c && utf8Valid rest
            else match rest with
              | [] => false
              | d :: rest =>
                0xF0 ≤ a && a ≤ 0xF4 &&
                (if a = 0xF0 then 0x90 ≤ b && b ≤ 0xBF
                  else if a = 0xF4 then 0x80 ≤ b && b ≤ 0x8F
                  else isContinuation b) &&
                isContinuation c && isContinuation d && utf8Valid rest

/-- Text as the source's strings hold it. -/
abbrev Utf8 := { bytes : Bytes // utf8Valid bytes = true }

def Utf8.empty : Utf8 := ⟨[], rfl⟩

def workLabel : Utf8 := ⟨[87, 111, 114, 107], rfl⟩

def toUtf8 (bytes : Bytes) : Except FormatError Utf8 :=
  if h : utf8Valid bytes = true then .ok ⟨bytes, h⟩ else .error .invalidUtf8

theorem toUtf8_val (text : Utf8) : toUtf8 text.1 = .ok text := by
  rw [toUtf8, dif_pos text.2]

theorem toUtf8_eq_ok {bytes : Bytes} {text : Utf8} : toUtf8 bytes = .ok text ↔ text.1 = bytes := by
  rw [toUtf8]
  split
  · rename_i hval
    rw [Except.ok.injEq, Subtype.ext_iff]
    exact eq_comm
  · rename_i hval
    simp only [reduceCtorEq, false_iff]
    rintro rfl
    exact hval text.2

/-- In well-formed UTF-8 the bytes of NUL and `/` only ever stand for those characters, so the
character test of the source is one on bytes. -/
def validateName (name : Bytes) : Except FormatError Unit :=
  if name = [] ∨ name.length > nameMaxUtf8Bytes then .error (.invalid "name length out of range")
  else if utf8Valid name = false then .error .invalidUtf8
  else if name.any (fun c => c == 0 || c == 0x2F) then
    .error (.invalid "name contains reserved character")
  else .ok ()

end Afsplus
