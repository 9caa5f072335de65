import Mathlib

/-!
# Messages

What `proto.h` defines for both sides of the protocol.
-/

namespace Infod

def msgVersion : UInt8 := 0x80
def msgInfo : UInt8 := 0x81
def msgPong : UInt8 := 0x82
def msgError : UInt8 := 0x83
def msgEof : UInt8 := 0xff

/-- The size of the buffers that are read into. -/
def protoRecvsz : Nat := 65536

/-- The error groups of `proto.h`. -/
inductive ErrorCode where
  | badMsg | badArg | tooBig | badSeq | internal
  deriving DecidableEq, Repr

def ErrorCode.toByte : ErrorCode → UInt8
  | .badMsg => 100
  | .badArg => 101
  | .tooBig => 102
  | .badSeq => 103
  | .internal => 255

/-- The bytes of an ASCII text. -/
def ascii (text : String) : List UInt8 := text.toList.map fun c => c.toNat.toUInt8

/-- A byte as `%02x` prints it. -/
def hex (byte : UInt8) : List UInt8 :=
  [byte.toNat / 16, byte.toNat % 16].map fun d => if d < 10 then (48 + d).toUInt8 else (87 + d).toUInt8

inductive Mode where
  | unknown | binary | text | framed
  deriving DecidableEq, Repr

end Infod
