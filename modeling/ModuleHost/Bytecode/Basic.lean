/-!
# Bytecode streams

What the writer and the reader of bytecode agree on, and the ways in which a stream can be refused.
A stream is, all numbers least significant byte first:

    magic | version : 2 bytes | number of units : 4 bytes | units
    unit   = filename | n : 4 bytes | n instructions | n lines of 4 bytes
             | m : 4 bytes | m symbols | k : 4 bytes | k child offsets of 4 bytes
    string = length : 4 bytes | UTF-8 bytes

A unit without a filename has the empty one.
-/

namespace ModuleHost.Bytecode

/-- The bytes every stream begins with: the letters `NLBC`. -/
def magic : List UInt8 := [0x4E, 0x4C, 0x42, 0x43]

def version : Nat := 1

/-- No table and no string is longer than this. -/
def maxLength : Nat := 0x1000000

/-- Why no more bytes could be had from a stream. -/
inductive StreamFault where
  /-- The stream ended before all bytes that were asked for. -/
  | ended
  /-- There is a directory where the stream should be. -/
  | isDirectory
deriving DecidableEq, Repr

def StreamFault.message : StreamFault → String
  | ended => "failed to fill whole buffer"
  | isDirectory => "Is a directory (os error 21)"

inductive DecodeError where
  | stream (fault : StreamFault)
  | badMagic
  | unsupportedVersion (found : Nat)
  /-- There are no units. -/
  | empty
  /-- The instruction at a position in a unit names no operation. -/
  | invalidInstruction (unit position : Nat)
  /-- A child offset leads to the unit itself or out of the stream. -/
  | invalidChild (unit offset : Nat)
  /-- A length is beyond the limit. -/
  | tooLarge (length : Nat)
  | invalidUtf8
deriving DecidableEq, Repr

def DecodeError.message : DecodeError → String
  | stream fault => "I/O error: " ++ fault.message
  | badMagic => "not a compiled unit file (bad magic)"
  | unsupportedVersion found =>
    "unsupported bytecode version " ++ toString found ++ " (expected " ++ toString version ++ ")"
  | empty => "file contains no units"
  | invalidInstruction unit position =>
    "invalid instruction " ++ toString position ++ " in unit " ++ toString unit
  | invalidChild unit offset =>
    "unit " ++ toString unit ++ " refers to child offset " ++ toString offset
      ++ " outside the file"
  | tooLarge length => "length field " ++ toString length ++ " exceeds limit"
  | invalidUtf8 => "invalid UTF-8 in string table"

end ModuleHost.Bytecode
