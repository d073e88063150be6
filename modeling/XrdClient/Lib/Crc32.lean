/-
  Lib/Crc32.lean --- CRC-32 as `zlib.crc32(data, value)` computes it, and CRC-32C.

  The reflected polynomial `0xEDB88320`, one bit at a time; the register is
  complemented on the way in and on the way out, which is what lets a checksum
  be taken up where an earlier one ended.  CRC-32C is the same with the Castagnoli
  polynomial `0x82F63B78`.
-/
import XrdClient.Lib.Bytes

set_option autoImplicit false

namespace XrdClient.Lib

/-- One bit shifted out of the register. -/
def crcBit (register : UInt32) : UInt32 :=
  if register &&& 1 = 1 then (register >>> 1) ^^^ 0xEDB88320 else register >>> 1

/-- One byte of data. -/
def crcByte (register : UInt32) (b : UInt8) : UInt32 :=
  Nat.repeat crcBit 8 (register ^^^ b.toUInt32)

/-- `zlib.crc32(data, value)`. -/
def crc32 (data : Bytes) (value : UInt32) : UInt32 :=
  ~~~ (data.foldl crcByte (~~~ value))

@[simp] theorem crc32_nil (value : UInt32) : crc32 [] value = value := by
  simp [crc32]

/-- A checksum is taken up where the last one ended. -/
theorem crc32_append (a b : Bytes) (value : UInt32) :
    crc32 (a ++ b) value = crc32 b (crc32 a value) := by
  simp [crc32]

-- The check value of CRC-32: the checksum of "123456789".
example : crc32 [49, 50, 51, 52, 53, 54, 55, 56, 57] 0 = 0xCBF43926 := by decide +kernel

/-! ## CRC-32C -/

def crc32cBit (register : UInt32) : UInt32 :=
  if register &&& 1 = 1 then (register >>> 1) ^^^ 0x82F63B78 else register >>> 1

def crc32cByte (register : UInt32) (b : UInt8) : UInt32 :=
  Nat.repeat crc32cBit 8 (register ^^^ b.toUInt32)

/-- `crc32c(data)`. -/
def crc32c (data : Bytes) : UInt32 := ~~~ (data.foldl crc32cByte (~~~ 0))

-- The check value of CRC-32C.
example : crc32c [49, 50, 51, 52, 53, 54, 55, 56, 57] = 0xE3069283 := by decide +kernel

end XrdClient.Lib
