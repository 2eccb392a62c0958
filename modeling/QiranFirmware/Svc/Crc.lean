import QiranFirmware.Types

/-! # The checksum

`svc_crc.c`: CRC-32 over a sixteen-entry table, two lookups a byte. Data that is a list is never
the null pointer that `svc_crc32_update` lets pass.
-/
namespace QiranFirmware.Crc

def nibble : List UInt32 :=
  [0x00000000, 0x1DB71064, 0x3B6E20C8, 0x26D930AC,
   0x76DC4190, 0x6B6B51F4, 0x4DB26158, 0x5005713C,
   0xEDB88320, 0xF00F9344, 0xD6D6A3E8, 0xCB61B38C,
   0x9B64C2B0, 0x86D3D2D4, 0xA00AE278, 0xBDBDF21C]

/-- One lookup of the loop in `svc_crc32_update`. -/
def shift (crc : UInt32) : UInt32 := nibble.getD (crc &&& 0x0F).toNat 0 ^^^ (crc >>> 4)

def update (crc : UInt32) (data : List UInt8) : UInt32 :=
  data.foldl (fun crc b => shift (shift (crc ^^^ b.toUInt32))) crc

def finish (crc : UInt32) : UInt32 := crc ^^^ 0xFFFFFFFF

def crc32 (data : List UInt8) : UInt32 := finish (update 0xFFFFFFFF data)

/-- The published check value, over the bytes of "123456789". -/
example : crc32 [49, 50, 51, 52, 53, 54, 55, 56, 57] = 0xCBF43926 := by decide +kernel

end QiranFirmware.Crc
