import Statechart.Text.Quoted

/- The Castagnoli cyclic redundancy check over the bytes of a text. -/
namespace Statechart.Checksum

/-- The reflected generator polynomial. -/
def polynomial : UInt32 := 0x82F63B78

def shiftBit (r : UInt32) : UInt32 :=
  if r &&& 1 == 1 then (r >>> 1) ^^^ polynomial else r >>> 1

def feed (r : UInt32) (b : UInt8) : UInt32 :=
  Nat.repeat shiftBit 8 (r ^^^ b.toUInt32)

def ofBytes (bytes : List UInt8) : UInt32 := (bytes.foldl feed 0xFFFFFFFF) ^^^ 0xFFFFFFFF

def ofText (s : String) : String :=
  Text.hexPadded 8 (ofBytes s.toUTF8.toList).toNat

end Statechart.Checksum
