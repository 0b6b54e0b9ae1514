import TwMonitor.T32Parts

/-!
# Bit patterns of the T32 encodings

Each `match_*` function is a conjunction of tests `BIT_EXTRACT(field, pos,
width) == value`, written here as the list of these three numbers. A wide
instruction is read as one little-endian word, so bits 0 to 15 are its first
halfword.
-/
namespace TwMonitor.T32
open BitPattern

def matchAddsIT1 : Matcher 16 32 := ⟨[⟨9,7,0xE⟩],rfl⟩
def matchAddsIT2 : Matcher 16 32 := ⟨[⟨11,5,0x6⟩],rfl⟩
def matchAddwIT4 : Matcher 32 32 := ⟨[⟨31,1,0x0⟩,⟨11,5,0x1E⟩,⟨4,6,0x20⟩],rfl⟩
def matchAddsRT1 : Matcher 16 32 := ⟨[⟨9,7,0xC⟩],rfl⟩
def matchAddRT2 : Matcher 16 32 := ⟨[⟨8,8,0x44⟩],rfl⟩
def matchBCondT1Noit : Matcher 16 32 := ⟨[⟨12,4,0xD⟩],rfl⟩
def matchBT2 : Matcher 16 32 := ⟨[⟨11,5,0x1C⟩],rfl⟩
def matchBCondT3Noit : Matcher 32 32 := ⟨[⟨30,2,0x2⟩,⟨28,1,0x0⟩,⟨11,5,0x1E⟩],rfl⟩
def matchBT4 : Matcher 32 32 := ⟨[⟨30,2,0x2⟩,⟨28,1,0x1⟩,⟨11,5,0x1E⟩],rfl⟩
def matchBkptT1 : Matcher 16 32 := ⟨[⟨8,8,0xBE⟩],rfl⟩
def matchBlT1 : Matcher 32 32 := ⟨[⟨30,2,0x3⟩,⟨28,1,0x1⟩,⟨11,5,0x1E⟩],rfl⟩
def matchBlxT1 : Matcher 16 32 := ⟨[⟨7,9,0x8F⟩,⟨0,3,0x0⟩],rfl⟩
def matchBxT1 : Matcher 16 32 := ⟨[⟨7,9,0x8E⟩,⟨0,3,0x0⟩],rfl⟩
def matchCmpIT1 : Matcher 16 32 := ⟨[⟨11,5,0x5⟩],rfl⟩
def matchCmpRT1 : Matcher 16 32 := ⟨[⟨6,10,0x10A⟩],rfl⟩
def matchCmpRT2 : Matcher 16 32 := ⟨[⟨8,8,0x45⟩],rfl⟩
def matchLdrIT1 : Matcher 16 32 := ⟨[⟨11,5,0xD⟩],rfl⟩
def matchLdrIT2Sponly : Matcher 16 32 := ⟨[⟨11,5,0x13⟩],rfl⟩
def matchLdrIT3 : Matcher 32 32 := ⟨[⟨4,12,0xF8D⟩],rfl⟩
def matchLdrIT4 : Matcher 32 32 := ⟨[⟨27,1,0x1⟩,⟨4,12,0xF85⟩],rfl⟩
def matchLdrLitT1 : Matcher 16 32 := ⟨[⟨11,5,0x9⟩],rfl⟩
def matchLdrLitT2 : Matcher 32 32 := ⟨[⟨8,8,0xF8⟩,⟨0,7,0x5F⟩],rfl⟩
def matchLdrRT1 : Matcher 16 32 := ⟨[⟨9,7,0x2C⟩],rfl⟩
def matchLdrRT2Lsl : Matcher 32 32 := ⟨[⟨22,6,0x0⟩,⟨4,12,0xF85⟩],rfl⟩
def matchNopT1 : Matcher 16 32 := ⟨[⟨0,16,0xBF00⟩],rfl⟩
def matchNopT2 : Matcher 32 32 := ⟨[⟨16,16,0x8000⟩,⟨0,16,0xF3AF⟩],rfl⟩
def matchMovsIT1 : Matcher 16 32 := ⟨[⟨11,5,0x4⟩],rfl⟩
def matchMovwIT3 : Matcher 32 32 := ⟨[⟨31,1,0x0⟩,⟨11,5,0x1E⟩,⟨4,6,0x24⟩],rfl⟩
def matchMovRT1 : Matcher 16 32 := ⟨[⟨8,8,0x46⟩],rfl⟩
def matchMovsRT2Noit : Matcher 16 32 := ⟨[⟨6,10,0x0⟩],rfl⟩
def matchMovRT3OptS : Matcher 32 32 :=
  ⟨[⟨28,4,0x0⟩,⟨20,4,0x0⟩,⟨5,11,0x752⟩,⟨0,4,0xF⟩],rfl⟩
def matchPopT1 : Matcher 16 32 := ⟨[⟨9,7,0x5E⟩],rfl⟩
def matchPopT2 : Matcher 32 32 := ⟨[⟨29,1,0x0⟩,⟨0,16,0xE8BD⟩],rfl⟩
def matchPopT3 : Matcher 32 32 := ⟨[⟨16,12,0xB04⟩,⟨0,16,0xF85D⟩],rfl⟩
def matchPushT1 : Matcher 16 32 := ⟨[⟨9,7,0x5A⟩],rfl⟩
def matchPushT2 : Matcher 32 32 := ⟨[⟨31,1,0x0⟩,⟨29,1,0x0⟩,⟨0,16,0xE92D⟩],rfl⟩
def matchPushT3 : Matcher 32 32 := ⟨[⟨16,12,0xD04⟩,⟨0,16,0xF84D⟩],rfl⟩
def matchSubsIT1 : Matcher 16 32 := ⟨[⟨9,7,0xF⟩],rfl⟩
def matchSubsIT2 : Matcher 16 32 := ⟨[⟨11,5,0x7⟩],rfl⟩
def matchSubwIT4 : Matcher 32 32 := ⟨[⟨31,1,0x0⟩,⟨11,5,0x1E⟩,⟨4,6,0x2A⟩],rfl⟩
def matchSubsRT1 : Matcher 16 32 := ⟨[⟨9,7,0xD⟩],rfl⟩
def matchSvcT1 : Matcher 16 32 := ⟨[⟨8,8,0xDF⟩],rfl⟩
def matchUdfT1 : Matcher 16 32 := ⟨[⟨8,8,0xDE⟩],rfl⟩
def matchUdfT2 : Matcher 32 32 := ⟨[⟨28,4,0xA⟩,⟨4,12,0xF7F⟩],rfl⟩

end TwMonitor.T32
