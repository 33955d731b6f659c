/-!
# Words

Numbers that come from outside, the labels of a sheet among them, have at most 64 bits.
-/

namespace ProofSheet.Word

/-- The least number that takes more than 64 bits. -/
def bound : Nat := 0x10000000000000000

end ProofSheet.Word
