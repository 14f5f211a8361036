namespace GenerationalHeap.Word

/-- Number of values of a 64-bit word. -/
def span : Nat := 0x10000000000000000

/-- Largest value of a 64-bit word. -/
def largest : Nat := span - 1

/-- Sum of two words, unless it leaves the word range. -/
def add? (a b : Nat) : Option Nat :=
  if a + b < span then some (a + b) else none

/-- Product of two words, unless it leaves the word range. -/
def mul? (a b : Nat) : Option Nat :=
  if a * b < span then some (a * b) else none

/-- Clears the bits below `unit`, a power of two, with the mask of all higher bits of a word. -/
def clearBelow (unit n : Nat) : Nat := n &&& (span - unit)

/-- Rounds a word up to a multiple of `unit`, a power of two, unless the sum leaves the word range. -/
def roundUp? (unit n : Nat) : Option Nat :=
  (add? n (unit - 1)).map (clearBelow unit)

end GenerationalHeap.Word
