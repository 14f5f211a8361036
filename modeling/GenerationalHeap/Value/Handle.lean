namespace GenerationalHeap

/-- Stable identity of an allocation: a slot of the handle table together with the version the slot
had when the allocation took it. -/
structure Handle where
  index : Nat
  version : Nat
deriving DecidableEq

def Handle.label (h : Handle) : String :=
  "#" ++ h.index.repr ++ "v" ++ h.version.repr

/-- Version of every slot on its first use. -/
def firstVersion : Nat := 1

/-- Version after a release; the 32-bit count skips zero when it wraps. -/
def nextVersion (version : Nat) : Nat :=
  if version + 1 < 0x100000000 then version + 1 else firstVersion

end GenerationalHeap
