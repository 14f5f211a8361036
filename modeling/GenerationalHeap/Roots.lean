import GenerationalHeap.Error

namespace GenerationalHeap

/-- Identity of a registered root. -/
structure RootId where
  index : Nat
  version : Nat
deriving DecidableEq

structure RootEntry where
  version : Nat
  value : Option Node

/-- Values kept alive on request. Vacant entries are reused, the latest first, under a new version. -/
structure RootRegistry where
  entries : Array RootEntry := #[]
  free : List Nat := []

namespace RootRegistry

def count (r : RootRegistry) : Nat := r.entries.size - r.free.length

/-- Registered values in order of their entries. -/
def values (r : RootRegistry) : List Node := r.entries.toList.filterMap (·.value)

def find? (r : RootRegistry) (id : RootId) : Option Node :=
  match r.entries[id.index]? with
  | some entry => if entry.version = id.version then entry.value else none
  | none => none

def get (r : RootRegistry) (id : RootId) : Except RuntimeError Node :=
  match r.find? id with
  | some value => .ok value
  | none => .error (.unknownRoot id.index)

def register (r : RootRegistry) (value : Node) : RootId × RootRegistry :=
  match r.free with
  | index :: free =>
    let version := (r.entries[index]?.map (·.version)).getD firstVersion
    (⟨index, version⟩,
      { entries := r.entries.setIfInBounds index ⟨version, some value⟩, free })
  | [] =>
    (⟨r.entries.size, firstVersion⟩,
      { entries := r.entries.push ⟨firstVersion, some value⟩, free := [] })

def set (r : RootRegistry) (id : RootId) (value : Node) : Except RuntimeError RootRegistry :=
  match r.find? id with
  | some _ =>
    .ok { r with entries := r.entries.setIfInBounds id.index ⟨id.version, some value⟩ }
  | none => .error (.unknownRoot id.index)

def unregister (r : RootRegistry) (id : RootId) : Except RuntimeError (Node × RootRegistry) :=
  match r.find? id with
  | some value =>
    .ok (value,
      { entries := r.entries.setIfInBounds id.index ⟨nextVersion id.version, none⟩,
        free := id.index :: r.free })
  | none => .error (.unknownRoot id.index)

end RootRegistry

end GenerationalHeap
