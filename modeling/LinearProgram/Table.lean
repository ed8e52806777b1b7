import LinearProgram.Error

/-!
Slots behind handles. Each live entity has a slot, which knows the position of the entity, and its
key stands at that position in the order. A slot that is vacated raises its generation, so that old
keys do not fit any more, and is taken again before a new slot is made.
-/

namespace LinearProgram

structure Tenant where
  index : Nat
  name : String
  deriving DecidableEq

structure Slot where
  generation : UInt32
  tenant : Option Tenant
  deriving DecidableEq

structure Table where
  slots : List Slot
  vacant : List UInt32
  order : List Key
  names : List String
  deriving DecidableEq

namespace Slot

def seatedAt (position : Nat) (s : Slot) : Slot :=
  { s with tenant := s.tenant.map ({ · with index := position }) }

end Slot

namespace Table

def empty : Table := ⟨[], [], [], []⟩

instance : Inhabited Table := ⟨empty⟩

abbrev Edit (α : Type) := EStateM Defect Table α

def size (t : Table) : Nat := t.order.length

def isNameAvailable (t : Table) (name : String) : Bool := name ≠ "" && !t.names.contains name

def tenant? (t : Table) (key : Key) : Option Tenant :=
  match t.slots[key.slot.toNat]? with
  | some slot => if slot.generation = key.generation then slot.tenant else none
  | none => none

def contains (t : Table) (key : Key) : Bool := (t.tenant? key).isSome

def indexOf? (t : Table) (key : Key) : Option Nat := (t.tenant? key).map (·.index)

def nameOf? (t : Table) (key : Key) : Option String := (t.tenant? key).map (·.name)

def keyAt? (t : Table) (index : Nat) : Option Key := t.order[index]?

def occupy (t : Table) (tenant : Tenant) : Except Defect (Key × List Slot × List UInt32) :=
  match t.vacant with
  | [] => .ok (⟨UInt32.ofNat t.slots.length, 0⟩, t.slots ++ [⟨0, some tenant⟩], [])
  | slot :: vacant =>
    match t.slots[slot.toNat]? with
    | some s =>
      .ok (⟨slot, s.generation⟩, t.slots.set slot.toNat ⟨s.generation, some tenant⟩, vacant)
    | none => .error .noSlot

def insert (name : String) (index : Nat) : Edit Key := do
  let t ← get
  if index = t.order.length then
    match t.occupy ⟨index, name⟩ with
    | .ok (key, slots, vacant) =>
      set { t with
        slots := slots
        vacant := vacant
        order := t.order ++ [key]
        names := t.names.insert name }
      return key
    | .error defect => throw defect
  else throw .outOfStep

def reseat (slots : List Slot) (key : Key) (position : Nat) : Except Defect (List Slot) :=
  match slots[key.slot.toNat]? with
  | some s => .ok (slots.set key.slot.toNat (s.seatedAt position))
  | none => .error .noSlot

def reindex (slots : List Slot) (order : List Key) (start : Nat) : Except Defect (List Slot) :=
  ((order.drop start).zipIdx start).foldlM (fun slots x => reseat slots x.1 x.2) slots

/-- Takes out the entity of a key, if the key still fits, and tells where it stood. Its name is
free again, and the later entities move down by one. -/
def remove (key : Key) : Edit (Option Nat) := do
  let t ← get
  match t.tenant? key with
  | none => return none
  | some tenant =>
    if t.order[tenant.index]? = some key then
      let order := t.order.eraseIdx tenant.index
      match reindex (t.slots.set key.slot.toNat ⟨key.generation + 1, none⟩) order tenant.index with
      | .ok slots =>
        set { t with
          slots := slots
          vacant := key.slot :: t.vacant
          order := order
          names := t.names.erase tenant.name }
        return some tenant.index
      | .error defect => throw defect
    else throw .disordered

end Table

end LinearProgram
