import LinearProgram.Bound
import LinearProgram.Direction

namespace LinearProgram

inductive ColumnKind where
  | continuous
  | integer
  deriving DecidableEq

namespace ColumnKind

def all : List ColumnKind := [.continuous, .integer]

def name : ColumnKind → String
  | .continuous => "Continuous"
  | .integer => "Integer"

instance : JsonForm ColumnKind := .ofNames all name

end ColumnKind

structure Column where
  name : String
  bound : Bound
  kind : ColumnKind
  objective : Float

structure Entry where
  column : Nat
  coefficient : Float

structure Row where
  name : String
  bound : Bound
  entries : List Entry

structure Tableau where
  columns : List Column
  rows : List Row
  direction : Direction

namespace Entry

def stored (entries : List Entry) : List Entry := entries.filter fun e => e.coefficient != 0

def without (column : Nat) (entries : List Entry) : List Entry :=
  (entries.filter (·.column ≠ column)).map fun e =>
    if column < e.column then { e with column := e.column - 1 } else e

end Entry

namespace Column

def fresh (name : String) : Column := ⟨name, .free, .continuous, 0⟩

end Column

namespace Row

def withoutColumn (r : Row) (column : Nat) : Row :=
  { r with entries := Entry.without column r.entries }

end Row

namespace Tableau

def empty : Tableau := ⟨[], [], .minimize⟩

instance : Inhabited Tableau := ⟨empty⟩

/-- A change to a tableau. What was done before a defect stays done. -/
abbrev Edit (α : Type) := EStateM Defect Tableau α

def column (t : Tableau) (i : Nat) : Except Defect Column :=
  match t.columns[i]? with
  | some c => .ok c
  | none => .error (.noColumn i)

def row (t : Tableau) (i : Nat) : Except Defect Row :=
  match t.rows[i]? with
  | some r => .ok r
  | none => .error (.noRow i)

def objective (t : Tableau) : List Float := t.columns.map (·.objective)

def addColumn (name : String) : Edit Nat := do
  let t ← get
  set { t with columns := t.columns ++ [Column.fresh name] }
  return t.columns.length

def addRow (name : String) (entries : List Entry) (bound : Bound) : Edit Nat := do
  let t ← get
  set { t with rows := t.rows ++ [Row.mk name bound (Entry.stored entries)] }
  return t.rows.length

def modifyColumn (i : Nat) (f : Column → Column) : Edit Unit := do
  let t ← get
  match t.columns[i]? with
  | some c => set { t with columns := t.columns.set i (f c) }
  | none => throw (.noColumn i)

def modifyRow (i : Nat) (f : Row → Row) : Edit Unit := do
  let t ← get
  match t.rows[i]? with
  | some r => set { t with rows := t.rows.set i (f r) }
  | none => throw (.noRow i)

def setColumnBound (i : Nat) (bound : Bound) : Edit Unit :=
  modifyColumn i fun c => { c with bound := bound }

def setColumnKind (i : Nat) (kind : ColumnKind) : Edit Unit :=
  modifyColumn i fun c => { c with kind := kind }

def setRowBound (i : Nat) (bound : Bound) : Edit Unit :=
  modifyRow i fun r => { r with bound := bound }

def setEntries (i : Nat) (entries : List Entry) : Edit Unit :=
  modifyRow i fun r => { r with entries := Entry.stored entries }

def withObjective : List Column → List Float → List Column
  | c :: columns, x :: xs => { c with objective := x } :: withObjective columns xs
  | columns, _ => columns

def setObjective (coefficients : List Float) : Edit Unit :=
  modify fun t => { t with columns := withObjective t.columns coefficients }

def setDirection (direction : Direction) : Edit Unit :=
  modify fun t => { t with direction := direction }

def insertDescending (i : Nat) : List Nat → List Nat
  | [] => [i]
  | j :: js => if j < i then i :: j :: js else if i = j then j :: js else j :: insertDescending i js

def descending (indices : List Nat) : List Nat := indices.foldr insertDescending []

def withoutColumn (t : Tableau) (i : Nat) : Tableau :=
  { t with columns := t.columns.eraseIdx i, rows := t.rows.map (·.withoutColumn i) }

def withoutRow (t : Tableau) (i : Nat) : Tableau := { t with rows := t.rows.eraseIdx i }

def deleteColumn (i : Nat) : Edit Unit := do
  let t ← get
  if i < t.columns.length then set (t.withoutColumn i) else throw (.noColumn i)

def deleteRow (i : Nat) : Edit Unit := do
  let t ← get
  if i < t.rows.length then set (t.withoutRow i) else throw (.noRow i)

def deleteColumns (indices : List Nat) : Edit Unit := (descending indices).forM deleteColumn

def deleteRows (indices : List Nat) : Edit Unit := (descending indices).forM deleteRow

end Tableau

end LinearProgram
