import LinearProgram.Error

namespace LinearProgram

structure Solution where
  objective : Float
  columns : List Float
  columnDuals : Option (List Float)
  rowDuals : Option (List Float)

namespace Solution

def ofValues (objective : Float) (columns : List Float) : Solution :=
  ⟨objective, columns, none, none⟩

def validate (s : Solution) (columns rows : Nat) : Outcome Unit :=
  if s.columns.length ≠ columns then
    Outcome.refuseFault (.columnValues columns s.columns.length)
  else
    match s.columnDuals.filter (·.length ≠ columns), s.rowDuals.filter (·.length ≠ rows) with
    | some duals, _ => Outcome.refuseFault (.columnDuals columns duals.length)
    | none, some duals => Outcome.refuseFault (.rowDuals rows duals.length)
    | none, none => pure ()

def withoutColumn (s : Solution) (i : Nat) : Solution :=
  { s with columns := s.columns.eraseIdx i, columnDuals := s.columnDuals.map (·.eraseIdx i) }

def withoutRow (s : Solution) (i : Nat) : Solution :=
  { s with rowDuals := s.rowDuals.map (·.eraseIdx i) }

def without (s : Solution) : EntityKind → Nat → Solution
  | .var => s.withoutColumn
  | .constraint => s.withoutRow

end Solution

end LinearProgram
