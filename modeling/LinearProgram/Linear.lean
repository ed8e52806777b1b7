import LinearProgram.Error
import LinearProgram.Registry

namespace LinearProgram

structure Term where
  coefficient : Float
  var : Variable
  deriving BEq

structure Linear where
  coefficients : Registry Variable Float
  nonzero : ∀ e ∈ coefficients.entries, (e.2 == 0) = false

namespace Linear

def empty : Linear := ⟨.empty, by simp [Registry.empty]⟩

instance : Inhabited Linear := ⟨empty⟩

def terms (l : Linear) : List Term := l.coefficients.entries.map fun e => ⟨e.2, e.1⟩

def vars (l : Linear) : List Variable := l.coefficients.keys

def size (l : Linear) : Nat := l.coefficients.size

def isEmpty (l : Linear) : Bool := l.coefficients.isEmpty

def coefficient? (l : Linear) (v : Variable) : Option Float := l.coefficients.find? v

def contains (l : Linear) (v : Variable) : Bool := l.coefficients.contains v

def erase (l : Linear) (v : Variable) : Linear :=
  ⟨l.coefficients.erase v, fun e h => l.nonzero e (Registry.mem_erase h)⟩

/-- Gives a variable its coefficient. Zero takes the term out; a term that is there keeps its
place. -/
def set (l : Linear) (coefficient : Float) (v : Variable) : Linear :=
  if h : (coefficient == 0) = true then l.erase v
  else
    ⟨l.coefficients.insert v coefficient, fun e he => by
      rcases Registry.mem_insert he with rfl | he
      · simpa using h
      · exact l.nonzero e he⟩

def add (l : Linear) (t : Term) : Linear :=
  if t.coefficient == 0 then l
  else l.set ((l.coefficient? t.var).getD 0 + t.coefficient) t.var

def addAll (l : Linear) (ts : List Term) : Linear := ts.foldl add l

def ofTerms (ts : List Term) : Linear := empty.addAll ts

def single (coefficient : Float) (v : Variable) : Linear := empty.add ⟨coefficient, v⟩

def ofLists (coefficients : List Float) (vars : List Variable) : Outcome Linear :=
  if coefficients.length = vars.length then
    pure (ofTerms (List.zipWith Term.mk coefficients vars))
  else
    Outcome.refuseFault (.unequalSizes coefficients.length vars.length)

def remove (l : Linear) (v : Variable) : Option Term × Linear :=
  ((l.coefficient? v).map (⟨·, v⟩), l.erase v)

instance : BEq Linear := ⟨fun a b => a.coefficients == b.coefficients⟩

end Linear

structure FrozenLinear where
  form : Linear
  deriving BEq

namespace Linear

def freeze (l : Linear) : FrozenLinear := ⟨l⟩

end Linear

namespace FrozenLinear

def thaw (f : FrozenLinear) : Linear := f.form

def terms (f : FrozenLinear) : List Term := f.form.terms

end FrozenLinear

end LinearProgram
