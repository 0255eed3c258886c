import HackToolchain.Failure

/-! # The registry of functions

Which unit defines which function, in the order in which the functions were first added.  Adding a name again moves
it to the new unit; once frozen the registry takes no more names.
-/
namespace HackToolchain.Link

structure Registry where
  entries : List (String × String) := []
  frozen : Bool := false
  deriving DecidableEq, Repr

namespace Registry

def lookup (registry : Registry) (name : String) : Option String := registry.entries.lookup name

def contains (registry : Registry) (name : String) : Bool := (registry.lookup name).isSome

/-- The entries with a name's unit replaced, or with the name put at the end if it is new. -/
def put (name unit : String) : List (String × String) → List (String × String)
  | [] => [(name, unit)]
  | entry :: rest => if entry.1 = name then (name, unit) :: rest else entry :: put name unit rest

def add (registry : Registry) (name unit : String) : Except LinkError Registry :=
  if registry.frozen then .error (.frozen name) else .ok { registry with entries := put name unit registry.entries }

@[simp] theorem lookup_put (name unit other : String) (entries : List (String × String)) :
    (put name unit entries).lookup other = if other = name then some unit else entries.lookup other := by
  induction entries with
  | nil => grind [put]
  | cons entry rest ih => grind [put]

def freeze (registry : Registry) : Registry := { registry with frozen := true }

def names (registry : Registry) : List String := registry.entries.map (·.1)

def namesOf (registry : Registry) (unit : String) : List String :=
  (registry.entries.filter (·.2 == unit)).map (·.1)

/-- By unit first, then by name, both in the order of their code points. -/
def entryLe (x y : String × String) : Bool :=
  x.2 < y.2 || (x.2 == y.2 && x.1 ≤ y.1)

/-- A listing sorted by unit and name. -/
def listing (registry : Registry) : String :=
  "\n".intercalate ((registry.entries.mergeSort entryLe).map fun (name, unit) => s!"{name} = {unit}")

def describe (registry : Registry) : String :=
  let state := if registry.frozen then "frozen" else "open"
  s!"FunctionTable({registry.entries.length} functions, {state})"

end Registry

end HackToolchain.Link
