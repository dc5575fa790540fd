namespace Klein

/-- Why a sequence has no element at an index. -/
inductive IndexError
  | outOfRange (container : String)
  | oversized (index : String)
deriving DecidableEq, Repr

def IndexError.message : IndexError → String
  | .outOfRange container => s!"{container} index out of range"
  | .oversized index => s!"cannot fit '{index}' into an index-sized integer"

/-- The index of an element counted from the front, for an index that may also count from the end
    with minus one for the last element. -/
def frontIndex? (length : Nat) (index : Int) : Option Nat :=
  let index := if index < 0 then length + index else index
  if 0 ≤ index ∧ index < length then some index.toNat else none

/-- The element at an index that counts from the front, or from the end if it is negative. Indices
    of more than 64 bits are refused. The words name what is indexed and by what. -/
def elementAt {α : Type} (container indexName : String) (items : List α) (index : Int) :
    Except IndexError α :=
  if index < -0x8000000000000000 ∨ 0x8000000000000000 ≤ index then .error (.oversized indexName)
  else
    match (frontIndex? items.length index).bind fun i => items[i]? with
    | some item => .ok item
    | none => .error (.outOfRange container)

end Klein
