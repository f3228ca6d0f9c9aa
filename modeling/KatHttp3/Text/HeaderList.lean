import KatHttp3.Text.Str

/-!
# Header lists

A `HeaderList` keeps the order of its fields and allows repeated names.
Names are compared up to letter case.
-/

namespace KatHttp3

open Str

structure Header where
  name : Str
  value : Str
  deriving DecidableEq, Repr

abbrev HeaderList := List Header

namespace HeaderList

def add (headers : HeaderList) (name value : Str) : HeaderList := headers ++ [⟨name, value⟩]

/-- All values for a name, in order. -/
def getAll (headers : HeaderList) (name : Str) : List Str :=
  (headers.filter fun h => asciiIequals h.name name).map Header.value

/-- First value whose name matches, or the empty string. -/
def get (headers : HeaderList) (name : Str) : Str := (headers.getAll name).headD []

def hasHeader (headers : HeaderList) (name : Str) : Bool := headers.getAll name != []

@[simp] theorem getAll_nil (name : Str) : getAll [] name = [] := rfl

theorem getAll_append (xs ys : HeaderList) (name : Str) :
    getAll (xs ++ ys) name = getAll xs name ++ getAll ys name := by
  simp [getAll]

theorem getAll_add_of_ne (headers : HeaderList) (name value other : Str)
    (h : asciiIequals name other = false) :
    (headers.add name value).getAll other = headers.getAll other := by
  simp [add, getAll, h]

end HeaderList

end KatHttp3
