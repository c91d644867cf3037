/-!
Lists of names with values that are sorted by name, each name once.
-/

namespace RequestRouting.SortedPairs

/-- Sets the value of a name in a sorted list. -/
def insert {ν : Type} (name : String) (value : ν) : List (String × ν) → List (String × ν)
  | [] => [(name, value)]
  | (n, v) :: rest =>
    if name < n then (name, value) :: (n, v) :: rest
    else if name = n then (name, value) :: rest
    else (n, v) :: insert name value rest

/-- The pairs sorted by name; of pairs with one name the last counts. -/
def ofList {ν : Type} (pairs : List (String × ν)) : List (String × ν) :=
  pairs.foldl (fun m p => insert p.1 p.2 m) []

end RequestRouting.SortedPairs
