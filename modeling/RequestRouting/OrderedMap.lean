/-!
Maps that keep their keys in the order of first insertion. Inserting under a key that is there
replaces the value and keeps the place: `keys_insert` gives the keys after an insertion, and
`get?_insert` the values.
-/

namespace RequestRouting

/-- Keys with their values, in the order of first insertion. -/
structure OrderedMap (κ ν : Type) where
  toList : List (κ × ν) := []
deriving DecidableEq, Repr

namespace OrderedMap

variable {κ ν : Type} [DecidableEq κ]

def empty : OrderedMap κ ν := {}

def get? (m : OrderedMap κ ν) (k : κ) : Option ν := (m.toList.find? (·.1 = k)).map (·.2)

def contains (m : OrderedMap κ ν) (k : κ) : Bool := (m.get? k).isSome

def keys (m : OrderedMap κ ν) : List κ := m.toList.map (·.1)

def values (m : OrderedMap κ ν) : List ν := m.toList.map (·.2)

def size (m : OrderedMap κ ν) : Nat := m.toList.length

/-- Replaces the value of a key in place, or adds the key at the end. -/
def insertList (k : κ) (v : ν) : List (κ × ν) → List (κ × ν)
  | [] => [(k, v)]
  | (k', v') :: rest => if k' = k then (k, v) :: rest else (k', v') :: insertList k v rest

def insert (m : OrderedMap κ ν) (k : κ) (v : ν) : OrderedMap κ ν := ⟨insertList k v m.toList⟩

/-- Inserts the pairs in order. -/
def insertAll (m : OrderedMap κ ν) (kvs : List (κ × ν)) : OrderedMap κ ν :=
  kvs.foldl (fun m kv => m.insert kv.1 kv.2) m

/-! ## Laws -/

theorem keys_insertList (k : κ) (v : ν) (l : List (κ × ν)) :
    (insertList k v l).map (·.1) =
      if k ∈ l.map (·.1) then l.map (·.1) else l.map (·.1) ++ [k] := by
  induction l with
  | nil => simp [insertList]
  | cons p rest ih =>
    obtain ⟨k', v'⟩ := p
    by_cases h : k' = k
    · simp [insertList, h]
    · have h' : ¬k = k' := fun e => h e.symm
      simp only [insertList, h, if_false, List.map_cons, ih, List.mem_cons, h', false_or]
      split <;> simp

@[simp]
theorem keys_insert (m : OrderedMap κ ν) (k : κ) (v : ν) :
    (m.insert k v).keys = if k ∈ m.keys then m.keys else m.keys ++ [k] :=
  keys_insertList k v m.toList

theorem find?_insertList (k k' : κ) (v : ν) (l : List (κ × ν)) :
    ((insertList k v l).find? (·.1 = k')).map (·.2) =
      if k' = k then some v else (l.find? (·.1 = k')).map (·.2) := by
  induction l with
  | nil => by_cases h : k = k' <;> simp [insertList, h, eq_comm]
  | cons p rest ih =>
    obtain ⟨k₀, v₀⟩ := p
    by_cases h : k₀ = k
    · subst h
      by_cases h' : k₀ = k'
      · simp [insertList, h']
      · have h'' : ¬k' = k₀ := fun e => h' e.symm
        simp [insertList, h', h'']
    · by_cases h₀ : k₀ = k'
      · subst h₀
        simp [insertList, h]
      · simpa [insertList, List.find?_cons, h, h₀] using ih

@[simp]
theorem get?_insert (m : OrderedMap κ ν) (k k' : κ) (v : ν) :
    (m.insert k v).get? k' = if k' = k then some v else m.get? k' :=
  find?_insertList k k' v m.toList

end OrderedMap

end RequestRouting
