import RequestRouting.Number.Binary64

/-!
Values of a TOML document.
-/

namespace RequestRouting.Toml

/-- A value. A date or time is kept in its written form, with a capital letter between date and
time and no superfluous zeros behind the seconds. -/
inductive Value where
  | string (s : String)
  | integer (n : Int)
  | float (x : Binary64)
  | boolean (b : Bool)
  | datetime (text : String)
  | array (items : List Value)
  | table (entries : List (String × Value))
deriving Repr, Inhabited

end RequestRouting.Toml
