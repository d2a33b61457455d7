namespace RecordDecoding

inductive Json where
  | null
  | bool (value : Bool)
  | number (literal : String)
  | string (text : String)
  | array (items : List Json)
  | object (members : List (String × Json))

namespace Json

def ofInt (n : Int) : Json := number (toString n)

def ofNat (n : Nat) : Json := number (toString n)

-- The last member of that name.
def member? (j : Json) (name : String) : Option Json :=
  match j with
  | object members => (members.reverse.find? (·.1 == name)).map (·.2)
  | _ => none

end Json

end RecordDecoding
