namespace BlockScript

inductive Numeral
  | integer (n : Int)
  | double (x : Float)
  /-- A number that is written with the digits single precision needs; reading gives none. -/
  | single (x : Float32)

/-- The fields of an object stand in the order in which they are written. -/
inductive Json
  | null
  | bool (b : Bool)
  | number (n : Numeral)
  | text (s : String)
  | list (items : List Json)
  | object (fields : List (String × Json))

end BlockScript
