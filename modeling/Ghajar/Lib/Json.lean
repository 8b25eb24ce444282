import Ghajar.Lib.Keyed
import Ghajar.Lib.Text

/-!
# JSON values

An object keeps its fields in the order they were first put, and a put under a
name that is there replaces the value where it stands. A number is the text it
is written as.
-/

inductive Json where
  | null
  | bool (b : Bool)
  | num (text : String)
  | str (text : String)
  | arr (items : List Json)
  | obj (fields : List (String × Json))
  deriving Repr, BEq, Inhabited

abbrev JSONObject := List (String × Json)

abbrev JSONArray := List Json

instance : Coe String Json := ⟨.str⟩
instance : Coe Bool Json := ⟨.bool⟩
instance : Coe Int Json := ⟨fun n => .num (toString n)⟩
instance : Coe JSONArray Json := ⟨.arr⟩
instance : Coe JSONObject Json := ⟨.obj⟩

namespace Json

def hexDigits (n : Nat) : String :=
  String.ofList ((Nat.toDigits 16 n).leftpad 4 '0')

def escape (c : Char) : String :=
  if c = '"' ∨ c = '\\' ∨ c = '/' then String.ofList ['\\', c]
  else if c = '\t' then "\\t"
  else if c = '\n' then "\\n"
  else if c = '\r' then "\\r"
  else if c.toNat = 8 then "\\b"
  else if c.toNat = 12 then "\\f"
  else if c.toNat < 32 then "\\u" ++ hexDigits c.toNat
  else String.ofList [c]

def quote (s : String) : String :=
  "\"" ++ String.join (s.toList.map escape) ++ "\""

mutual

/-- The text a value is written as. -/
def print : Json → String
  | null => "null"
  | bool b => if b then "true" else "false"
  | num t => t
  | str t => quote t
  | arr items => "[" ++ ",".intercalate (printItems items) ++ "]"
  | obj fields => "\x7b" ++ ",".intercalate (printFields fields) ++ "\x7d"

def printItems : List Json → List String
  | [] => []
  | v :: vs => print v :: printItems vs

def printFields : List (String × Json) → List String
  | [] => []
  | (k, v) :: fs => (quote k ++ ":" ++ print v) :: printFields fs

end

/-- What a value is where a string is asked for. -/
def asString : Json → String
  | str t => t
  | v => print v

end Json

namespace JSONObject

def put (o : JSONObject) (k : String) (v : Json) : JSONObject := Keyed.put Prod.fst o (k, v)

def opt (o : JSONObject) (k : String) : Option Json := (Keyed.get Prod.fst o k).map Prod.snd

def optString (o : JSONObject) (k : String) (fallback : String := "") : String :=
  match o.opt k with
  | some v => v.asString
  | none => fallback

/-- A boolean, also where it stands as text in any case. -/
def optBoolean (o : JSONObject) (k : String) (fallback : Bool := false) : Bool :=
  match o.opt k with
  | some (.bool b) => b
  | some (.str t) =>
    if Text.equalsIgnoreCase t "true" then true
    else if Text.equalsIgnoreCase t "false" then false
    else fallback
  | _ => fallback

def optJSONObject (o : JSONObject) (k : String) : Option JSONObject :=
  match o.opt k with
  | some (.obj fields) => some fields
  | _ => none

def optJSONArray (o : JSONObject) (k : String) : Option JSONArray :=
  match o.opt k with
  | some (.arr items) => some items
  | _ => none

/-- The field is put where the condition holds and left out otherwise. -/
def putIf (o : JSONObject) (c : Bool) (k : String) (v : Json) : JSONObject :=
  if c then o.put k v else o

variable {o : JSONObject} {k k' : String} {v : Json} {c : Bool}

@[simp] theorem opt_nil : opt [] k = none := rfl

@[simp] theorem opt_put_self : opt (put o k v) k = some v := by
  unfold opt put
  have h : Keyed.get Prod.fst (Keyed.put Prod.fst o (k, v)) k = some (k, v) :=
    Keyed.get_put_self
  rw [h, Option.map_some]

@[simp] theorem opt_put_ne (h : k ≠ k') : opt (put o k v) k' = opt o k' := by
  unfold opt put
  have hg : Keyed.get Prod.fst (Keyed.put Prod.fst o (k, v)) k' = Keyed.get Prod.fst o k' :=
    Keyed.get_put_ne (Ne.symm h)
  rw [hg]

@[simp] theorem opt_putIf_ne (h : k ≠ k') : opt (putIf o c k v) k' = opt o k' := by
  unfold putIf
  split
  · exact opt_put_ne h
  · rfl

theorem opt_put : opt (put o k v) k' = if k = k' then some v else opt o k' := by
  by_cases h : k = k'
  · rw [if_pos h, ← h, opt_put_self]
  · rw [if_neg h, opt_put_ne h]

theorem opt_putIf : opt (putIf o c k v) k' = if c ∧ k = k' then some v else opt o k' := by
  cases c
  · simp [putIf]
  · simp [putIf, opt_put]

theorem opt_putIf_self (h : opt o k = none) :
    opt (putIf o c k v) k = if c then some v else none := by
  unfold putIf
  split
  · exact opt_put_self
  · exact h

end JSONObject
