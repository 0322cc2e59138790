import Ccp.Lib.GoMap

namespace Ccp.Lib

-- A JSON value; the members of an object are in the order of the text.
inductive Json
  | null
  | bool (b : Bool)
  | num (n : Int)
  | str (s : List Char)
  | arr (items : List Json)
  | obj (members : List (List Char × Json))

namespace Json

-- How Go compares the names of members and fields. The Kelvin sign and the long
-- s are the only characters outside ASCII that fold to one of its letters.
def foldRune (c : Char) : Char :=
  if c.toNat = 0x212A then 'k' else if c.toNat = 0x017F then 's' else c.toLower

def foldName (name : List Char) : List Char := name.map foldRune

-- A field of a struct: its name, and what a member for it does. There is no
-- result where the value is not of the field's type.
structure Field (σ : Type*) where
  name : List Char
  put : Json → σ → Option σ

section Struct

variable {σ : Type*}

-- A null leaves the field as it is.
def putInt (f : Int → σ → σ) : Json → σ → Option σ
  | .null, s => some s
  | .num n, s => some (f n s)
  | _, _ => none

def putStr (f : List Char → σ → σ) : Json → σ → Option σ
  | .null, s => some s
  | .str t, s => some (f t s)
  | _, _ => none

-- The field of exactly that name, else the first one up to case.
def fieldFor (fields : List (Field σ)) (key : List Char) : Option (Field σ) :=
  fields.find? (·.name = key) <|> fields.find? fun f => foldName f.name = foldName key

-- A member for which there is no field is skipped.
def putMember (fields : List (Field σ)) (m : List Char × Json) (s : σ) : Option σ :=
  match fieldFor fields m.1 with
  | none => some s
  | some f => f.put m.2 s

def decodeStruct (fields : List (Field σ)) (zero : σ) (members : List (List Char × Json)) :
    Option σ :=
  members.foldlM (fun s m => putMember fields m s) zero

end Struct

section Map

variable {κ ν : Type*} [DecidableEq κ] (key : List Char → Option κ) (value : Json → Option ν)

def decodeMap (members : List (List Char × Json)) (m : GoMap κ ν) : Option (GoMap κ ν) :=
  members.foldlM (fun m mem => (key mem.1).bind fun k => (value mem.2).map (m.insert k)) m

variable {key value}

theorem decodeMap_eq_some {α : Type*} {text : α → List Char} {json : α → Json} {k : α → κ}
    {v : α → ν} (hkey : ∀ a, key (text a) = some (k a)) (hvalue : ∀ a, value (json a) = some (v a))
    (items : List α) (m : GoMap κ ν) :
    decodeMap key value (items.map fun a => (text a, json a)) m =
      some (items.foldl (fun m a => m.insert (k a) (v a)) m) := by
  induction items generalizing m with
  | nil => rfl
  | cons a items ih =>
      rw [List.foldl_cons, ← ih]
      simp [decodeMap, hkey, hvalue]

end Map

end Json

end Ccp.Lib
