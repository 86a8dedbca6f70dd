import ObjectLang.Value

/-!
# Hash keys

The part of a value by which a hash finds its entries. Data is found by value
and everything else by what it refers to; integers and reals stay apart.
-/

namespace ObjectLang

/-- A real up to the two zeros and up to the different forms of NaN. -/
structure RealKey where
  bits : UInt64
  deriving DecidableEq, Repr

def RealKey.ofReal (x : Float) : RealKey :=
  if x == 0.0 then ⟨0⟩
  else if x.isNaN then ⟨0x7ff8000000000000⟩
  else ⟨x.toBits⟩

inductive HashKey where
  | nil
  | bool (b : Bool)
  | int (n : Int64)
  | real (x : RealKey)
  | str (s : String)
  | symbol (s : String)
  | array (items : List HashKey)
  | range (lower upper : Int64)
  | object (o : ObjectId)
  | cls (c : ClassId)
  | proc (p : ProcId)

namespace HashKey

mutual

def same : HashKey → HashKey → Bool
  | nil, nil => true
  | bool a, bool b => a = b
  | int a, int b => a = b
  | real a, real b => a = b
  | str a, str b => a = b
  | symbol a, symbol b => a = b
  | array a, array b => sameList a b
  | range a b, range c d => a = c ∧ b = d
  | object a, object b => a = b
  | cls a, cls b => a = b
  | proc a, proc b => a = b
  | _, _ => false

def sameList : List HashKey → List HashKey → Bool
  | [], [] => true
  | k :: ks, l :: ls => same k l && sameList ks ls
  | _, _ => false

end

mutual

theorem same_iff : (k l : HashKey) → (same k l = true ↔ k = l)
  | array a, l => by cases l <;> simp [same, sameList_iff a]
  | nil, l | bool _, l | int _, l | real _, l | str _, l | symbol _, l | range _ _, l
  | object _, l | cls _, l | proc _, l => by cases l <;> simp [same]

theorem sameList_iff : (k l : List HashKey) → (sameList k l = true ↔ k = l)
  | [], l => by cases l <;> simp [sameList]
  | k :: ks, l => by cases l <;> simp [sameList, same_iff k, sameList_iff ks]

end

instance : DecidableEq HashKey := fun k l => decidable_of_iff _ (same_iff k l)

end HashKey

end ObjectLang
