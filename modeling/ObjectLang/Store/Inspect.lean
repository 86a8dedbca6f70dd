import ObjectLang.Store
import ObjectLang.Decimal.Real
import ObjectLang.Text.Quoted

/-!
# Values as text

Values have a form for developers, in which text is quoted, and one for users.
A collection that is reached again from inside itself is shown by dots.
-/

namespace ObjectLang

inductive Container where
  | array (a : ArrayId)
  | hash (h : HashId)
  deriving DecidableEq, Repr

/-- A number that tells one object or block from all others, in twelve hexadecimal digits:
even numbers for objects and odd ones for blocks. -/
def identityText (n : Nat) : String :=
  let digits := Nat.toDigits 16 n
  String.ofList ('0' :: 'x' :: (List.replicate (12 - digits.length) '0' ++ digits))

def listed (left right : String) (items : List String) : String :=
  left ++ String.intercalate ", " items ++ right

namespace Store

def objectText (s : Store) (o : ObjectId) : String :=
  "#<" ++ (s.cls (s.object o).cls).name ++ ":" ++ identityText (2 * o.index) ++ ">"

/-- The developers' form of a value that is not a collection. -/
def inspectAtom (s : Store) : Value → String
  | .nil => "nil"
  | .bool true => "true"
  | .bool false => "false"
  | .int n => toString n.toInt
  | .real x => Decimal.realText x
  | .str t => Text.quote t
  | .symbol t => ":" ++ t
  | .array _ => "[...]"
  | .hash _ => "\x7b...\x7d"
  | .range lower upper => toString lower.toInt ++ ".." ++ toString upper.toInt
  | .object o => s.objectText o
  | .cls c => (s.cls c).name
  | .proc p => "#<Proc:" ++ identityText (2 * p.index + 1) ++ ">"
  | .function f => "#<Function:" ++ f.name ++ ">"

/-- The developers' form of a value inside the collections `path`, at most `fuel` deep. -/
def inspectIn (s : Store) : (fuel : Nat) → (path : List Container) → Value → String
  | 0, _, v => s.inspectAtom v
  | fuel + 1, path, v =>
    match v with
    | .array a =>
      if path.contains (.array a) then s.inspectAtom v
      else listed "[" "]" ((s.array a).toList.map (s.inspectIn fuel (.array a :: path)))
    | .hash h =>
      if path.contains (.hash h) then s.inspectAtom v
      else
        let item := s.inspectIn fuel (.hash h :: path)
        listed "\x7b" "\x7d" ((s.hash h).pairs.map fun (k, w) => item k ++ "=>" ++ item w)
    | v => s.inspectAtom v

/-- No path holds more than every collection once. -/
def collectionCount (s : Store) : Nat := s.arrays.size + s.hashes.size

def inspect (s : Store) (v : Value) : String :=
  s.inspectIn s.collectionCount [] v

/-- Whether the hash is read to show a value inside the collections `path`, at most `fuel`
deep. -/
def readsIn (s : Store) (h : HashId) : (fuel : Nat) → (path : List Container) → Value → Bool
  | 0, _, _ => false
  | fuel + 1, path, v =>
    match v with
    | .array a =>
      !path.contains (.array a) && (s.array a).toList.any (s.readsIn h fuel (.array a :: path))
    | .hash i =>
      !path.contains (.hash i) &&
        (i = h || (s.hash i).pairs.any fun (k, w) =>
          s.readsIn h fuel (.hash i :: path) k || s.readsIn h fuel (.hash i :: path) w)
    | _ => false

def reads (s : Store) (h : HashId) (v : Value) : Bool :=
  s.readsIn h s.collectionCount [] v

/-- The users' form of a value: text stands as it is, and `nil` is empty. -/
def display (s : Store) (v : Value) : String :=
  match v with
  | .nil => ""
  | .str t | .symbol t => t
  | v => s.inspect v

/-- The lines that a value prints inside the arrays `path`: one for each element of nested
arrays, at most `fuel` deep. -/
def linesIn (s : Store) : (fuel : Nat) → (path : List ArrayId) → Value → List String
  | 0, _, v => [s.display v]
  | fuel + 1, path, v =>
    match v with
    | .array a =>
      if path.contains a then ["[...]"]
      else (s.array a).toList.flatMap (s.linesIn fuel (a :: path))
    | v => [s.display v]

def lines (s : Store) (v : Value) : List String :=
  s.linesIn (s.arrays.size + 1) [] v

end Store

end ObjectLang
