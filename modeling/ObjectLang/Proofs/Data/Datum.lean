import ObjectLang.Proofs.Parse.Parts
import ObjectLang.Store.Equality

/-!
# Data

A datum is a value without references, given by what it is written as: its text, the
tokens of the text, the expression they make up, and its hash key if it has one. A
value holds a datum in a store; nothing in it can contain itself.
-/

namespace ObjectLang

open Scan

/-! ## Data as they are written -/

structure Datum where
  text : List Char
  pieces : List Piece
  expr : Expr
  /-- Hashes, and arrays with hashes in them, have none. -/
  key : Option HashKey

namespace Datum

def nil : Datum := ⟨['n', 'i', 'l'], [mark .nilWord], .literal .nil, some .nil⟩

def bool : Bool → Datum
  | true => ⟨['t', 'r', 'u', 'e'], [mark .trueWord], .literal (.bool true), some (.bool true)⟩
  | false =>
    ⟨['f', 'a', 'l', 's', 'e'], [mark .falseWord], .literal (.bool false), some (.bool false)⟩

/-- A negative integer is a positive one behind a minus. -/
def int (n : Int64) : Datum :=
  if 0 ≤ n.toInt then
    ⟨Nat.toDigits 10 n.toInt.natAbs, [tok (.integer n)], .literal (.integer n), some (.int n)⟩
  else
    let m := Int64.ofInt (-n.toInt)
    ⟨'-' :: Nat.toDigits 10 n.toInt.natAbs, [mark .minus, tok (.integer m)],
      .negative (.literal (.integer m)), some (.int n)⟩

def str (s : String) : Datum :=
  ⟨Text.quoteChars s.toList, [tok (.str s)], .literal (.str s), some (.str s)⟩

def symbol (s : String) : Datum :=
  ⟨':' :: s.toList, [tok (.symbol s)], .literal (.symbol s), some (.symbol s)⟩

def range (lower upper : Int64) : Datum where
  text := (int lower).text ++ '.' :: '.' :: (int upper).text
  pieces := (int lower).pieces ++ mark .dotDot :: (int upper).pieces
  expr := .range (int lower).expr (int upper).expr
  key := some (.range lower upper)

def joined (texts : List (List Char)) : List Char := [',', ' '].intercalate texts

def separated (parts : List (List Piece)) : List Piece := [mark .comma].intercalate parts

def array (ds : List Datum) : Datum where
  text := '[' :: (joined (ds.map text) ++ [']'])
  pieces := mark .lbracket :: (separated (ds.map pieces) ++ [mark .rbracket])
  expr := .array (ds.map expr)
  key := (ds.mapM key).map .array

def entryText (x : Datum × Datum) : List Char :=
  x.1.text ++ '=' :: '>' :: x.2.text

def entryPieces (x : Datum × Datum) : List Piece :=
  x.1.pieces ++ mark .fatArrow :: x.2.pieces

def hash (xs : List (Datum × Datum)) : Datum where
  text := '{' :: (joined (xs.map entryText) ++ ['}'])
  pieces := mark .lbrace :: (separated (xs.map entryPieces) ++ [mark .rbrace])
  expr := .hash (xs.map fun x => (x.1.expr, x.2.expr))
  key := none

end Datum

/-! ## Data in a store -/

/-- The character is not inspected as `\r` or as a number in braces. -/
def Readable (c : Char) : Prop :=
  Text.escapeChar c ≠ ['\\', 'r'] ∧ Text.escapeChar c ≠ Text.numberEscape c

/-- Data: a value without objects, classes, blocks, reals and the smallest integer, and with
neither cycles nor hash keys that are the same. Strings have to be readable, and symbols have to
be shaped like identifiers. -/
inductive IsData (s : Store) : Value → Prop where
  | nil : IsData s .nil
  | bool (b : Bool) : IsData s (.bool b)
  | int {n : Int64} : n ≠ Int64.minValue → IsData s (.int n)
  | str {t : String} : (∀ c ∈ t.toList, Readable c) → IsData s (.str t)
  | symbol {t : String} : IsIdentifier t.toList → IsData s (.symbol t)
  | range {a b : Int64} : a ≠ Int64.minValue → b ≠ Int64.minValue → IsData s (.range a b)
  | array {a : ArrayId} {items : Array Value} : s.arrays[a.index]? = some items →
      (∀ v ∈ items.toList, IsData s v) → IsData s (.array a)
  | hash {h : HashId} {t : HashTable} : s.hashes[h.index]? = some t →
      (∀ p ∈ t.pairs, IsData s p.1) → (∀ p ∈ t.pairs, IsData s p.2) →
      (∀ p ∈ t.pairs, ∃ k, s.hashKey p.1 = .ok k) → (t.pairs.map fun p => s.hashKey p.1).Nodup →
      IsData s (.hash h)

/-- The value is the datum. -/
inductive Holds (s : Store) : Value → Datum → Prop where
  | nil : Holds s .nil .nil
  | bool (b : Bool) : Holds s (.bool b) (.bool b)
  | int {n : Int64} : n ≠ Int64.minValue → Holds s (.int n) (.int n)
  | str {t : String} : (∀ c ∈ t.toList, Readable c) → Holds s (.str t) (.str t)
  | symbol {t : String} : IsIdentifier t.toList → Holds s (.symbol t) (.symbol t)
  | range {a b : Int64} : a ≠ Int64.minValue → b ≠ Int64.minValue →
      Holds s (.range a b) (.range a b)
  | array {a : ArrayId} {items : Array Value} {xs : List (Value × Datum)} :
      s.arrays[a.index]? = some items → items.toList = xs.map (·.1) →
      (∀ x ∈ xs, Holds s x.1 x.2) → Holds s (.array a) (.array (xs.map (·.2)))
  | hash {h : HashId} {t : HashTable} {xs : List ((Value × Datum) × (Value × Datum))} :
      s.hashes[h.index]? = some t → t.pairs = xs.map (fun x => (x.1.1, x.2.1)) →
      (∀ x ∈ xs, Holds s x.1.1 x.1.2) → (∀ x ∈ xs, Holds s x.2.1 x.2.2) →
      (∀ x ∈ xs, x.1.2.key.isSome = true) → (xs.map fun x => x.1.2.key).Nodup →
      Holds s (.hash h) (.hash (xs.map fun x => (x.1.2, x.2.2)))

/-! ## Stores that grow -/

/-- The collections of `s` are in `s'` as they were. -/
structure Store.Extends (s s' : Store) : Prop where
  arrays : ∀ (i : Nat) x, s.arrays[i]? = some x → s'.arrays[i]? = some x
  hashes : ∀ (i : Nat) x, s.hashes[i]? = some x → s'.hashes[i]? = some x

namespace Store.Extends

theorem refl (s : Store) : s.Extends s :=
  ⟨fun _ _ h => h, fun _ _ h => h⟩

theorem trans {s t u : Store} (h : s.Extends t) (h' : t.Extends u) : s.Extends u :=
  ⟨fun i x e => h'.arrays i x (h.arrays i x e), fun i x e => h'.hashes i x (h.hashes i x e)⟩

end Store.Extends

theorem getElem?_push_of_some {α : Type} {xs : Array α} {i : Nat} {x : α} (h : xs[i]? = some x)
    (y : α) : (xs.push y)[i]? = some x := by
  obtain ⟨hi, e⟩ := Array.getElem?_eq_some_iff.mp h
  rw [Array.getElem?_push, if_neg (Nat.ne_of_lt hi), h]

theorem extends_addArray (s : Store) (items : Array Value) : s.Extends (s.addArray items).2 :=
  ⟨fun _ _ h => getElem?_push_of_some h items, fun _ _ h => h⟩

theorem extends_addHash (s : Store) (t : HashTable) : s.Extends (s.addHash t).2 :=
  ⟨fun _ _ h => h, fun _ _ h => getElem?_push_of_some h t⟩

section
variable {s s' : Store} {v : Value} {d : Datum}

theorem Holds.mono (h : Holds s v d) (hs : s.Extends s') : Holds s' v d := by
  induction h with
  | nil => exact .nil
  | bool b => exact .bool b
  | int hn => exact .int hn
  | str ht => exact .str ht
  | symbol ht => exact .symbol ht
  | range ha hb => exact .range ha hb
  | array ha hi _ ih => exact .array (hs.arrays _ _ ha) hi ih
  | hash hh hp _ _ hk hn ihk ihv => exact .hash (hs.hashes _ _ hh) hp ihk ihv hk hn

end

end ObjectLang
