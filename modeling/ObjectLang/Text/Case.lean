import ObjectLang.Text.CaseTable

/-!
# Uppercase and lowercase text

Mappings are the full ones: a character may become several. The only one that
looks at its neighbours is the capital sigma, which has a form of its own at
the end of a word.
-/

namespace ObjectLang.Text

def isUppercase (c : Char) : Bool :=
  uppercase.contains c

private def mapCase (special : List (Nat × List Nat)) (runs : List CaseRun) (c : Char) :
    List Char :=
  match special.lookup c.toNat with
  | some cs => cs.map Char.ofNat
  | none => ((mapRuns runs c.toNat).elim c Char.ofNat) :: []

def upcaseChar (c : Char) : List Char :=
  mapCase upperSpecial upperRuns c

def downcaseChar (c : Char) : List Char :=
  mapCase lowerSpecial lowerRuns c

def upcaseChars (cs : List Char) : List Char :=
  cs.flatMap upcaseChar

/-- Whether the nearest character that does not ignore case is a cased one. -/
def meetsCased (cs : List Char) : Bool :=
  match cs.dropWhile caseIgnorable.contains with
  | [] => false
  | c :: _ => cased.contains c

/-- A capital sigma that ends a word: a cased character stands before it and none after it. -/
def isFinalSigma (before after : List Char) : Bool :=
  meetsCased before && !meetsCased after

/-- Lowercases `cs`, where `before` holds the characters in front, nearest first. -/
def downcaseAfter (before : List Char) : List Char → List Char
  | [] => []
  | c :: rest =>
    (if c = 'Σ' then [if isFinalSigma before rest then 'ς' else 'σ'] else downcaseChar c)
      ++ downcaseAfter (c :: before) rest

def upcase (s : String) : String :=
  String.ofList (upcaseChars s.toList)

def downcase (s : String) : String :=
  String.ofList (downcaseAfter [] s.toList)

end ObjectLang.Text
