import Mathlib.Tactic.SplitIfs
import ObjectLang.Eval.Operators

/-!
# The order of values

Equality and the order are computed apart. On integers and on strings they fit together: one of
less, equal and greater holds. Strings go by their code points, and so by the bytes of their
encoding, since a greater code point has a greater encoding and no encoding begins another.
-/

namespace ObjectLang

/-! ## Texts -/

namespace Text

def bytes (t : String) : List UInt8 := t.toUTF8.data.toList

def codePoints (t : String) : List Nat := t.toList.map Char.toNat

theorem lt_cases (a b : String) : a < b ∨ a = b ∨ b < a := by
  by_cases less : a < b
  · exact .inl less
  by_cases same : a = b
  · exact .inr (.inl same)
  · exact .inr (.inr (Std.lt_of_le_of_ne (String.not_lt.mp less) (Ne.symm same)))

/-- What keeps the order of texts in one direction keeps it in the other. -/
theorem lt_iff_of_increasing {α : Type} [LT α] [Std.Asymm fun x y : α => x < y]
    [Std.Irrefl fun x y : α => x < y] {f : String → List α}
    (increasing : ∀ {a b}, a < b → f a < f b) (a b : String) : f a < f b ↔ a < b := by
  refine ⟨fun less => ?_, increasing⟩
  rcases lt_cases a b with h | rfl | h
  · exact h
  · exact absurd less (List.lt_irrefl _)
  · exact absurd less (List.lt_asymm (increasing h))

theorem encode_lt {c d : Char} (h : c < d) (x y : List UInt8) :
    String.utf8EncodeChar c ++ x < String.utf8EncodeChar d ++ y := by
  have less : c.val.toNat < d.val.toNat := h
  have bound (e : Char) : e.val.toNat < 0x110000 := by
    rcases e.valid with below | ⟨-, below⟩
    · exact Nat.lt_trans below (by decide)
    · exact below
  have hc := bound c
  have hd := bound d
  simp only [String.utf8EncodeChar]
  generalize c.val.toNat = v at *
  generalize d.val.toNat = w at *
  -- The number of bytes shows in the first one: a longer encoding is greater.
  split_ifs <;>
    simp (disch := omega) only [List.cons_append, List.nil_append, List.cons_lt_cons_iff,
      UInt8.lt_iff_toNat_lt, ← UInt8.toNat_inj, UInt8.toNat_ofNat', Nat.mod_eq_of_lt]
  all_goals omega

theorem flatMap_encode_lt {a b : List Char} (h : a < b) :
    a.flatMap String.utf8EncodeChar < b.flatMap String.utf8EncodeChar := by
  induction h with
  | @nil c rest =>
    obtain ⟨byte, bytes, encoded⟩ :=
      List.exists_cons_of_ne_nil (String.utf8EncodeChar_ne_nil (c := c))
    rw [List.flatMap_nil, List.flatMap_cons, encoded, List.cons_append]
    exact List.nil_lt_cons _ _
  | rel less => exact encode_lt less _ _
  | cons _ ih => exact List.append_left_lt ih

theorem bytes_eq (t : String) : bytes t = t.toList.flatMap String.utf8EncodeChar := by
  rw [bytes]
  conv => lhs; rw [← String.ofList_toList (s := t)]
  rw [String.toUTF8_eq_toByteArray, String.toByteArray_ofList]
  simp [List.utf8Encode]

theorem bytes_lt (a b : String) : bytes a < bytes b ↔ a < b := by
  refine lt_iff_of_increasing (fun less => ?_) a b
  rw [bytes_eq, bytes_eq]
  exact flatMap_encode_lt (String.lt_iff.mp less)

theorem codePoints_lt (a b : String) : codePoints a < codePoints b ↔ a < b :=
  lt_iff_of_increasing (f := codePoints)
    (fun less => List.map_lt (fun _ _ h => h) (String.lt_iff.mp less)) a b

theorem lt_append (a : String) {b : String} (h : b ≠ "") : a < a ++ b := by
  obtain ⟨c, rest, chars⟩ := List.exists_cons_of_ne_nil (mt String.toList_eq_nil_iff.mp h)
  have longer : a.toList ++ [] < a.toList ++ c :: rest :=
    List.append_left_lt (List.nil_lt_cons c rest)
  rwa [List.append_nil, ← chars, ← String.toList_append, ← String.lt_iff] at longer

end Text

/-! ## Values -/

namespace Value

/-- The pairs of values that one order ranks. -/
inductive Ranked : Value → Value → Prop where
  | ints (a b : Int64) : Ranked (.int a) (.int b)
  | strs (a b : String) : Ranked (.str a) (.str b)

inductive Below : Value → Value → Prop where
  | ints {a b : Int64} (less : a.toInt < b.toInt) : Below (.int a) (.int b)
  | strs {a b : String} (less : a < b) : Below (.str a) (.str b)

def OrderedAs (v w : Value) : Ordering → Prop
  | .lt => Below v w
  | .eq => v = w
  | .gt => Below w v

def OperatorGives (op : CompareOp) (v w : Value) (answer : Bool) : Prop :=
  ∀ s, compareBy op v w s = .value (.bool answer) s

/-- What the answers of the six operators to one pair of values have to do with each other. -/
structure Consistent (v w : Value) (answer : CompareOp → Bool) : Prop where
  less : answer .less = true ↔ Below v w
  equal : answer .equal = true ↔ v = w
  greater : answer .greater = true ↔ Below w v
  one : (answer .less).toNat + (answer .equal).toNat + (answer .greater).toNat = 1
  lessOrEqual : answer .lessOrEqual = !answer .greater
  greaterOrEqual : answer .greaterOrEqual = !answer .less
  notEqual : answer .notEqual = !answer .equal

def isNumber : Value → Bool
  | int _ | real _ => true
  | _ => false

def asksOrder : CompareOp → Bool
  | .equal | .notEqual => false
  | _ => true

variable {u v w : Value}

theorem Below.irrefl : ¬ Below v v := by
  rintro (less | less)
  · exact Int.lt_irrefl _ less
  · exact String.lt_irrefl _ less

theorem Below.trans (first : Below u v) (second : Below v w) : Below u w := by
  cases first with
  | ints first =>
    cases second with
    | ints second => exact .ints (Int.lt_trans first second)
  | strs first =>
    cases second with
    | strs second => exact .strs (String.lt_trans first second)

theorem Below.ranked (h : Below v w) : Ranked v w := by
  cases h with
  | ints => exact .ints _ _
  | strs => exact .strs _ _

theorem below_str {a b : String} : Below (.str a) (.str b) ↔ a < b :=
  ⟨fun | .strs less => less, .strs⟩

theorem OrderedAs.unique {o o' : Ordering} (h : OrderedAs v w o) (h' : OrderedAs v w o') :
    o = o' := by
  match o, o' with
  | .lt, .lt | .eq, .eq | .gt, .gt => rfl
  | .lt, .gt => exact absurd (Below.trans h h') Below.irrefl
  | .gt, .lt => exact absurd (Below.trans h' h) Below.irrefl
  | .eq, .lt | .eq, .gt => exact absurd (show Below v v from h ▸ h') Below.irrefl
  | .lt, .eq | .gt, .eq => exact absurd (show Below v v from h' ▸ h) Below.irrefl

theorem OrderedAs.iff {o o' : Ordering} (h : OrderedAs v w o) : o = o' ↔ OrderedAs v w o' :=
  ⟨fun same => same ▸ h, h.unique⟩

theorem order_ranked (h : Ranked v w) : ∃ o, v.order? w = some o ∧ OrderedAs v w o := by
  cases h with
  | ints a b =>
    rw [order?, Int.compare_eq_ite_lt]
    split_ifs with less greater
    · exact ⟨.lt, rfl, .ints less⟩
    · exact ⟨.gt, rfl, .ints greater⟩
    · exact ⟨.eq, rfl, congrArg _ (Int64.toInt_inj.mp (by omega))⟩
  | strs a b =>
    rw [order?]
    split_ifs with less same
    · exact ⟨.lt, rfl, .strs less⟩
    · exact ⟨.eq, rfl, congrArg _ same⟩
    · exact ⟨.gt, rfl, .strs (Std.lt_of_le_of_ne (String.not_lt.mp less) (Ne.symm same))⟩

theorem same_ranked (h : Ranked v w) (s : Store) : s.same v w = true ↔ v = w := by
  cases h <;> simp [Store.same, Store.sameIn, sameAtom]

theorem operatorGives_ranked (h : Ranked v w) {o : Ordering} (order : v.order? w = some o)
    (meaning : OrderedAs v w o) (op : CompareOp) : OperatorGives op v w (orderSatisfies op o) := by
  intro s
  have same : s.same v w = decide (o = .eq) := by
    rw [Bool.eq_iff_iff, same_ranked h, decide_eq_true_iff, meaning.iff]
    rfl
  cases op with
  | equal =>
    change Outcome.value (Value.bool (s.same v w)) s = _
    rw [same]
    rfl
  | notEqual =>
    change Outcome.value (Value.bool (!s.same v w)) s = _
    rw [same]
    cases o <;> rfl
  | _ =>
    simp only [compareBy, ordered, order]
    rfl

theorem operatorGives_consistent (h : Ranked v w) :
    ∃ answer, Consistent v w answer ∧ ∀ op, OperatorGives op v w (answer op) := by
  obtain ⟨o, order, meaning⟩ := order_ranked h
  refine ⟨fun op => orderSatisfies op o, ?_, operatorGives_ranked h order meaning⟩
  constructor
  · exact decide_eq_true_iff.trans meaning.iff
  · exact decide_eq_true_iff.trans meaning.iff
  · exact decide_eq_true_iff.trans meaning.iff
  all_goals cases o <;> rfl

theorem OperatorGives.unique {op : CompareOp} {a b : Bool} (first : OperatorGives op v w a)
    (second : OperatorGives op v w b) : a = b := by
  have same := (first .empty).symm.trans (second .empty)
  injection same with same
  injection same

theorem operatorGives_less (h : Ranked v w) : OperatorGives .less v w true ↔ Below v w := by
  obtain ⟨answer, fits, compares⟩ := operatorGives_consistent h
  rw [← fits.less]
  constructor
  · intro less
    exact (compares .less).unique less
  · intro less
    exact less ▸ compares .less

theorem toReal?_eq_none (h : ¬ v.isNumber) : v.toReal? = none := by
  cases v with
  | int | real => exact absurd rfl h
  | _ => rfl

theorem order?_eq_none (strs : ¬ (v.isStr ∧ w.isStr)) (numbers : ¬ (v.isNumber ∧ w.isNumber)) :
    v.order? w = none := by
  rw [order?.eq_def]
  split
  · exact absurd ⟨rfl, rfl⟩ numbers
  · exact absurd ⟨rfl, rfl⟩ strs
  · by_cases left : v.isNumber
    · rw [toReal?_eq_none fun right => numbers ⟨left, right⟩]
      cases v.toReal? <;> rfl
    · rw [toReal?_eq_none left]
      rfl

theorem compareBy_unordered {op : CompareOp} (asks : asksOrder op) (strs : ¬ (v.isStr ∧ w.isStr))
    (numbers : ¬ (v.isNumber ∧ w.isNumber)) (s : Store) :
    compareBy op v w s = .fault (.type (.incomparable (s.operandClass v) (s.inspect w))) s := by
  have none := order?_eq_none strs numbers
  cases op with
  | equal | notEqual => contradiction
  | _ =>
    simp only [compareBy, ordered, none]
    rfl

end Value

open Value

/-- Two integers, or two strings, are less, equal or greater, and all operators agree on which. The
order is transitive. Strings are ordered like their bytes, which is the order of their code points,
and a longer string comes after its beginning. Other values have no order, unless both are
numbers. -/
theorem ordering_laws :
    (∀ v w, Ranked v w →
      ∃ answer, Consistent v w answer ∧ ∀ op, OperatorGives op v w (answer op)) ∧
    (∀ u v w, Ranked u v → Ranked v w → OperatorGives .less u v true →
      OperatorGives .less v w true → OperatorGives .less u w true) ∧
    (∀ a b : String,
      (OperatorGives .less (.str a) (.str b) true ↔ Text.bytes a < Text.bytes b) ∧
      (OperatorGives .less (.str a) (.str b) true ↔ Text.codePoints a < Text.codePoints b) ∧
      (b ≠ "" → OperatorGives .less (.str a) (.str (a ++ b)) true)) ∧
    (∀ op v w s, asksOrder op → ¬ (v.isStr ∧ w.isStr) → ¬ (v.isNumber ∧ w.isNumber) →
      compareBy op v w s = .fault (.type (.incomparable (s.operandClass v) (s.inspect w))) s) := by
  have text (a b : String) : OperatorGives .less (.str a) (.str b) true ↔ a < b :=
    (operatorGives_less (.strs a b)).trans below_str
  refine ⟨fun v w => operatorGives_consistent, ?_, fun a b => ⟨?_, ?_, ?_⟩, ?_⟩
  · intro u v w huv hvw first second
    have below := ((operatorGives_less huv).mp first).trans ((operatorGives_less hvw).mp second)
    exact (operatorGives_less below.ranked).mpr below
  · rw [text, Text.bytes_lt]
  · rw [text, Text.codePoints_lt]
  · intro nonempty
    exact (text _ _).mpr (Text.lt_append a nonempty)
  · intro op v w s asks strs numbers
    exact compareBy_unordered asks strs numbers s

/-- The last code point of 16 bits comes before the longer ones, which would start with a smaller
unit if they were split. -/
theorem ordering_laws_astral :
    OperatorGives .less (.str "\uffff") (.str "😀!") true ∧
      compareBy .less (.array ⟨0⟩) (.str "") .empty =
        .fault (.type (.incomparable "Array" "\"\"")) .empty := by
  obtain ⟨-, transitive, texts, unordered⟩ := ordering_laws
  have points : Text.codePoints "\uffff" < Text.codePoints "😀" := by decide
  have longer := (texts "😀" "!").2.2 (by decide)
  refine ⟨transitive _ _ _ (.strs _ _) (.strs _ _) ((texts _ _).2.1.mpr points) longer, ?_⟩
  exact unordered .less (.array ⟨0⟩) (.str "") .empty rfl (by decide) (by decide)

end ObjectLang
