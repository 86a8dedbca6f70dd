import ObjectLang.Proofs.Parse.Suffixes

/-!
# Printed constructs are parsed back

Collections, bodies, loops, definitions and conditions.
-/

namespace ObjectLang

open Parse Grammar

section
variable {nd : Bool} {k : Nat} {A B C : List Piece} {e : Expr} {ps : List Piece}

/-! ## Collections -/

theorem parses_array {xs : List (Expr × List Piece)} {run : List Piece}
    (hx : ∀ x ∈ xs, Parses (.expr false x.1) x.2) (hrun : Newlines run) (h : Listed xs ps) :
    Parses (.expr nd (.array (xs.map (·.1))))
      (mark .lbracket :: (run ++ (ps ++ [mark .rbracket]))) := by
  refine parses_of_term rfl fun k hk B _ => ?_
  simp only [List.length_append, List.length_cons, List.length_nil] at hk
  simp only [List.append_assoc, List.cons_append, List.nil_append]
  have elements : Takes false (delimited .rbracket (parse k .expression) k)
      (run ++ (ps ++ mark .rbracket :: B)) (xs.map (·.1)) B := by
    refine takes_delimited hrun h (.inr (.inl rfl)) ?_ ?_ (by omega)
    · intro x hxs
      exact (hx x hxs).1
    · intro x hxs C hC
      have := h.length_le x hxs
      exact takes_expression (hx x hxs) (by omega) hC
  exact takes_fixedTerm fun line => (takes_restricted elements).bind (takes_pure _)

theorem parses_entry {key value : Expr} {c run v : List Piece} (hc : Parses (.expr false key) c)
    (hrun : Newlines run) (hv : Parses (.expr false value) v) :
    Parses (.entry (key, value)) (c ++ mark .fatArrow :: (run ++ v)) := by
  refine ⟨hc.1.append _, fun k hk B hB => ?_⟩
  simp only [List.length_append, List.length_cons] at hk
  rw [List.append_assoc, List.cons_append, List.append_assoc]
  have begins := hv.1.append B
  have key' : Takes false (parse k .expression) (c ++ mark .fatArrow :: (run ++ (v ++ B))) key _ :=
    takes_expression hc (by omega) (stops_mark rfl)
  refine key'.bind ((takes_expect .fatArrow).bind ?_)
  refine (takes_skipNewlines hrun (begins.headIs rfl) (by omega)).bind ?_
  exact (takes_expression hv (by omega) hB).bind (takes_pure _)

theorem parses_hash {xs : List ((Expr × Expr) × List Piece)} {run : List Piece}
    (hx : ∀ x ∈ xs, Parses (.entry x.1) x.2) (hrun : Newlines run) (h : Listed xs ps) :
    Parses (.expr nd (.hash (xs.map (·.1))))
      (mark .lbrace :: (run ++ (ps ++ [mark .rbrace]))) := by
  refine parses_of_term rfl fun k hk B _ => ?_
  simp only [List.length_append, List.length_cons, List.length_nil] at hk
  simp only [List.append_assoc, List.cons_append, List.nil_append]
  have entries : Takes false (delimited .rbrace (hashEntry (parse k) k) k)
      (run ++ (ps ++ mark .rbrace :: B)) (xs.map (·.1)) B := by
    refine takes_delimited hrun h (.inr (.inr rfl)) ?_ ?_ (by omega)
    · intro x hxs
      exact (hx x hxs).1
    · intro x hxs C hC
      have := h.length_le x hxs
      exact (hx x hxs).2 k (by omega) C hC
  exact takes_fixedTerm fun line => (takes_restricted entries).bind (takes_pure _)

/-! ## Bodies and constructs -/

theorem parses_body {xs : List (Expr × List Piece)} (hx : ∀ x ∈ xs, Parses (.expr nd x.1) x.2)
    (h : Sequenced xs ps) : Parses (.body nd (.ofBody (xs.map (·.1)))) ps := by
  have begins : ∀ x ∈ xs, Begins x.2 := fun x hxs => (hx x hxs).1
  refine ⟨fun B hB => h.headIs_pipe begins hB, xs.map (·.1), rfl, ?_⟩
  intro k hk closing B hB
  refine takes_commandList h hB begins ?_ hk
  intro x hxs C hC
  have := h.length_le x hxs
  exact takes_expression (hx x hxs) (by omega) hC

theorem HeaderEnd.stops {f : Fixed} {h : Piece} (hh : HeaderEnd f h)
    (hf : Grammar.stops nd (.fixed f) = true) : Stops nd (h :: B) := by
  rcases hh with rfl | hh
  · exact stops_mark hf
  · exact stops_separator hh

theorem takes_loopHeader {c : List Piece} {h : Piece} (hc : Parses (.expr true e) c)
    (hk : c.length < k) (hh : HeaderEnd .doWord h) :
    Takes nd (loopHeader (parse k)) (c ++ h :: B) e B :=
  (takes_restricted (takes_expression hc hk (hh.stops rfl))).bind
    (takes_header hh (by decide) (by decide) (takes_pure e))

theorem takes_loop {body : Expr} {c b : List Piece} {h : Piece} (hc : Parses (.expr true e) c)
    (hh : HeaderEnd .doWord h) (hb : Parses (.body nd body) b) (make : Expr → Expr → Expr)
    (hk : c.length + b.length < k) :
    Takes nd (do
      let header ← loopHeader (parse k)
      let body ← bodyUntilEnd (parse k) k
      pure (make header body)) (c ++ h :: (b ++ mark .endWord :: B)) (make e body) B := by
  refine (takes_loopHeader hc (by omega) hh).bind ?_
  exact (takes_bodyEnd hb (by omega)).bind (takes_pure _)

theorem parses_whileLoop {body : Expr} {c b : List Piece} {h : Piece} (hc : Parses (.group e) c)
    (hh : HeaderEnd .doWord h) (hb : Parses (.body nd body) b) :
    Parses (.expr nd (.whileLoop e body)) (mark .whileWord :: (c ++ h :: (b ++ [mark .endWord]))) := by
  refine parses_of_term rfl fun k hk B _ => ?_
  simp only [List.length_append, List.length_cons, List.length_nil] at hk
  simp only [List.append_assoc, List.cons_append, List.nil_append]
  exact takes_fixedTerm fun line => takes_loop (group_expression hc) hh hb _ (by omega)

theorem parses_untilLoop {body : Expr} {c b : List Piece} {h : Piece} (hc : Parses (.group e) c)
    (hh : HeaderEnd .doWord h) (hb : Parses (.body nd body) b) :
    Parses (.expr nd (.untilLoop e body)) (mark .untilWord :: (c ++ h :: (b ++ [mark .endWord]))) := by
  refine parses_of_term rfl fun k hk B _ => ?_
  simp only [List.length_append, List.length_cons, List.length_nil] at hk
  simp only [List.append_assoc, List.cons_append, List.nil_append]
  exact takes_fixedTerm fun line => takes_loop (group_expression hc) hh hb _ (by omega)

theorem parses_forIn (n : String) {body : Expr} {c b : List Piece} {h : Piece}
    (hc : Parses (.expr true e) c) (hh : HeaderEnd .doWord h) (hb : Parses (.body nd body) b) :
    Parses (.expr nd (.forIn n e body))
      (mark .forWord :: tok (.name n) :: mark .inWord :: (c ++ h :: (b ++ [mark .endWord]))) := by
  refine parses_of_term rfl fun k hk B _ => ?_
  simp only [List.length_append, List.length_cons, List.length_nil] at hk
  simp only [List.append_assoc, List.cons_append, List.nil_append]
  have name : Takes nd identifier (tok (.name n) :: mark .inWord :: (c ++ h ::
      (b ++ mark .endWord :: B))) n _ := takes_nameBy rfl
  refine takes_fixedTerm fun line => ?_
  exact name.bind ((takes_expect .inWord).bind (takes_loop hc hh hb _ (by omega)))

theorem parses_define {target body : Expr} {params : List String} {t ns b : List Piece}
    (ht : DefTarget target t) (hn : ParamList params ns) (hb : Parses (.body nd body) b) :
    Parses (.expr nd (.define target params body))
      (mark .defWord :: (t ++ mark .lparen :: (ns ++ mark .rparen :: (b ++ [mark .endWord])))) := by
  refine parses_of_term rfl fun k hk B _ => ?_
  simp only [List.length_append, List.length_cons, List.length_nil] at hk
  simp only [List.append_assoc, List.cons_append, List.nil_append]
  have params' : Takes nd (definitionParams k)
      (mark .lparen :: (ns ++ mark .rparen :: (b ++ mark .endWord :: B))) params
      (b ++ mark .endWord :: B) := by
    refine (takes_accept .lparen).bind ?_
    rw [if_pos rfl]
    exact takes_parameterList hn (by decide) (by omega)
  refine takes_fixedTerm fun line => ?_
  refine (takes_definitionTarget ht).bind (params'.bind ?_)
  exact (takes_bodyEnd hb (by omega)).bind (takes_pure _)

theorem parses_classDef {n body : Expr} {c b : List Piece} {s : Piece} (hc : ClassName n c)
    (hs : Separators [s]) (hb : Parses (.body nd body) b) :
    Parses (.expr nd (.classDef n none body))
      (mark .classWord :: (c ++ s :: (b ++ [mark .endWord]))) := by
  refine parses_of_term rfl fun k hk B _ => ?_
  simp only [List.length_append, List.length_cons, List.length_nil] at hk
  simp only [List.append_assoc, List.cons_append, List.nil_append]
  have stop : Stops nd (s :: (b ++ mark .endWord :: B)) := stops_separator hs
  refine takes_fixedTerm fun line => ?_
  refine (takes_className hc (stop.headIs rfl) (by omega)).bind ?_
  refine ((takes_not_accept (stop.headIs rfl)).bind (takes_pure none)).bind ?_
  exact (takes_headerEnd hs).bind ((takes_bodyEnd hb (by omega)).bind (takes_pure _))

theorem parses_subclassDef {n superclass body : Expr} {c p b : List Piece} {s : Piece}
    (hc : ClassName n c) (hp : Parses (.group superclass) p) (hs : Separators [s])
    (hb : Parses (.body nd body) b) : Parses (.expr nd (.classDef n (some superclass) body))
      (mark .classWord :: (c ++ mark .less :: (p ++ s :: (b ++ [mark .endWord])))) := by
  refine parses_of_term rfl fun k hk B _ => ?_
  simp only [List.length_append, List.length_cons, List.length_nil] at hk
  simp only [List.append_assoc, List.cons_append, List.nil_append]
  have stop : Stops nd (s :: (b ++ mark .endWord :: B)) := stops_separator hs
  have nested : Takes nd (parse k .range) (p ++ s :: (b ++ mark .endWord :: B)) superclass
      (s :: (b ++ mark .endWord :: B)) := by
    cases k with
    | zero => omega
    | succ k => exact group_range hp (by omega) (stop.looser (by decide))
  have superclass' : Takes nd (superclass? (parse k))
      (mark .less :: (p ++ s :: (b ++ mark .endWord :: B))) (some superclass)
      (s :: (b ++ mark .endWord :: B)) := by
    refine (takes_accept .less).bind ?_
    rw [if_pos rfl]
    exact nested.bind (takes_pure _)
  refine takes_fixedTerm fun line => ?_
  refine (takes_className hc rfl (by omega)).bind (superclass'.bind ?_)
  exact (takes_headerEnd hs).bind ((takes_bodyEnd hb (by omega)).bind (takes_pure _))

theorem parses_moduleDef {n : String} {body : Expr} {b : List Piece} {s : Piece}
    (hn : isConstant n = true) (hs : Separators [s]) (hb : Parses (.body nd body) b) :
    Parses (.expr nd (.moduleDef n body))
      (mark .moduleWord :: tok (.name n) :: s :: (b ++ [mark .endWord])) := by
  refine parses_of_term rfl fun k hk B _ => ?_
  simp only [List.length_append, List.length_cons, List.length_nil] at hk
  simp only [List.append_assoc, List.cons_append, List.nil_append]
  refine takes_fixedTerm fun line => ?_
  refine (takes_constantName hn).bind ((takes_headerEnd hs).bind ?_)
  exact (takes_bodyEnd hb (by omega)).bind (takes_pure _)

/-! ## Conditions -/

theorem closes_branch {f : Fixed} (h : f = .endWord ∨ f = .elseWord ∨ f = .elifWord) :
    Closes [.endWord, .elseWord, .elifWord] (mark f :: B) := by
  refine ⟨by decide, f, ?_, false, B, rfl⟩
  rcases h with rfl | rfl | rfl <;> decide

theorem takes_branch {thenBranch other : Expr} {c b : List Piece} {h : Piece} {f : Fixed}
    {depth : Nat} (hc : Parses (.group e) c) (hh : HeaderEnd .thenWord h) (hb : Parses (.body nd thenBranch) b)
    (hk : c.length + b.length < k) (hf : f = .endWord ∨ f = .elseWord ∨ f = .elifWord)
    (hx : ∀ es, thenBranch = .ofBody es → Takes nd (do
      if ← accept .elifWord then
        let other ← ifConstruct (parse k) k depth
        pure (.ifElse e (.ofBody es) (some other))
      else if ← accept .elseWord then
        let other ← bodyUntilEnd (parse k) k
        pure (.ifElse e (.ofBody es) (some other))
      else
        expect .endWord
        pure (.ifElse e (.ofBody es) none)) (mark f :: A) other B) :
    Takes nd (ifConstruct (parse k) k (depth + 1)) (c ++ h :: (b ++ mark f :: A)) other B := by
  obtain ⟨_, es, rfl, hb⟩ := hb
  refine (group_nested hc (by omega) (hh.stops rfl)).bind ?_
  refine takes_header hh (by decide) (by decide) ?_
  exact (hb k (by omega) _ _ (closes_branch hf)).bind (hx es rfl)

theorem parses_thenEnd {thenBranch : Expr} {c b : List Piece} {h : Piece}
    (hc : Parses (.group e) c) (hh : HeaderEnd .thenWord h) (hb : Parses (.body nd thenBranch) b) :
    Parses (.branches nd e thenBranch none) (c ++ h :: (b ++ [mark .endWord])) := by
  intro k depth hk hd B
  simp only [List.length_append, List.length_cons, List.length_nil] at hk
  simp only [List.append_assoc, List.cons_append, List.nil_append]
  cases depth with
  | zero => exact absurd hd (Nat.not_lt_zero _)
  | succ depth =>
    refine takes_branch hc hh hb (by omega) (.inl rfl) ?_
    intro es e
    subst e
    refine (takes_not_accept rfl).bind ?_
    rw [if_neg (by decide)]
    refine (takes_not_accept rfl).bind ?_
    rw [if_neg (by decide)]
    exact (takes_expect .endWord).bind (takes_pure _)

theorem parses_thenElse {thenBranch other : Expr} {c b o : List Piece} {h : Piece}
    (hc : Parses (.group e) c) (hh : HeaderEnd .thenWord h) (hb : Parses (.body nd thenBranch) b)
    (ho : Parses (.body nd other) o) : Parses (.branches nd e thenBranch (some other))
      (c ++ h :: (b ++ mark .elseWord :: (o ++ [mark .endWord]))) := by
  intro k depth hk hd B
  simp only [List.length_append, List.length_cons, List.length_nil] at hk
  simp only [List.append_assoc, List.cons_append, List.nil_append]
  cases depth with
  | zero => exact absurd hd (Nat.not_lt_zero _)
  | succ depth =>
    refine takes_branch hc hh hb (by omega) (.inr (.inl rfl)) ?_
    intro es e
    subst e
    refine (takes_not_accept rfl).bind ?_
    rw [if_neg (by decide)]
    refine (takes_accept .elseWord).bind ?_
    rw [if_pos rfl]
    exact (takes_bodyEnd ho (by omega)).bind (takes_pure _)

/-- An `elif` is read as a condition of its own, which takes the common `end`. -/
theorem parses_thenElif {thenBranch condition' thenBranch' : Expr} {elseBranch' : Option Expr}
    {c b o : List Piece} {h : Piece} (hc : Parses (.group e) c) (hh : HeaderEnd .thenWord h)
    (hb : Parses (.body nd thenBranch) b)
    (ho : Parses (.branches nd condition' thenBranch' elseBranch') o) :
    Parses (.branches nd e thenBranch (some (.ifElse condition' thenBranch' elseBranch')))
      (c ++ h :: (b ++ mark .elifWord :: o)) := by
  intro k depth hk hd B
  simp only [List.length_append, List.length_cons] at hk hd
  simp only [List.append_assoc, List.cons_append]
  cases depth with
  | zero => exact absurd hd (Nat.not_lt_zero _)
  | succ depth =>
    refine takes_branch hc hh hb (by omega) (.inr (.inr rfl)) ?_
    intro es e
    subst e
    refine (takes_accept .elifWord).bind ?_
    rw [if_pos rfl]
    exact (ho k depth (by omega) (by omega) B).bind (takes_pure _)

theorem parses_ifElse {thenBranch : Expr} {elseBranch : Option Expr}
    (h : Parses (.branches nd e thenBranch elseBranch) ps) :
    Parses (.expr nd (.ifElse e thenBranch elseBranch)) (mark .ifWord :: ps) :=
  parses_of_term rfl fun k hk B _ => takes_fixedTerm fun _ => h k k hk hk B

end

end ObjectLang
