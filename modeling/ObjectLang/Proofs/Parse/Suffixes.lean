import ObjectLang.Proofs.Parse.Terms

/-!
# Printed calls and assignments are parsed back

Blocks, arguments in parentheses, and what may stand behind a receiver.
-/

namespace ObjectLang

open Parse Grammar

section
variable {nd : Bool} {k : Nat} {A B C : List Piece} {e : Expr} {ps : List Piece}

/-! ## Blocks and arguments -/

theorem takes_bodyEnd {b : List Piece} (h : Parses (.body nd e) b) (hk : b.length < k) :
    Takes nd (bodyUntilEnd (parse k) k) (b ++ mark .endWord :: B) e B := by
  obtain ⟨_, es, rfl, h⟩ := h
  have closes : Closes [.endWord] (mark .endWord :: B) :=
    ⟨by decide, .endWord, List.mem_cons_self, false, B, rfl⟩
  exact takes_bodyUntilEnd (h k hk _ _ closes)

theorem parses_block {closing : Fixed} {params : List String} {body : Expr} {ns b : List Piece}
    (hn : BlockParams params ns) (h : Parses (.body false body) b) :
    Parses (.block closing (.block params body)) (ns ++ (b ++ [mark closing])) := by
  intro hc k hk nd B
  obtain ⟨hpipe, es, rfl, h⟩ := h
  simp only [List.length_append, List.length_cons, List.length_nil] at hk
  simp only [List.cons_append, List.append_assoc, List.nil_append]
  have noPipe : headIs (mark closing :: B) .pipe = false := by
    apply headIs_eq_false
    intro p hp e
    cases hp
    cases e
    cases hc
  have closes : Closes [closing] (mark closing :: B) := by
    refine ⟨fun f hf => ?_, closing, List.mem_cons_self, false, B, rfl⟩
    rw [List.mem_singleton.mp hf]
    exact hc
  exact takes_blockBody hn (hpipe _ noPipe) (h k (by omega) _ _ closes) (by omega)

theorem takes_withBlock_none {r : Nested} {given : List Expr} (h : EndsCall nd B) :
    Takes nd (withBlock r given k) B given B := by
  have e : given ++ (none : Option Expr).toList = given := List.append_nil given
  refine (takes_blockTrailer_none h).bind ?_
  rw [e]
  exact takes_pure given

theorem takes_withBlock_do {given : List Expr} {b : List Piece}
    (h : Parses (.block .endWord e) b) (hk : b.length < k) :
    Takes false (withBlock (parse k) given k) (mark .doWord :: (b ++ B)) (given ++ [e]) B := by
  have trailer : Takes false (blockTrailer (parse k) k) (mark .doWord :: (b ++ B)) (some e) B := by
    refine takes_doAllowed.bind ((takes_accept .doWord).bind ?_)
    exact (h rfl k hk false B).bind (takes_pure _)
  exact trailer.bind (takes_pure _)

theorem takes_withBlock_brace {given : List Expr} {b : List Piece}
    (h : Parses (.block .rbrace e) b) (hk : b.length < k) :
    Takes nd (withBlock (parse k) given k) (mark .lbrace :: (b ++ B)) (given ++ [e]) B := by
  have brace : Takes nd (do
      if ← accept .lbrace then
        let b ← blockBody (parse k) .rbrace k
        pure (some b)
      else pure none) (mark .lbrace :: (b ++ B)) (some e) B := by
    refine (takes_accept .lbrace).bind ?_
    rw [if_pos rfl]
    exact (h rfl k hk nd B).bind (takes_pure _)
  have trailer : Takes nd (blockTrailer (parse k) k) (mark .lbrace :: (b ++ B)) (some e) B := by
    refine takes_doAllowed.bind ?_
    cases nd with
    | true => exact (takes_pure false).bind brace
    | false => exact (takes_not_accept rfl).bind brace
  exact trailer.bind (takes_pure _)

theorem takes_parenArguments {xs : List (Expr × List Piece)} {run : List Piece}
    (hx : ∀ x ∈ xs, Parses (.group x.1) x.2) (hrun : Newlines run) (h : Listed xs ps)
    (hk : run.length + ps.length < k) :
    Takes nd (parenArguments (parse k) k) (run ++ (ps ++ mark .rparen :: B)) (xs.map (·.1)) B := by
  refine takes_restricted (takes_delimited hrun h (.inl rfl) ?_ ?_ hk)
  · intro x hxs
    exact group_begins (hx x hxs)
  · intro x hxs C hC
    have := h.length_le x hxs
    exact group_nested (hx x hxs) (by omega) hC

theorem parses_arguments {xs : List (Expr × List Piece)} {run : List Piece}
    (hx : ∀ x ∈ xs, Parses (.group x.1) x.2) (hrun : Newlines run) (h : Listed xs ps) :
    Parses (.arguments nd (xs.map (·.1))) (run ++ (ps ++ [mark .rparen])) := by
  intro k hk B hB
  simp only [List.length_append, List.length_cons, List.length_nil] at hk
  simp only [List.cons_append, List.append_assoc, List.nil_append]
  exact ⟨_, B, takes_parenArguments hx hrun h (by omega), takes_withBlock_none hB⟩

theorem parses_argumentsDo {xs : List (Expr × List Piece)} {run b : List Piece}
    (hx : ∀ x ∈ xs, Parses (.group x.1) x.2) (hrun : Newlines run) (h : Listed xs ps)
    (hb : Parses (.block .endWord e) b) :
    Parses (.arguments false (xs.map (·.1) ++ [e]))
      (run ++ (ps ++ mark .rparen :: mark .doWord :: b)) := by
  intro k hk B _
  simp only [List.length_append, List.length_cons] at hk
  simp only [List.cons_append, List.append_assoc]
  exact ⟨_, _, takes_parenArguments hx hrun h (by omega), takes_withBlock_do hb (by omega)⟩

theorem parses_argumentsBrace {xs : List (Expr × List Piece)} {run b : List Piece}
    (hx : ∀ x ∈ xs, Parses (.group x.1) x.2) (hrun : Newlines run) (h : Listed xs ps)
    (hb : Parses (.block .rbrace e) b) :
    Parses (.arguments nd (xs.map (·.1) ++ [e]))
      (run ++ (ps ++ mark .rparen :: mark .lbrace :: b)) := by
  intro k hk B _
  simp only [List.length_append, List.length_cons] at hk
  simp only [List.cons_append, List.append_assoc]
  exact ⟨_, _, takes_parenArguments hx hrun h (by omega), takes_withBlock_brace hb (by omega)⟩

theorem takes_callArguments {args : List Expr} {as : List Piece}
    (h : Parses (.arguments nd args) as) (hk : as.length < k) (hB : EndsCall nd B) :
    Takes nd (callArguments (parse k) k) (touching .lparen :: (as ++ B)) args B := by
  obtain ⟨given, C, paren, block⟩ := h k hk B hB
  refine (takes_acceptTouching .lparen).bind ?_
  rw [if_pos rfl]
  exact paren.bind block

theorem takes_callArguments_none {r : Nested} (hB : EndsCall nd B) :
    Takes nd (callArguments r k) B [] B := by
  refine (takes_not_acceptTouching (hB.headIs (by cases nd <;> rfl))).bind ?_
  rw [if_neg (by decide)]
  refine (takes_argumentFollows hB).bind ?_
  rw [if_neg (by decide)]
  exact takes_withBlock_none hB

/-! ## Calls, suffixes and assignments -/

theorem parses_call (n : String) {args : List Expr} {as : List Piece}
    (h : Parses (.arguments nd args) as) :
    Parses (.expr nd (.call n args)) (tok (.name n) :: touching .lparen :: as) := by
  refine parses_of_term rfl fun k hk B hB => ?_
  rw [List.length_cons] at hk
  obtain ⟨given, C, paren, block⟩ := h k (by omega) B hB.endsCall
  refine takes_lineHere fun line => takes_next fun x hx _ => ?_
  simp only [hx]
  refine (takes_acceptTouching .lparen).bind ?_
  rw [if_pos rfl]
  exact paren.bind (block.bind (takes_pure _))

theorem takes_suffix_dot {r : Nested} {n : String} {m : Token} {args : List Expr}
    (hm : m.methodName? = some n) (h : Takes nd (callArguments r k) A args B) :
    Takes nd (suffix r k e) (mark .dot :: tok m :: A) (some (.dot e n args)) B := by
  have name : Takes nd methodName (tok m :: A) n A := takes_nameBy hm
  refine takes_peek fun l hl _ => ?_
  have here : l.token.isFixed .dot = true := by rw [hl]; rfl
  simp only [here]
  exact takes_next fun _ _ _ => name.bind (h.bind (takes_pure _))

theorem takes_suffix_doubleColon {r : Nested} {n : String} {m : Token}
    (hm : m.methodName? = some n) :
    Takes nd (suffix r k e) (mark .doubleColon :: tok m :: B) (some (.doubleColon e n)) B := by
  have name : Takes nd methodName (tok m :: B) n B := takes_nameBy hm
  refine takes_peek fun l hl _ => ?_
  have dot : l.token.isFixed .dot = false := by rw [hl]; rfl
  have here : l.token.isFixed .doubleColon = true := by rw [hl]; rfl
  simp only [dot, here]
  exact takes_next fun _ _ _ => name.bind (takes_pure _)

/-- A bracket without a gap before it is a suffix, also of a bare name. -/
theorem takes_suffix_indexed {index : Expr} {a i b : List Piece} (ha : Newlines a)
    (h : Parses (.group index) i) (hb : Newlines b) (hk : a.length + i.length + b.length < k) :
    Takes nd (suffix (parse k) k e)
      (touching .lbracket :: (a ++ (i ++ (b ++ mark .rbracket :: B)))) (some (.indexed e index))
      B := by
  have begins := (group_begins h).append (b ++ mark .rbracket :: B)
  have inner : Takes false (parse k .expression) (i ++ (b ++ mark .rbracket :: B)) index
      (b ++ mark .rbracket :: B) :=
    group_nested h (by omega) (stops_run hb.separators (stops_mark rfl))
  have within : Takes false (do
      skipNewlines k
      let e ← parse k .expression
      skipNewlines k
      pure e) (a ++ (i ++ (b ++ mark .rbracket :: B))) index (mark .rbracket :: B) := by
    refine (takes_skipNewlines ha (begins.headIs rfl) (by omega)).bind ?_
    exact inner.bind ((takes_skipNewlines hb rfl (by omega)).bind (takes_pure index))
  refine takes_peek fun l hl hg => ?_
  have dot : l.token.isFixed .dot = false := by rw [hl]; rfl
  have colon : l.token.isFixed .doubleColon = false := by rw [hl]; rfl
  have here : (l.token.isFixed .lbracket && !(l.spaced && e.isName)) = true := by
    rw [hl, hg rfl]; rfl
  simp only [dot, colon, here]
  exact takes_next fun _ _ _ => ((takes_restricted within).bind
    ((takes_expect .rbracket).bind (takes_pure index))).bind (takes_pure _)

theorem suffixed_of_group {t : List Piece} {target : Expr} (h : Parses (.group target) t)
    (hk : t.length < k) (hs : Takes nd (suffix (parse k) k target) A (some e) B)
    (hB : Looser 5 B) : Takes nd (suffixed (parse k) k) (t ++ A) e B := by
  have pos := (group_begins h).length_pos
  cases k with
  | zero => omega
  | succ k =>
    exact (takes_group h (Nat.le_of_lt hk)).bind
      (takes_iterate_step hs (takes_iterate_stop (by omega) (takes_suffix_stop hB)))

theorem parses_dot {target : Expr} {n : String} {m : Token} {args : List Expr}
    {t as : List Piece} (ht : Parses (.group target) t) (hm : m.methodName? = some n)
    (h : Parses (.arguments nd args) as) :
    Parses (.expr nd (.dot target n args)) (t ++ mark .dot :: tok m :: touching .lparen :: as) := by
  refine parses_of_suffixed ((group_begins ht).append _) ?_ fun k hk B hB => ?_
  · intro B
    rw [List.append_assoc]
    exact group_plain ht
  · simp only [List.length_append, List.length_cons] at hk
    rw [List.append_assoc]
    exact suffixed_of_group ht (by omega)
      (takes_suffix_dot hm (takes_callArguments h (by omega) hB.endsCall)) (hB.looser (by decide))

def Suffixed (e : Expr) (ps : List Piece) : Prop :=
  Begins ps ∧ (∀ B, Plain (ps ++ B)) ∧ ∀ k, ps.length ≤ k → ∀ nd B, EndsCall nd B →
    Takes nd (suffixed (parse k) k) (ps ++ B) e B

theorem Suffixed.parses (h : Suffixed e ps) : Parses (.expr nd e) ps :=
  parses_of_suffixed h.1 h.2.1 fun k hk B hB => h.2.2 k hk nd B hB.endsCall

theorem suffixed_dotAlone {target : Expr} {n : String} {m : Token} {t : List Piece}
    (ht : Parses (.group target) t) (hm : m.methodName? = some n) :
    Suffixed (.dot target n []) (t ++ [mark .dot, tok m]) := by
  refine ⟨(group_begins ht).append _, ?_, fun k hk nd B hB => ?_⟩
  · intro B
    rw [List.append_assoc]
    exact group_plain ht
  · simp only [List.length_append, List.length_cons, List.length_nil] at hk
    rw [List.append_assoc]
    exact suffixed_of_group ht (by omega) (takes_suffix_dot hm (takes_callArguments_none hB))
      (hB.looser (by decide))

theorem suffixed_doubleColon {target : Expr} {n : String} {m : Token} {t : List Piece}
    (ht : Parses (.group target) t) (hm : m.methodName? = some n) :
    Suffixed (.doubleColon target n) (t ++ [mark .doubleColon, tok m]) := by
  refine ⟨(group_begins ht).append _, ?_, fun k hk nd B hB => ?_⟩
  · intro B
    rw [List.append_assoc]
    exact group_plain ht
  · simp only [List.length_append, List.length_cons, List.length_nil] at hk
    rw [List.append_assoc]
    exact suffixed_of_group ht (by omega) (takes_suffix_doubleColon hm) (hB.looser (by decide))

theorem suffixed_indexed {target index : Expr} {t a i b : List Piece}
    (ht : Parses (.group target) t) (ha : Newlines a) (hi : Parses (.group index) i)
    (hb : Newlines b) : Suffixed (.indexed target index)
      (t ++ touching .lbracket :: (a ++ (i ++ (b ++ [mark .rbracket])))) := by
  refine ⟨(group_begins ht).append _, ?_, fun k hk nd B hB => ?_⟩
  · intro B
    rw [List.append_assoc]
    exact group_plain ht
  · simp only [List.length_append, List.length_cons, List.length_nil] at hk
    simp only [List.cons_append, List.append_assoc, List.nil_append]
    exact suffixed_of_group ht (by omega) (takes_suffix_indexed ha hi hb (by omega))
      (hB.looser (by decide))

theorem parses_assignment {target value : Expr} {t run v : List Piece} (hb : Begins t)
    (ht : ∀ k, t.length ≤ k → ∀ B, EndsCall nd B → Takes nd (range (parse k) k) (t ++ B) target B)
    (he : assignmentTo? target value = some e) (hrun : Newlines run)
    (hv : Parses (.group value) v) : Parses (.expr nd e) (t ++ mark .equals :: (run ++ v)) := by
  refine ⟨hb.append _, fun k hk B hB => ?_⟩
  simp only [List.length_append, List.length_cons] at hk
  rw [List.append_assoc, List.cons_append, List.append_assoc]
  have ends : EndsCall nd (mark .equals :: (run ++ (v ++ B))) := by
    intro p hp
    cases hp
    rfl
  have begins := (group_begins hv).append B
  exact expression_of_assignment (ht k (by omega) _ ends) he hrun rfl (begins.headIs rfl)
    (by omega) (group_nested hv (by omega) hB)

theorem Suffixed.parses_assignment {target value : Expr} {t run v : List Piece}
    (h : Suffixed target t) (he : assignmentTo? target value = some e) (hrun : Newlines run)
    (hv : Parses (.group value) v) : Parses (.expr nd e) (t ++ mark .equals :: (run ++ v)) := by
  refine ObjectLang.parses_assignment h.1 (fun k hk B hB => ?_) he hrun hv
  exact range_of_suffixed (h.2.2 k hk nd B hB) (h.2.1 B) (hB.looser (by decide))
    (Nat.lt_of_lt_of_le h.1.length_pos hk)

theorem parses_assignVariable {target value : Expr} {p : Piece} {run v : List Piece}
    (hp : beginsTerm p.token = true)
    (ht : ∀ k B, EndsCall nd B → Takes nd (term (parse k) k) (p :: B) target B)
    (he : assignmentTo? target value = some e) (hrun : Newlines run)
    (hv : Parses (.group value) v) : Parses (.expr nd e) (p :: mark .equals :: (run ++ v)) := by
  refine parses_assignment (t := [p]) (begins_of_beginsTerm hp) (fun k hk B hB => ?_) he hrun hv
  have pos : 0 < k := Nat.lt_of_lt_of_le (Nat.succ_pos _) hk
  exact range_of_suffixed (suffixed_of_term (ht k B hB) (hB.looser (by decide)) pos)
    (plain_of_beginsTerm hp) (hB.looser (by decide)) pos

end

end ObjectLang
