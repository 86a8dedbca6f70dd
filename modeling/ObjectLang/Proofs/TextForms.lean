import ObjectLang.Eval.Builtins
import ObjectLang.Proofs.Store.Copied

/-!
# Text forms

Every value has a text, however collections share elements or contain themselves. Dots stand for a
collection only inside of itself, and so the text of a value without a cycle does not tell what is
shared.
-/

namespace ObjectLang

open Relation Eval

/-- What is printed for the arguments: all their lines, or an empty one if there is no argument. -/
inductive Puts (s : Store) : List Value → String → Prop where
  | none : Puts s [] "\n"
  | lines {args : List Value} {lines : List (List String)} (some : args ≠ [])
      (h : List.Forall₂ (s.Prints []) args lines) :
      Puts s args (String.join (lines.flatten.map (· ++ "\n")))

theorem putsText_of_ne_nil {s : Store} {args : List Value} (h : args ≠ []) :
    s.putsText args = String.join ((args.flatMap s.lines).map (· ++ "\n")) := by
  cases args with
  | nil => exact absurd rfl h
  | cons v args => rfl

theorem forall₂_iff_eq_map {α β : Type} {R : α → β → Prop} {f : α → β} {xs : List α} {ys : List β}
    (h : ∀ x ∈ xs, ∀ y, R x y ↔ y = f x) : List.Forall₂ R xs ys ↔ ys = xs.map f := by
  induction xs generalizing ys with
  | nil => cases ys <;> simp
  | cons x xs ih =>
    obtain ⟨here, rest⟩ := List.forall_mem_cons.mp h
    cases ys with
    | nil => simp
    | cons y ys => simp [here, ih rest]

theorem puts_iff {s : Store} {args : List Value} {t : String} (h : ∀ v ∈ args, s.Intact v) :
    Puts s args t ↔ t = s.putsText args := by
  have each {lines : List (List String)} :
      List.Forall₂ (s.Prints []) args lines ↔ lines = args.map s.lines :=
    forall₂_iff_eq_map fun v hv _ => Store.prints_iff (h v hv)
  constructor
  · rintro (_ | ⟨some, printed⟩)
    · rfl
    · rw [putsText_of_ne_nil some, each.mp printed, List.flatMap_def]
  · rintro rfl
    by_cases none : args = []
    · rw [none]
      exact .none
    · rw [putsText_of_ne_nil none, List.flatMap_def]
      exact .lines none (each.mpr rfl)

theorem puts_eq (args : List Value) (s : Store) : puts args s =
    if s.output.closed then .fault (.stream .brokenPipe) s
    else .value .nil (s.print (s.putsText args)) := by
  change (if s.output.closed then fail (.stream .brokenPipe) else _ : Eval Value) s = _
  split <;> rfl

/-- Both forms of a value and what is printed for values. The forms of a value without a cycle are
those of every copy, and there is a copy in which nothing is shared. -/
theorem text_forms (s : Store) :
    (∀ v, s.Intact v → (∀ t, s.Shows [] v t ↔ t = s.inspect v) ∧
      (∀ t, s.Displays v t ↔ t = s.display v) ∧ (s.Acyclic v → s.HasCopy s v) ∧
      ∀ t w made, s.Copied t v w made →
        (∀ v : Value, v.IsAtom → t.inspectAtom v = s.inspectAtom v) →
        t.inspect w = s.inspect v ∧ t.display w = s.display v) ∧
    ∀ args, (∀ v ∈ args, s.Intact v) → ∃ text, (∀ t, Puts s args t ↔ t = text) ∧
      puts args s = if s.output.closed then .fault (.stream .brokenPipe) s
        else .value .nil (s.print text) := by
  refine ⟨fun v h => ⟨fun t => ?_, fun t => ?_, fun acyclic => ?_, ?_⟩, fun args h => ?_⟩
  · exact Store.shows_iff h
  · exact Store.displays_iff h
  · exact Store.hasCopy acyclic.acc s
  · exact fun t w made copied atoms => ⟨copied.inspect_eq h atoms, copied.display_eq h atoms⟩
  · exact ⟨s.putsText args, fun t => puts_iff h, puts_eq args s⟩

/-- An array that holds another one twice, and one that is inside of itself and of a hash in it. -/
def mixedStore : Store :=
  { Store.empty with
    arrays := #[#[.int 1], #[.array ⟨0⟩, .array ⟨0⟩], #[.array ⟨2⟩, .hash ⟨0⟩]]
    hashes := #[⟨#[⟨.nil, .array ⟨2⟩⟩], []⟩] }

example : mixedStore.inspect (.array ⟨2⟩) = "[[...], {nil=>[...]}]" ∧
    mixedStore.lines (.array ⟨2⟩) = ["[...]", "{nil=>[[...], {...}]}"] := by
  decide +kernel

theorem text_forms_mixed :
    ((∀ v ∈ [.array ⟨1⟩, .array ⟨2⟩], mixedStore.Intact v) ∧ mixedStore.Acyclic (.array ⟨1⟩)) ∧
    mixedStore.Shows [] (.array ⟨2⟩) "[[...], {nil=>[...]}]" ∧
    (∃ t w made, mixedStore.Copied t (.array ⟨1⟩) w made ∧ made.Nodup ∧
      t.inspect w = mixedStore.inspect (.array ⟨1⟩)) ∧
    ∃ text, Puts mixedStore [.array ⟨1⟩, .array ⟨2⟩] text ∧
      puts [.array ⟨1⟩, .array ⟨2⟩] mixedStore = .value .nil (mixedStore.print text) := by
  have closed : ∀ c : Container,
      c.value ∈ [.int 1, .nil, .array ⟨0⟩, .array ⟨1⟩, .array ⟨2⟩, .hash ⟨0⟩] →
      c ∈ mixedStore.containers ∧ ∀ x ∈ mixedStore.children c,
        x ∈ [.int 1, .nil, .array ⟨0⟩, .array ⟨1⟩, .array ⟨2⟩, .hash ⟨0⟩] := by
    intro c hc
    have known : c = .array ⟨0⟩ ∨ c = .array ⟨1⟩ ∨ c = .array ⟨2⟩ ∨ c = .hash ⟨0⟩ := by
      cases c <;> simpa [Container.value] using hc
    rcases known with rfl | rfl | rfl | rfl <;> refine ⟨by decide, ?_⟩ <;>
      simp [Store.children, Store.array, Store.hash, HashTable.pairs, mixedStore]
  have one : mixedStore.Intact (.array ⟨1⟩) := .of_closed (by simp) closed
  have two : mixedStore.Intact (.array ⟨2⟩) := .of_closed (by simp) closed
  have intact : ∀ v ∈ [.array ⟨1⟩, .array ⟨2⟩], mixedStore.Intact v :=
    List.forall_mem_cons.mpr ⟨one, List.forall_mem_singleton.mpr two⟩
  have acyclic : mixedStore.Acyclic (.array ⟨1⟩) := by
    refine Store.acyclic_iff_acc.mpr (Store.acc_value (c := .array ⟨1⟩) fun x hx => ?_)
    obtain rfl : x = .array ⟨0⟩ := by simpa [Store.children, Store.array, mixedStore] using hx
    refine Store.acc_value (c := .array ⟨0⟩) fun x hx => ?_
    obtain rfl : x = .int 1 := by simpa [Store.children, Store.array, mixedStore] using hx
    exact Store.acc_of_isAtom fun c e => by cases c <;> cases e
  obtain ⟨forms, printed⟩ := text_forms mixedStore
  refine ⟨⟨intact, acyclic⟩, ?_, ?_, ?_⟩
  · exact ((forms _ two).1 _).mpr (by decide +kernel)
  · obtain ⟨t, w, made, enlarged, copied, nodup, -⟩ := (forms _ one).2.2.1 acyclic
    exact ⟨t, w, made, copied, nodup, ((forms _ one).2.2.2 t w made copied enlarged.atoms).1⟩
  · obtain ⟨text, unique, result⟩ := printed _ intact
    exact ⟨text, (unique text).mpr rfl, result⟩

end ObjectLang
