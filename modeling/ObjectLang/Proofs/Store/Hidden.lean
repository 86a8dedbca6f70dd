import ObjectLang.Proofs.Store.Policy

/-!
# Hidden arrays

An array that no value of a store refers to stays as it is, whatever code runs: to hide it is a
policy that rules out nothing else. Arrays behind those of a sound store are hidden as long as no
reference to them is given away.
-/

namespace ObjectLang

/-- The array holds the items, and no value refers to it. -/
def Policy.hiding (a : ArrayId) (items : Array Value) : Policy where
  code _ := True
  fault _ := True
  reference b := b ≠ a
  arrays xs := xs[a.index]? = some items
  child _ _ := trivial
  nothing := trivial
  sensible _ := trivial
  refused _ := .inr fun _ => trivial
  fresh := by
    rintro xs h rfl
    simp at h
  push vs h := by
    obtain ⟨lt, e⟩ := Array.getElem?_eq_some_iff.mp h
    rw [Array.getElem?_push_lt lt, e]
  modify k h ne := by
    rw [Array.getElem?_modify, if_neg fun e => ne (congrArg ArrayId.mk e)]
    exact h

variable {s : Store} {a : ArrayId} {items : Array Value}

theorem Store.Obeys.hidden_array (h : s.Obeys (.hiding a items)) : s.array a = items := by
  have held : s.arrays[a.index]? = some items := h.arrays
  rw [Store.array, held, Option.getD_some]

theorem Callable.obeys_hiding (m : Callable) : m.Obeys (.hiding a items) := by
  cases m <;> trivial

theorem Value.obeys_hiding {v : Value} (h : v ≠ .array a) : v.Obeys (.hiding a items) := by
  cases v with
  | array b => exact fun e => h (congrArg Value.array e)
  | function m => exact m.obeys_hiding
  | _ => trivial

theorem Store.Knows.ne_array {v : Value} (h : s.Knows v) (new : ¬ s.HasArray a) : v ≠ .array a := by
  rintro rfl
  exact new h

/-- Only the arrays differ from those of the sound store, and they hold nothing that it does not
know. -/
theorem Store.Sound.hides (h : s.Sound) (new : ¬ s.HasArray a) {xs : Array (Array Value)}
    (here : xs[a.index]? = some items) (known : ∀ vs ∈ xs, ∀ v ∈ vs, s.Knows v) :
    Store.Obeys (.hiding a items) { s with arrays := xs } := by
  have obeys (v : Value) (hv : s.Knows v) : v.Obeys (.hiding a items) :=
    Value.obeys_hiding (hv.ne_array new)
  have method (m : Callable) (_ : s.Admits m) : m.Obeys (.hiding a items) := m.obeys_hiding
  exact
    { frames := h.frames.mono fun _ _ hf =>
        ⟨hf.locals.mono obeys, fun v hv => obeys v (hf.self v hv)⟩
      objects := h.objects.mono fun _ _ ho => ho.1.fields.mono obeys
      classes := h.classes.mono fun _ _ hd =>
        ⟨hd.object.fields.mono obeys, hd.methods.mono method, hd.constants.mono obeys,
          hd.classVars.mono obeys⟩
      arrays := here
      items := fun _ vs hvs v hv => obeys v (known vs (Array.mem_of_getElem? hvs) v hv)
      hashes := h.hashes.mono fun _ _ ht e he => ⟨obeys _ (ht e he).1, obeys _ (ht e he).2⟩
      blocks := fun _ _ _ => trivial }

end ObjectLang
