import ObjectLang.Proofs.Store.Effect

/-!
# What a step does

A step run in a sound store has an effect, whether it ends with a value or with
a fault, and its value has a property in the store it leaves. Here are the rules
by which this passes through the ways of putting steps together.
-/

namespace ObjectLang

open Store

namespace Eval

variable {α β : Type} {W : FrameId → Prop} {s : Store}

/-- Run in `s`, the step writes no locals beyond `W`, and its value satisfies `Q`. -/
def Does (W : FrameId → Prop) (s : Store) (x : Eval α) (Q : α → Store → Prop) : Prop :=
  match x s with
  | .value a s' => Effect W s s' ∧ Q a s'
  | .fault _ s' => Effect W s s'
  | .unfinished => True

abbrev Answers (W : FrameId → Prop) (s : Store) (x : Eval Value) : Prop :=
  Does W s x fun v s' => s'.Knows v

/-! ## Single steps -/

section
variable {Q : α → Store → Prop} (h : s.Sound)
include h

theorem does_pure {a : α} (q : Q a s) : Does W s (pure a) Q :=
  ⟨.refl h, q⟩

theorem does_fail (f : Fault) : Does W s (fail f) Q :=
  Effect.refl h

theorem does_typeFail (f : TypeFault) : Does W s (typeFail f) Q :=
  Effect.refl h

theorem does_read {g : Store → α} (q : Q (g s) s) : Does W s (read g) Q :=
  ⟨.refl h, q⟩

end

theorem does_crash {Q : α → Store → Prop} : Does W s crash Q :=
  trivial

theorem does_change {g : Store → Store} {Q : Unit → Store → Prop} (e : Effect W s (g s))
    (q : Q () (g s)) : Does W s (change g) Q :=
  ⟨e, q⟩

theorem does_add {g : Store → α × Store} {Q : α → Store → Prop} (e : Effect W s (g s).2)
    (q : Q (g s).1 (g s).2) : Does W s (Eval.add g) Q :=
  ⟨e, q⟩

/-! ## Steps in sequence -/

theorem Does.widen {V : FrameId → Prop} {x : Eval α} {Q : α → Store → Prop} (hx : Does V s x Q)
    (hw : ∀ f, V f → W f) : Does W s x Q := by
  unfold Does at hx ⊢
  cases e : x s with
  | value a s' => rw [e] at hx; exact ⟨hx.1.widen hw, hx.2⟩
  | fault f s' => rw [e] at hx; exact hx.widen hw
  | unfinished => trivial

/-- After a step from `s` to `s'`, a step from `s'` that writes only new frames besides `W`. -/
theorem Does.after {V : FrameId → Prop} {s' : Store} {x : Eval α} {Q : α → Store → Prop}
    (e : Effect W s s') (hx : Does V s' x Q)
    (hw : ∀ f, s.HasFrame f ∨ f = Machine.root → V f → W f) :
    match x s' with
    | .value a s'' => Effect W s s'' ∧ Q a s''
    | .fault _ s'' => Effect W s s''
    | .unfinished => True := by
  unfold Does at hx
  cases e' : x s' with
  | value a s'' => rw [e'] at hx; exact ⟨e.trans hx.1 hw, hx.2⟩
  | fault f s'' => rw [e'] at hx; exact e.trans hx hw
  | unfinished => trivial

theorem Does.bind {x : Eval α} {k : α → Eval β} {P : α → Store → Prop} {Q : β → Store → Prop}
    (hx : Does W s x P) (hk : ∀ a s', Effect W s s' → P a s' → Does W s' (k a) Q) :
    Does W s (x >>= k) Q := by
  change match Eval.bind x k s with
    | .value b s' => Effect W s s' ∧ Q b s' | .fault _ s' => Effect W s s' | .unfinished => True
  unfold Eval.bind
  unfold Does at hx
  cases e : x s with
  | value a s' =>
    rw [e] at hx
    exact (hk a s' hx.1 hx.2).after hx.1 fun _ _ hw => hw
  | fault f s' => rw [e] at hx; exact hx
  | unfinished => trivial

theorem Does.read {g : Store → α} {k : α → Eval β} {Q : β → Store → Prop}
    (hk : Does W s (k (g s)) Q) : Does W s (read g >>= k) Q :=
  hk

theorem Does.change {g : Store → Store} {k : Unit → Eval β} {Q : β → Store → Prop}
    (e : Effect W s (g s)) (hk : Does W (g s) (k ()) Q) : Does W s (change g >>= k) Q := by
  have both := hk.after e fun _ _ hw => hw
  exact both

theorem Does.add {g : Store → α × Store} {k : α → Eval β} {Q : β → Store → Prop}
    (e : Effect W s (g s).2) (hk : Does W (g s).2 (k (g s).1) Q) :
    Does W s (Eval.add g >>= k) Q := by
  have both := hk.after e fun _ _ hw => hw
  exact both

/-! ## Steps for each element -/

section
variable (h : s.Sound)
include h

theorem does_eachOnto {step : α → Eval Value} {l : List α} {done : Array Value}
    (hstep : ∀ a ∈ l, ∀ s', Effect W s s' → Answers W s' (step a))
    (hd : ∀ v ∈ done, s.Knows v) :
    Does W s (eachOnto step done l) fun vs s' => ∀ v ∈ vs, s'.Knows v := by
  induction l generalizing s done with
  | nil => exact does_pure h hd
  | cons a l ih =>
    refine (hstep a List.mem_cons_self s (.refl h)).bind fun v s' e hv => ?_
    refine ih e.sound (fun b hb s'' e' => ?_) ?_
    · exact hstep b (List.mem_cons_of_mem _ hb) s'' (e.trans e' fun _ _ hw => hw)
    · intro w hw
      rcases Array.mem_push.mp hw with hw | rfl
      · exact (hd w hw).grows e.grows
      · exact hv

theorem does_each {step : α → Eval Value} {l : List α}
    (hstep : ∀ a ∈ l, ∀ s', Effect W s s' → Answers W s' (step a)) :
    Does W s (each step l) fun vs s' => ∀ v ∈ vs, s'.Knows v := by
  refine (does_eachOnto h hstep (by simp)).bind fun vs s' e hv => does_pure e.sound ?_
  exact fun v hm => hv v (Array.mem_toList_iff.mp hm)

theorem does_eachIntegerOnto {step : Int → Eval Value} {done : Array Value} {count : Nat}
    {lower : Int} (hstep : ∀ n s', Effect W s s' → Answers W s' (step n))
    (hd : ∀ v ∈ done, s.Knows v) :
    Does W s (eachIntegerOnto step done count lower) fun vs s' => ∀ v ∈ vs, s'.Knows v := by
  induction count generalizing s done lower with
  | zero => exact does_pure h hd
  | succ count ih =>
    refine (hstep lower s (.refl h)).bind fun v s' e hv => ?_
    refine ih e.sound (fun n s'' e' => hstep n s'' (e.trans e' fun _ _ hw => hw)) ?_
    intro w hw
    rcases Array.mem_push.mp hw with hw | rfl
    · exact (hd w hw).grows e.grows
    · exact hv

theorem does_visit {step : α → Eval Unit} {l : List α}
    (hstep : ∀ a ∈ l, ∀ s', Effect W s s' → Does W s' (step a) fun _ _ => True) :
    Does W s (visit step l) fun _ _ => True := by
  induction l generalizing s with
  | nil => exact does_pure h trivial
  | cons a l ih =>
    refine (hstep a List.mem_cons_self s (.refl h)).bind fun _ s' e _ => ?_
    exact ih e.sound fun b hb s'' e' =>
      hstep b (List.mem_cons_of_mem _ hb) s'' (e.trans e' fun _ _ hw => hw)

theorem does_visitIntegers {step : Int → Eval Unit} {count : Nat} {lower : Int}
    (hstep : ∀ n s', Effect W s s' → Does W s' (step n) fun _ _ => True) :
    Does W s (visitIntegers step count lower) fun _ _ => True := by
  induction count generalizing s lower with
  | zero => exact does_pure h trivial
  | succ count ih =>
    refine (hstep lower s (.refl h)).bind fun _ s' e _ => ?_
    exact ih e.sound fun n s'' e' => hstep n s'' (e.trans e' fun _ _ hw => hw)

end

end Eval

end ObjectLang
