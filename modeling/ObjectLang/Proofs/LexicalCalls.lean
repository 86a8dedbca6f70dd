import ObjectLang.Proofs.Eval.Monotone
import ObjectLang.Proofs.Eval.Sequence
import ObjectLang.Proofs.Store.Core

/-!
# Calls are lexically scoped

Of the frame that a call is made from, only the outermost frame around it is ever looked at: the
classes of plain values are registered there, and the frame of a definition is made directly
inside of it. So two frames with the same outermost frame make the same calls.
-/

namespace ObjectLang

open Eval

theorem checkArity_keeps {n : String} {expected : Nat} {args : List Value} {s s' : Store} {u : Unit}
    (h : checkArity n expected args s = .value u s') : s' = s := by
  unfold checkArity at h
  split at h
  · cases h; rfl
  · cases h

section
variable {s : Store} {f g : FrameId} (h : s.root f = s.root g)
include h

/-! ## Lookups -/

theorem registeredClass?_caller (n : String) : s.registeredClass? f n = s.registeredClass? g n := by
  rw [Store.registeredClass?, Store.registeredClass?, h]

theorem classOf?_caller (v : Value) : s.classOf? f v = s.classOf? g v := by
  have registered : s.registeredClass? f = s.registeredClass? g :=
    funext (registeredClass?_caller h)
  rw [Store.classOf?, Store.classOf?, registered]

theorem method?_caller (v : Value) (n : String) : s.method? f v n = s.method? g v n := by
  have same := classOf?_caller h
  simp only [Store.method?, same]

/-! ## Built-in methods -/

theorem expectClassOf_caller (v : Value) : expectClassOf f v s = expectClassOf g v s := by
  exact read_bind_agree (classOf?_caller h v) fun _ => rfl

theorem methodsOf_caller (v : Value) : methodsOf f v s = methodsOf g v s := by
  refine read_bind_agree rfl fun found => ?_
  cases found with
  | some o => rfl
  | none => exact bind_agree (expectClassOf_caller h v) fun _ _ _ => rfl

theorem respondsTo_caller (v n : Value) : respondsTo f v n s = respondsTo g v n s := by
  cases n with
  | symbol n | str n =>
    change Outcome.value (Value.bool (s.method? f v n).isSome) s = _
    rw [method?_caller h]
    rfl
  | _ => rfl

omit h in
theorem withoutArgs_caller (b : Builtin) (args : List Value) {x y : Eval Value} (hx : x s = y s) :
    withoutArgs b args x s = withoutArgs b args y s := by
  refine bind_agree rfl fun _ s' e => ?_
  rw [checkArity_keeps e]
  exact hx

end

/-! ## Calls -/

/-- Tasks that are invocations have the same outcome from both frames, wherever these have the
same outermost frame. -/
def Performer.Lexical (r : Performer) (f g : FrameId) : Prop :=
  ∀ s, s.root f = s.root g → ∀ m receiver args,
    r (.invoke f m receiver args) s = r (.invoke g m receiver args) s

section
variable {r : Performer} {f g : FrameId} (hr : r.Lexical f g) {s : Store} (h : s.root f = s.root g)
include hr h

theorem newInstance_caller (receiver : Value) (args : List Value) :
    newInstance r f receiver args s = newInstance r g receiver args s := by
  cases receiver with
  | cls c =>
    refine bind_agree rfl fun c s' e => ?_
    cases e
    refine bind_agree rfl fun o s' e => ?_
    -- A new object changes no frame, so the two frames still have the same outermost one.
    have h' : s'.root f = s'.root g := by cases e; exact h
    refine read_bind_agree (method?_caller h' _ _) fun found => ?_
    cases found with
    | some m => exact bind_agree (hr _ h' _ _ _) fun _ _ _ => rfl
    | none => rfl
  | _ => rfl

theorem runBuiltin_caller (b : Builtin) (receiver : Value) (args : List Value) :
    runBuiltin r f b receiver args s = runBuiltin r g b receiver args s := by
  cases b with
  | new => exact newInstance_caller hr h receiver args
  | cls => exact withoutArgs_caller _ args (bind_agree (expectClassOf_caller h _) fun _ _ _ => rfl)
  | methods => exact withoutArgs_caller _ args (methodsOf_caller h receiver)
  | respondTo =>
    match args with
    | [n] => exact respondsTo_caller h receiver n
    | [] | _ :: _ :: _ => rfl
  | _ => rfl

omit hr in
theorem callDefinition_caller (d : Definition) (receiver : Option Value) (args : List Value) :
    callDefinition r f d receiver args s = callDefinition r g d receiver args s := by
  refine bind_agree rfl fun _ s' e => bind_agree ?_ fun _ _ _ => rfl
  have entered : s.enterCall f d receiver args = s.enterCall g d receiver args := by
    rw [Store.enterCall, Store.enterCall, h]
  rw [checkArity_keeps e, Eval.add, Eval.add, entered]

theorem invoke_caller (m : Callable) (receiver : Option Value) (args : List Value) :
    invoke r f m receiver args s = invoke r g m receiver args s := by
  cases m with
  | builtin b => exact runBuiltin_caller hr h b _ args
  | defined d => exact callDefinition_caller h d receiver args
  | _ => rfl

theorem send_caller (receiver : Value) (n : String) (args : List Value) :
    send r f receiver n args s = send r g receiver n args s := by
  refine read_bind_agree (method?_caller h receiver n) fun found => ?_
  cases found with
  | some m => exact invoke_caller hr h m _ args
  | none => rfl

end

theorem Eval.underBound_agree {α : Type} {s : Store} {x y : Nat → Eval α}
    (h : ∀ n, x n s = y n s) (n : Nat) :
    underBound x n s = underBound y n s := by
  unfold underBound
  simp only [h]

theorem perform_lexical (f g : FrameId) : ∀ fuel, (perform fuel).Lexical f g
  | 0, _, _, _, _, _ => rfl
  | fuel + 1, _, h, m, receiver, args => invoke_caller (perform_lexical f g fuel) h m receiver args

theorem performer_lexical (f g : FrameId) : Performer.Lexical performer f g := by
  intro s h m receiver args
  exact underBound_agree (fun fuel => perform_lexical f g fuel s h m receiver args) _

/-- A call made from two frames with the same outermost frame has the same outcome, whatever the
two frames hold: the same value or fault, and the same store with the same output. The same method
is found from both. -/
theorem call_from_any_frame {s : Store} {f g : FrameId} (h : s.root f = s.root g) :
    (∀ m receiver args,
      invoke performer f m receiver args s = invoke performer g m receiver args s ∧
      performer (.invoke f m receiver args) s = performer (.invoke g m receiver args) s) ∧
    (∀ receiver n args, sendTo f receiver n args s = sendTo g receiver n args s) ∧
    (∀ receiver n, s.method? f receiver n = s.method? g receiver n) := by
  have lexical := performer_lexical f g
  refine ⟨fun m receiver args => ⟨?_, ?_⟩, fun receiver n args => ?_, method?_caller h⟩
  · exact invoke_caller lexical h m receiver args
  · exact lexical s h m receiver args
  · exact send_caller lexical h receiver n args

/-- A new machine with a frame that has a local `x` inside of its outermost one. -/
def callerStore : Store :=
  (coreStore.addFrame ⟨some Machine.root, .ofList [("x", .int 1)], none, none⟩).2

/-- A function that reads `x` faults also when it is called from a frame with a local `x`. -/
theorem call_from_local_frame :
    callerStore.root ⟨1⟩ = callerStore.root ⟨0⟩ ∧
      performer (.invoke ⟨1⟩ (.defined ⟨"f", [], .name "x", none⟩) none []) callerStore =
        performer (.invoke ⟨0⟩ (.defined ⟨"f", [], .name "x", none⟩) none []) callerStore ∧
      ∃ s, performer (.invoke ⟨0⟩ (.defined ⟨"f", [], .name "x", none⟩) none []) callerStore =
        .fault (.undefinedName "x") s := by
  have same : callerStore.root ⟨1⟩ = callerStore.root ⟨0⟩ := rfl
  exact ⟨same, ((call_from_any_frame same).1 _ none []).2, _,
    (performer_eq_iff _ _ rfl).mpr ⟨3, rfl⟩⟩

end ObjectLang
