import KeypadCalc.Proofs.PostfixOrder

/-!
# What the arrangement into postfix order does

Whatever leaves the stack is a run of operators from its top: those that an operator releases, those down to
the parenthesis that is closed, or all that is left at the end. `Postfix.Arranges` says with this, for any
token list, what is read and what is written for it. Whatever the arrangement keeps or counts is then an
induction over that relation.
-/
namespace KeypadCalc.Postfix

theorem exists_of_release (o : BinaryOp) (stack : List Waiting) :
    ∃ ops : List BinaryOp, (release o stack).1 = ops.map Token.op ∧
      stack = ops.map Waiting.op ++ (release o stack).2 := by
  induction stack with
  | nil => exact ⟨[], rfl, rfl⟩
  | cons w stack ih =>
    cases w with
    | opening => exact ⟨[], rfl, rfl⟩
    | op p =>
      rw [release]
      split
      · obtain ⟨ops, hreleased, hstack⟩ := ih
        refine ⟨p :: ops, congrArg (Token.op p :: ·) hreleased, ?_⟩
        exact congrArg (Waiting.op p :: ·) hstack
      · exact ⟨[], rfl, rfl⟩

theorem exists_of_close? {stack kept : List Waiting} {out : List Token}
    (h : close? stack = some (out, kept)) :
    ∃ ops : List BinaryOp, out = ops.map Token.op ∧ stack = ops.map Waiting.op ++ .opening :: kept := by
  induction stack generalizing out with
  | nil => cases h
  | cons w stack ih =>
    cases w with
    | opening =>
      obtain ⟨rfl, rfl⟩ := Prod.mk.inj (Option.some.inj h)
      exact ⟨[], rfl, rfl⟩
    | op p =>
      cases hclose : close? stack with
      | none => simp [close?, hclose] at h
      | some rest =>
        obtain ⟨rfl, rfl⟩ : .op p :: rest.1 = out ∧ rest.2 = kept := by simpa [close?, hclose] using h
        obtain ⟨ops, hout, hstack⟩ := ih hclose
        exact ⟨p :: ops, congrArg (Token.op p :: ·) hout, congrArg (Waiting.op p :: ·) hstack⟩

theorem exists_of_drain {stack : List Waiting} {out : List Token} (h : drain stack = .ok out) :
    ∃ ops : List BinaryOp, out = ops.map Token.op ∧ stack = ops.map Waiting.op := by
  induction stack generalizing out with
  | nil => exact ⟨[], (Except.ok.inj h).symm, rfl⟩
  | cons w stack ih =>
    cases w with
    | opening => cases h
    | op p =>
      rw [drain_op] at h
      obtain ⟨rest, hdrain, rfl⟩ := emit_eq_ok h
      obtain ⟨ops, hrest, hstack⟩ := ih hdrain
      exact ⟨p :: ops, congrArg (Token.op p :: ·) hrest, congrArg (Waiting.op p :: ·) hstack⟩

/-- The tokens `out` are written for `tokens`, where `stack` waits and `afterValue` tells whether a number or
a closing parenthesis came just before. -/
inductive Arranges : List Waiting → Bool → List Token → List Token → Prop
  | done (afterValue : Bool) (ops : List BinaryOp) :
      Arranges (ops.map Waiting.op) afterValue [] (ops.map Token.op)
  | number {stack : List Waiting} (r : Rat) {tokens out : List Token} (h : Arranges stack true tokens out) :
      Arranges stack false (.number r :: tokens) (.number r :: out)
  | opening {stack : List Waiting} (afterValue : Bool) {tokens out : List Token}
      (h : Arranges (.opening :: stack) false tokens out) :
      Arranges stack afterValue (.opening :: tokens) out
  | closing (ops : List BinaryOp) {kept : List Waiting} (afterValue : Bool) {tokens out : List Token}
      (h : Arranges kept true tokens out) :
      Arranges (ops.map Waiting.op ++ .opening :: kept) afterValue (.closing :: tokens)
        (ops.map Token.op ++ out)
  | op (o : BinaryOp) (released : List BinaryOp) {kept : List Waiting} (afterValue : Bool)
      {tokens out : List Token} (h : Arranges (.op o :: kept) false tokens out) :
      Arranges (released.map Waiting.op ++ kept) afterValue (.op o :: tokens)
        ((if o = .sub && !afterValue then [.number 0] else []) ++ released.map Token.op ++ out)

theorem arranges_of_arrange {stack : List Waiting} {afterValue : Bool} {tokens out : List Token}
    (h : arrange stack afterValue tokens = .ok out) : Arranges stack afterValue tokens out := by
  induction tokens generalizing stack afterValue out with
  | nil =>
    obtain ⟨ops, rfl, rfl⟩ := exists_of_drain h
    exact .done afterValue ops
  | cons t tokens ih =>
    cases t with
    | number r =>
      cases afterValue with
      | true => simp [arrange] at h
      | false =>
        rw [arrange_number] at h
        obtain ⟨rest, hread, rfl⟩ := emit_eq_ok h
        exact .number r (ih hread)
    | op o =>
      obtain ⟨released, hreleased, hstack⟩ := exists_of_release o stack
      rw [arrange_op afterValue rfl] at h
      obtain ⟨rest, hread, rfl⟩ := emit_eq_ok h
      rw [hreleased]
      generalize (release o stack).2 = kept at hstack hread
      subst hstack
      exact .op o released afterValue (ih hread)
    | opening => exact .opening afterValue (ih h)
    | closing =>
      cases hclose : close? stack with
      | none => simp [arrange, hclose] at h
      | some x =>
        rw [arrange_closing afterValue hclose] at h
        obtain ⟨rest, hread, rfl⟩ := emit_eq_ok h
        obtain ⟨ops, hout, rfl⟩ := exists_of_close? hclose
        rw [hout]
        exact .closing ops afterValue (ih hread)

end KeypadCalc.Postfix
