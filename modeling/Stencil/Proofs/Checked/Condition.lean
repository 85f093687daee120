import Stencil.Proofs.Checked.Slice
import Stencil.Proofs.Condition.Printed

/-!
# Reading conditions by bytes

`Checked.parseCondition` reads an expression as a program does that names places by bytes. It cuts
at three places: at every character outside quotes to see whether an operator begins there, on both
sides of the operator, and within the quotes of an operand. None of these cuts fails
(`Checked.parseCondition_eq`).
-/

namespace Stencil

namespace Checked

/-- The operand that a text stands for. -/
def parseOperand (raw : Text) : Checked Operand :=
  if 2 ≤ Text.utf8Length raw ∧ raw.head? = some Operand.quote ∧
      raw.getLast? = some Operand.quote then do
    let stop ← subtract (Text.utf8Length raw) 1
    let quoted ← slice raw 1 stop
    return .text quoted
  else return Operand.parse raw

/-- The first operator outside quotes with the byte where it begins. The characters `cs` are left of
the expression, the first of them at the byte `place`. -/
def findOperator (expr : Text) (inQuotes : Bool) (place : Nat) :
    Text → Checked (Option (Nat × Comparison))
  | [] => return none
  | c :: cs =>
    if c = Operand.quote then findOperator expr (!inQuotes) (place + c.utf8Size) cs
    else if inQuotes then findOperator expr inQuotes (place + c.utf8Size) cs
    else do
      let rest ← slice expr place (Text.utf8Length expr)
      match Comparison.atStart? rest with
      | some (op, _) => return some (place, op)
      | none => findOperator expr inQuotes (place + c.utf8Size) cs

/-- The condition of an expression in which operators count everywhere. -/
def parseLegacy (expr : Text) : Checked Condition :=
  if Condition.mentionsOperator expr then
    match Condition.splitLegacy? expr with
    | some (left, op, right) => do
      let operand ← parseOperand (Text.trim right)
      return .compare (Text.trim left) op operand
    | none => return .malformed expr
  else return .holds expr

/-- The condition of an expression in which operators do not count between quotes. -/
def parseStrict (expr : Text) : Checked Condition := do
  match ← findOperator expr false 0 expr with
  | none => return .holds expr
  | some (place, op) =>
    let left ← slice expr 0 place
    let right ← slice expr (place + Text.utf8Length op.symbol) (Text.utf8Length expr)
    if Text.trim left = [] ∨ Text.trim right = [] then return .malformed expr
    else
      let operand ← parseOperand (Text.trim right)
      return .compare (Text.trim left) op operand

/-- The condition of an expression. -/
def parseCondition (detection : Detection) (expr : Text) : Checked Condition :=
  let expr := Text.trim expr
  if expr = [] then return .empty
  else match detection with
    | .legacy => parseLegacy expr
    | .strict => parseStrict expr

/-- A text of two bytes or more that begins and ends with a quote has something between quotes. -/
theorem exists_quoted {raw : Text} (hlen : 2 ≤ Text.utf8Length raw)
    (hfirst : raw.head? = some Operand.quote) (hlast : raw.getLast? = some Operand.quote) :
    ∃ s, raw = Operand.quote :: (s ++ [Operand.quote]) := by
  obtain ⟨t, rfl⟩ := List.head?_eq_some_iff.1 hfirst
  rcases List.eq_nil_or_concat t with rfl | ⟨s, x, rfl⟩
  · exact absurd hlen (by decide)
  · rw [List.concat_eq_append, ← List.cons_append, List.getLast?_concat, Option.some.injEq] at hlast
    exact ⟨s, by rw [hlast, List.concat_eq_append]⟩

/-- An operand is read without a panic. -/
theorem parseOperand_eq (raw : Text) : parseOperand raw = .ok (Operand.parse raw) := by
  unfold parseOperand
  split
  · next h =>
    obtain ⟨s, hs⟩ := exists_quoted h.1 h.2.1 h.2.2
    have hquote : Text.utf8Length [Operand.quote] = 1 := rfl
    have hbytes : Text.utf8Length raw = 1 + (Text.utf8Length s + 1) := by
      rw [hs, ← List.singleton_append, Text.utf8Length_append, Text.utf8Length_append, hquote]
    have hslice : slice raw 1 (Text.utf8Length s + 1) = .ok s := by
      refine slice_append (a := [Operand.quote]) (b := [Operand.quote]) ?_ hquote ?_
      · rw [hs]
        simp
      · rw [hquote, Nat.add_comm]
    have hparse : Operand.parse raw = .text s := by
      rw [Operand.parse, Operand.quoted?_eq_some_iff.2 hs]
    rw [hbytes, subtract_add_left, ok_bind, hslice, ok_bind, hparse]
    rfl
  · rfl

/-- The byte of the operator, where a text is split behind a part of it. -/
def operatorPlace (p : Text) (split : Text × Comparison × Text) : Nat × Comparison :=
  (Text.utf8Length (p ++ split.1), split.2.1)

/-- The operator is found without a panic, where `splitStrict?` splits the text. -/
theorem findOperator_eq {expr p cs : Text} (inQuotes : Bool) (h : expr = p ++ cs) :
    findOperator expr inQuotes (Text.utf8Length p) cs =
      .ok ((Condition.splitStrict? inQuotes cs).map (operatorPlace p)) := by
  induction cs generalizing p inQuotes with
  | nil => rfl
  | cons c cs ih =>
    have hplace : Text.utf8Length p + c.utf8Size = Text.utf8Length (p ++ [c]) := by simp
    -- With one character more on the left the operator stands at the same byte.
    have hfurther (inQuotes : Bool) (f : Text × Comparison × Text → Text × Comparison × Text)
        (hf : ∀ split, f split = (c :: split.1, split.2)) :
        findOperator expr inQuotes (Text.utf8Length p + c.utf8Size) cs =
          .ok (((Condition.splitStrict? inQuotes cs).map f).map (operatorPlace p)) := by
      have hcomp : operatorPlace p ∘ f = operatorPlace (p ++ [c]) := by
        funext split
        simp [hf, operatorPlace]
      rw [hplace, ih inQuotes (by rw [h]; simp), Option.map_map, hcomp]
    have hslice : slice expr (Text.utf8Length p) (Text.utf8Length expr) = .ok (c :: cs) :=
      slice_to_end h rfl
    simp only [findOperator, Condition.splitStrict?, hslice, ok_bind]
    split
    · exact hfurther _ _ fun _ => rfl
    · split
      · exact hfurther _ _ fun _ => rfl
      · rcases Comparison.atStart? (c :: cs) with _ | ⟨op, rest⟩
        · exact hfurther _ _ fun _ => rfl
        · simp only [Option.map_some, operatorPlace, List.append_nil]
          rfl

/-- An expression is read without a panic where operators count everywhere. -/
theorem parseLegacy_eq (expr : Text) : parseLegacy expr = .ok (Condition.parseLegacy expr) := by
  unfold parseLegacy Condition.parseLegacy
  split
  · rcases Condition.splitLegacy? expr with _ | ⟨left, op, right⟩
    · rfl
    · simp only [parseOperand_eq, ok_bind]
      rfl
  · rfl

/-- An expression is read without a panic where operators do not count between quotes. -/
theorem parseStrict_eq (expr : Text) : parseStrict expr = .ok (Condition.parseStrict expr) := by
  have hfind := findOperator_eq (p := []) false (rfl : expr = [] ++ expr)
  unfold parseStrict Condition.parseStrict
  rw [Text.utf8Length_nil] at hfind
  rw [hfind, ok_bind]
  rcases hsplit : Condition.splitStrict? false expr with _ | ⟨left, op, right⟩
  · rfl
  · have ht := Condition.splitStrict?_eq_append hsplit
    have hleft : slice expr 0 (Text.utf8Length left) = .ok left :=
      slice_append (a := []) ht rfl (Nat.zero_add _)
    have hright : slice expr (Text.utf8Length left + Text.utf8Length op.symbol)
        (Text.utf8Length expr) = .ok right := by
      refine slice_to_end (a := left ++ op.symbol) ?_ (Text.utf8Length_append left op.symbol)
      rw [ht, List.append_assoc]
    simp only [Option.map_some, operatorPlace, List.nil_append, hleft, hright, ok_bind,
      parseOperand_eq]
    split
    · rfl
    · rfl

/-- An expression is read without a panic. -/
theorem parseCondition_eq (detection : Detection) (expr : Text) :
    parseCondition detection expr = .ok (Condition.parse detection expr) := by
  unfold parseCondition Condition.parse
  cases detection with
  | legacy =>
    simp only [parseLegacy_eq]
    split
    · rfl
    · rfl
  | strict =>
    simp only [parseStrict_eq]
    split
    · rfl
    · rfl

end Checked

end Stencil
