import KeypadCalc.Text.Quoted

/-!
Why an expression has no value. The causes are values; the wording of all of them is in one place.
-/
namespace KeypadCalc

/-- Why an expression is not evaluated. -/
inductive EvalError where
  | empty
  | refused
  | unexpectedCharacter (c : Char)
  | invalidNumber (literal : Text)
  | malformed
  | unbalanced
  | divisionByZero
  | notFinite
deriving DecidableEq, Repr

def EvalError.message : EvalError → Text
  | .empty => "expression vide".toList
  | .refused => "expression refusée par la validation".toList
  | .unexpectedCharacter c => "caractère inattendu: '".toList ++ [c, '\'']
  | .invalidNumber literal => "nombre invalide: ".toList ++ Text.quote literal
  | .malformed => "expression mal formée".toList
  | .unbalanced => "parenthèses non équilibrées".toList
  | .divisionByZero => "division par zéro".toList
  | .notFinite => "résultat non fini".toList

end KeypadCalc
