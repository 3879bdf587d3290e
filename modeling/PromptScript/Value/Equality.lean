import PromptScript.Value.Coercion

/-! # Equality

Strict equality compares values of one kind, arrays and objects by what they hold; loose equality brings
values of different kinds to a common one first. -/
namespace PromptScript.Value

mutual

/-- Strict equality. Objects are equal whatever the order of their fields, functions if they are one and
the same. -/
def strictEquals : Value → Value → Bool
  | undefined, undefined => true
  | null, null => true
  | bool a, bool b => a == b
  | number x, number y => x == y
  | string s, string t => s == t
  | array xs, array ys => equalItems xs ys
  | object fs, object gs => fs.length == gs.length && equalFields fs gs
  | date a, date b => a == b
  | callable i, callable j => i == j
  | method i _ _, method j _ _ => i == j
  | _, _ => false

def equalItems : List Value → List Value → Bool
  | [], [] => true
  | x :: xs, y :: ys => strictEquals x y && equalItems xs ys
  | _, _ => false

/-- Whether every field of the first list has an equal one in the second. -/
def equalFields : List (String × Value) → List (String × Value) → Bool
  | [], _ => true
  | (k, x) :: fs, gs =>
    (match Fields.get? k gs with
      | some y => strictEquals x y
      | none => false) && equalFields fs gs

end

/-- Loose equality. -/
def looseEquals (a b : Value) : Bool :=
  if a.isNullish || b.isNullish then a.isNullish && b.isNullish
  else match a, b with
    | number _, string _ | string _, number _ => a.toNumber == b.toNumber
    | bool _, _ | _, bool _ => a.toNumber == b.toNumber
    | array _, string _ | object _, string _ | date _, string _ => a.toText == b.toText
    | string _, array _ | string _, object _ | string _, date _ => a.toText == b.toText
    | array _, number _ | object _, number _ => a.toNumber == b.toNumber
    | number _, array _ | number _, object _ => a.toNumber == b.toNumber
    | _, _ => a.strictEquals b

end PromptScript.Value
