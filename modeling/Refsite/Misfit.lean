namespace Refsite

inductive Misfit where
  | wrongType
  | noField
  | undefined
  | tooDeep
  deriving DecidableEq, Repr

def mapUntil {α ε : Type} (f : α → Except ε α) : List α → List α × Option ε
  | [] => ([], none)
  | a :: items =>
    match f a with
    | .error e => (a :: items, some e)
    | .ok b =>
      let (done, failure) := mapUntil f items
      (b :: done, failure)

end Refsite
