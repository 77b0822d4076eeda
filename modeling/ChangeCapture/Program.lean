/-! # Programs that ask their surroundings -/

namespace ChangeCapture

/-- What can be asked, and the type of the answer to each request. -/
structure Interface where
  Request : Type
  Answer : Request → Type

/-- A program that ends with a value after finitely many requests, each of which may depend on the
answers before it. -/
inductive Program (I : Interface) (α : Type) where
  | done (a : α)
  | ask (request : I.Request) (next : I.Answer request → Program I α)

namespace Program

variable {I : Interface} {α β : Type}

/-! ## Composition -/

/-- Goes on with the value of a program. -/
def andThen : Program I α → (α → Program I β) → Program I β
  | .done a, f => f a
  | .ask request next, f => .ask request fun answer => (next answer).andThen f

instance : Monad (Program I) where
  pure := done
  bind := andThen

/-- A single request. -/
def request (r : I.Request) : Program I (I.Answer r) := .ask r .done

/-! ## Execution -/

/-- Runs a program with something that answers its requests. -/
def run {m : Type → Type} [Monad m] (answer : (r : I.Request) → m (I.Answer r)) :
    Program I α → m α
  | .done a => pure a
  | .ask r next => do
      let a ← answer r
      (next a).run answer

end Program

end ChangeCapture
