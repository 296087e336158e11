import AnchorRuntime.Lib.Effect

/-!
# Programs in an environment

An environment answers every operation. In it a program performs one list of operations and has
one ending, and both are computed along the program text.

Results: `performed_bind` and `returned_bind`, and the same for the other ways to build a program.
-/

namespace Effect

variable {Op : Type} {Ans : Op → Type} {ε α β : Type}

abbrev Environment (Ans : Op → Type) := (o : Op) → Ans o

namespace Prog

/-- The operations a program performs, in order. -/
def performed (env : Environment Ans) : Prog Ans ε α → List Op
  | .ret _ | .raise _ => []
  | .step o k => o :: (k (env o)).performed env

/-- What a program returns or raises. -/
def returned (env : Environment Ans) : Prog Ans ε α → Except ε α
  | .ret a => .ok a
  | .raise e => .error e
  | .step o k => (k (env o)).returned env

variable {env : Environment Ans} {p : Prog Ans ε α}

@[simp] theorem performed_pure (a : α) : (pure a : Prog Ans ε α).performed env = [] := rfl

@[simp] theorem returned_pure (a : α) : (pure a : Prog Ans ε α).returned env = .ok a := rfl

@[simp] theorem performed_raise (e : ε) : (raise e : Prog Ans ε α).performed env = [] := rfl

@[simp] theorem returned_raise (e : ε) :
    (raise e : Prog Ans ε α).returned env = .error e := rfl

@[simp] theorem performed_ofExcept (r : Except ε α) :
    (ofExcept r : Prog Ans ε α).performed env = [] := by
  cases r <;> rfl

@[simp] theorem returned_ofExcept (r : Except ε α) :
    (ofExcept r : Prog Ans ε α).returned env = r := by
  cases r <;> rfl

@[simp] theorem performed_perform (o : Op) (h : Ans o → Except ε α) :
    (perform o h).performed env = [o] := by
  show o :: (ofExcept (h (env o))).performed env = [o]
  rw [performed_ofExcept]

@[simp] theorem returned_perform (o : Op) (h : Ans o → Except ε α) :
    (perform o h).returned env = h (env o) :=
  returned_ofExcept _

@[simp] theorem performed_ask (o : Op) : (ask o : Prog Ans ε _).performed env = [o] := rfl

@[simp] theorem returned_ask (o : Op) : (ask o : Prog Ans ε _).returned env = .ok (env o) := rfl

@[simp] theorem performed_attempt : p.attempt.performed env = p.performed env := by
  induction p with
  | ret | raise => rfl
  | step o k ih => exact congrArg (o :: ·) (ih (env o))

@[simp] theorem returned_attempt : p.attempt.returned env = .ok (p.returned env) := by
  induction p with
  | ret | raise => rfl
  | step o k ih => exact ih (env o)

/-- What is performed after a first part. -/
def performedAfter (env : Environment Ans) (f : α → Prog Ans ε β) : Except ε α → List Op
  | .ok a => (f a).performed env
  | .error _ => []

/-- How a program ends after a first part. -/
def returnedAfter (env : Environment Ans) (f : α → Prog Ans ε β) : Except ε α → Except ε β
  | .ok a => (f a).returned env
  | .error e => .error e

variable {f : α → Prog Ans ε β}

@[simp] theorem performedAfter_ok (a : α) :
    performedAfter env f (.ok a) = (f a).performed env := rfl

@[simp] theorem performedAfter_error (e : ε) : performedAfter env f (.error e) = [] := rfl

@[simp] theorem returnedAfter_ok (a : α) :
    returnedAfter env f (.ok a) = (f a).returned env := rfl

@[simp] theorem returnedAfter_error (e : ε) : returnedAfter env f (.error e) = .error e := rfl

/-- The rule of sequencing for operations. -/
theorem performed_bind : (p >>= f).performed env =
    p.performed env ++ performedAfter env f (p.returned env) := by
  induction p with
  | ret | raise => rfl
  | step o k ih => exact congrArg (o :: ·) (ih (env o))

/-- The rule of sequencing for endings. -/
theorem returned_bind : (p >>= f).returned env = returnedAfter env f (p.returned env) := by
  induction p with
  | ret | raise => rfl
  | step o k ih => exact ih (env o)

end Prog

end Effect
