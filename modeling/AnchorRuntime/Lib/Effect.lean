import Mathlib

/-!
# Programs over operations, and protocols

A program is a tree: it returns, raises, or performs an operation and goes on with the
answer. Code that awaits something between any two lines is such a tree, and a thread is
one that has got as far as its next operation. Nothing here says what an operation does.

A `Protocol` says which operations a program may perform, in terms of a ghost state that
each answer moves. `Obeys` is the Hoare judgement of that: started in a ghost state the
program performs only allowed operations, whatever the answers, and ends in a ghost state
and a result that meet the postcondition. A protocol is thus a state machine, and `Obeys`
says that the program refines it.

Results: `obeys_bind`, `obeys_attempt` and `obeys_perform` compute the judgement along the
program text, `Obeys.mono` weakens the postcondition, and `obeys_step` is what one step of
a thread preserves.
-/

namespace Effect

/-! ## Programs -/

/-- A program over operations `Op`, each answered in its type `Ans`, that raises errors
`ε` and returns `α`. -/
inductive Prog {Op : Type} (Ans : Op → Type) (ε α : Type) : Type
  | ret (a : α) : Prog Ans ε α
  | raise (e : ε) : Prog Ans ε α
  | step (o : Op) (k : Ans o → Prog Ans ε α) : Prog Ans ε α

namespace Prog

variable {Op : Type} {Ans : Op → Type} {ε α β : Type}

/-- Sequencing; an error skips the rest. -/
def bind : Prog Ans ε α → (α → Prog Ans ε β) → Prog Ans ε β
  | .ret a, f => f a
  | .raise e, _ => .raise e
  | .step o k, f => .step o fun r => (k r).bind f

instance : Monad (Prog Ans ε) where
  pure := .ret
  bind := bind

/-- Run a program and hand its ending on as a value: the `try` of the source. -/
def attempt : Prog Ans ε α → Prog Ans ε (Except ε α)
  | .ret a => .ret (.ok a)
  | .raise e => .ret (.error e)
  | .step o k => .step o fun r => (k r).attempt

/-- An ending as a program. -/
def ofExcept : Except ε α → Prog Ans ε α
  | .ok a => .ret a
  | .error e => .raise e

/-- Perform one operation and read its answer as an ending. -/
def perform (o : Op) (h : Ans o → Except ε α) : Prog Ans ε α :=
  .step o fun r => ofExcept (h r)

/-- Perform one operation that cannot raise. -/
def ask (o : Op) : Prog Ans ε (Ans o) :=
  .step o .ret

/-- How the program has ended, if it has. -/
def ending : Prog Ans ε α → Option (Except ε α)
  | .ret a => some (.ok a)
  | .raise e => some (.error e)
  | .step _ _ => none

/-- The operation the program waits for. -/
def next : Prog Ans ε α → Option Op
  | .step o _ => some o
  | _ => none

@[simp] theorem ending_ret (a : α) : (ret a : Prog Ans ε α).ending = some (.ok a) := rfl

@[simp] theorem ending_raise (e : ε) : (raise e : Prog Ans ε α).ending = some (.error e) := rfl

@[simp] theorem ending_step (o : Op) (k : Ans o → Prog Ans ε α) : (step o k).ending = none := rfl

@[simp] theorem next_step (o : Op) (k : Ans o → Prog Ans ε α) : (step o k).next = some o := rfl

@[simp] theorem raise_bind (e : ε) (f : α → Prog Ans ε β) :
    ((raise e : Prog Ans ε α) >>= f) = raise e := rfl

end Prog

/-! ## Protocols -/

/-- Which operations may be performed in which ghost state, and where each answer leads. -/
structure Protocol {Op : Type} (Ans : Op → Type) (σ : Type) where
  allowed : σ → Op → Prop
  next : σ → (o : Op) → Ans o → σ

variable {Op : Type} {Ans : Op → Type} {σ ε α β : Type} {P : Protocol Ans σ}

/-- `Obeys P s p Q`: started in ghost state `s`, the program `p` performs only allowed
operations and ends with `Q`. -/
def Obeys (P : Protocol Ans σ) : σ → Prog Ans ε α → (σ → Except ε α → Prop) → Prop
  | s, .ret a, Q => Q s (.ok a)
  | s, .raise e, Q => Q s (.error e)
  | s, .step o k, Q => P.allowed s o ∧ ∀ r, Obeys P (P.next s o r) (k r) Q

@[simp] theorem obeys_ret {s : σ} {a : α} {Q : σ → Except ε α → Prop} :
    Obeys P s (.ret a) Q ↔ Q s (.ok a) := Iff.rfl

@[simp] theorem obeys_pure {s : σ} {a : α} {Q : σ → Except ε α → Prop} :
    Obeys P s (pure a) Q ↔ Q s (.ok a) := Iff.rfl

@[simp] theorem obeys_raise {s : σ} {e : ε} {Q : σ → Except ε α → Prop} :
    Obeys P s (.raise e) Q ↔ Q s (.error e) := Iff.rfl

theorem obeys_step {s : σ} {o : Op} {k : Ans o → Prog Ans ε α}
    {Q : σ → Except ε α → Prop} :
    Obeys P s (.step o k) Q ↔
      P.allowed s o ∧ ∀ r, Obeys P (P.next s o r) (k r) Q := Iff.rfl

@[simp] theorem obeys_ofExcept {s : σ} {r : Except ε α} {Q : σ → Except ε α → Prop} :
    Obeys P s (.ofExcept r) Q ↔ Q s r := by
  cases r <;> exact Iff.rfl

@[simp] theorem obeys_perform {s : σ} {o : Op} {h : Ans o → Except ε α}
    {Q : σ → Except ε α → Prop} :
    Obeys P s (.perform o h) Q ↔ P.allowed s o ∧ ∀ r, Q (P.next s o r) (h r) := by
  simp only [Prog.perform, obeys_step, obeys_ofExcept]

@[simp] theorem obeys_ask {s : σ} {o : Op} {Q : σ → Except ε (Ans o) → Prop} :
    Obeys P s (.ask o) Q ↔ P.allowed s o ∧ ∀ r, Q (P.next s o r) (.ok r) := Iff.rfl

/-- What is required after a first part, given what is required at the end. -/
def Then (P : Protocol Ans σ) (f : α → Prog Ans ε β) (Q : σ → Except ε β → Prop)
    (s : σ) : Except ε α → Prop
  | .ok a => Obeys P s (f a) Q
  | .error e => Q s (.error e)

@[simp] theorem then_ok {f : α → Prog Ans ε β} {Q : σ → Except ε β → Prop} {s : σ}
    {a : α} : Then P f Q s (.ok a) ↔ Obeys P s (f a) Q := Iff.rfl

@[simp] theorem then_error {f : α → Prog Ans ε β} {Q : σ → Except ε β → Prop}
    {s : σ} {e : ε} : Then P f Q s (.error e) ↔ Q s (.error e) := Iff.rfl

/-- The rule of sequencing, in both directions. -/
@[simp] theorem obeys_bind {s : σ} {p : Prog Ans ε α} {f : α → Prog Ans ε β}
    {Q : σ → Except ε β → Prop} : Obeys P s (p >>= f) Q ↔ Obeys P s p (Then P f Q) := by
  induction p generalizing s with
  | ret a => exact Iff.rfl
  | raise e => exact Iff.rfl
  | step o k ih =>
    exact and_congr_right fun _ => forall_congr' fun r => ih r

/-- The rule of `try`. -/
@[simp] theorem obeys_attempt {s : σ} {p : Prog Ans ε α}
    {Q : σ → Except ε (Except ε α) → Prop} :
    Obeys P s p.attempt Q ↔ Obeys P s p fun s' r => Q s' (.ok r) := by
  induction p generalizing s with
  | ret a => exact Iff.rfl
  | raise e => exact Iff.rfl
  | step o k ih =>
    exact and_congr_right fun _ => forall_congr' fun r => ih r

/-- The rule of consequence. -/
theorem Obeys.mono {s : σ} {p : Prog Ans ε α} {Q R : σ → Except ε α → Prop}
    (h : Obeys P s p Q) (imp : ∀ s r, Q s r → R s r) : Obeys P s p R := by
  induction p generalizing s with
  | ret a => exact imp _ _ h
  | raise e => exact imp _ _ h
  | step o k ih => exact ⟨h.1, fun r => ih r (h.2 r)⟩

/-- A program that obeys its protocol ends, for every way to answer it; and what the answers keep
holds then. -/
theorem Obeys.answered {s : σ} {p : Prog Ans ε α} {Q : σ → Except ε α → Prop} {kept : σ → Prop}
    (answer : σ → (o : Op) → Ans o)
    (keeps : ∀ s o, kept s → P.allowed s o → kept (P.next s o (answer s o)))
    (h : Obeys P s p Q) (hs : kept s) : ∃ s' r, kept s' ∧ Q s' r := by
  induction p generalizing s with
  | ret a => exact ⟨s, _, hs, h⟩
  | raise e => exact ⟨s, _, hs, h⟩
  | step o k ih => exact ih _ (h.2 _) (keeps s o hs h.1)

end Effect
