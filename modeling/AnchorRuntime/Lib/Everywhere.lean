import AnchorRuntime.Lib.Effect

/-!
# What holds of every operation of a program

`Everywhere P p`: wherever the program `p` gets, the operation it performs next meets `P`. It is
a protocol without a state, and composes without postconditions.

Results: `everywhere_bind` and its companions compute the property along the program text.
-/

namespace Effect

variable {Op : Type} {Ans : Op → Type} {ε α β : Type} {P : Op → Prop}

def Everywhere (P : Op → Prop) : Prog Ans ε α → Prop
  | .ret _ | .raise _ => True
  | .step o k => P o ∧ ∀ r, Everywhere P (k r)

theorem everywhere_ret (a : α) : Everywhere P (pure a : Prog Ans ε α) := trivial

theorem everywhere_ofExcept (r : Except ε α) : Everywhere P (.ofExcept r : Prog Ans ε α) := by
  cases r <;> trivial

theorem everywhere_perform {o : Op} {h : Ans o → Except ε α} (ok : P o) :
    Everywhere P (.perform o h) :=
  ⟨ok, fun r => everywhere_ofExcept (h r)⟩

theorem everywhere_ask {o : Op} (ok : P o) : Everywhere P (.ask o : Prog Ans ε (Ans o)) :=
  ⟨ok, fun _ => trivial⟩

theorem everywhere_bind {p : Prog Ans ε α} {f : α → Prog Ans ε β} (first : Everywhere P p)
    (rest : ∀ a, Everywhere P (f a)) : Everywhere P (p >>= f) := by
  induction p with
  | ret a => exact rest a
  | raise e => trivial
  | step o k ih => exact ⟨first.1, fun r => ih r (first.2 r)⟩

theorem everywhere_attempt {p : Prog Ans ε α} (h : Everywhere P p) : Everywhere P p.attempt := by
  induction p with
  | ret a => trivial
  | raise e => trivial
  | step o k ih => exact ⟨h.1, fun r => ih r (h.2 r)⟩

end Effect
