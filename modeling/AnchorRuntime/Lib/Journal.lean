import AnchorRuntime.Lib.Effect

/-!
# Programs and journals

A program all of whose operations are answered in one type can be fed a journal: the first answer
goes to its first operation, and so on. Which operation comes next depends on the answers so
far, so a journal determines what a program has done and where it is.

Results: `feed_append`, a program that has been fed goes on as the rest of it; `ended_fed`, of the
journals a program can be fed the one it has ended with is the longest; `asked_of_next`, the
operations it has performed.
-/

namespace Effect.Prog

variable {Op A ε α : Type} {p q : Prog (fun _ : Op => A) ε α} {as bs : List A}

/-- The rest of a program that has been fed a journal; none when it has ended before. -/
def feed : Prog (fun _ : Op => A) ε α → List A → Option (Prog (fun _ : Op => A) ε α)
  | p, [] => some p
  | .step _ k, a :: as => (k a).feed as
  | .ret _, _ :: _ | .raise _, _ :: _ => none

@[simp] theorem feed_nil (p : Prog (fun _ : Op => A) ε α) : p.feed [] = some p := by
  cases p <;> rfl

@[simp] theorem feed_step (o : Op) (k : A → Prog (fun _ : Op => A) ε α) (a : A) (as : List A) :
    (step o k : Prog (fun _ : Op => A) ε α).feed (a :: as) = (k a).feed as := rfl

/-- A program that has raised does not return. -/
theorem raise_feed (e : ε) (as : List A) (a : α) :
    (raise e : Prog (fun _ : Op => A) ε α).feed as ≠ some (.ret a) := by
  cases as <;> simp [feed]

theorem feed_append (p : Prog (fun _ : Op => A) ε α) (as bs : List A) :
    p.feed (as ++ bs) = (p.feed as).bind fun q => q.feed bs := by
  induction as generalizing p with
  | nil => simp
  | cons a as ih =>
    cases p with
    | ret | raise => rfl
    | step o k => exact ih (k a)

/-- A program that has ended can be fed no more. -/
theorem ended_fed {a : α} (ended : p.feed as = some (.ret a)) (more : as <+: bs)
    (fed : p.feed bs = some q) : bs = as := by
  obtain ⟨cs, rfl⟩ := more
  rw [feed_append, ended] at fed
  cases cs with
  | nil => exact List.append_nil as
  | cons c cs => cases fed

/-- The operations that the answers of a journal are for. -/
def asked : Prog (fun _ : Op => A) ε α → List A → List Op
  | .step o k, a :: as => o :: (k a).asked as
  | _, _ => []

/-- A list of operations, each the one the program has come to, is the list of them all. -/
theorem asked_of_next {ops : List Op} (length : as.length = ops.length)
    (each : ∀ (i : Nat) (o : Op), ops[i]? = some o → (p.feed (as.take i)).bind next = some o) :
    p.asked as = ops := by
  induction ops generalizing as p with
  | nil =>
    obtain rfl := List.eq_nil_of_length_eq_zero length
    cases p <;> rfl
  | cons o ops ih =>
    cases as with
    | nil => cases length
    | cons a as =>
      have first := each 0 o rfl
      cases p with
      | ret | raise => cases first
      | step o' k =>
        obtain rfl := Option.some.inj first
        rw [asked, ih (Nat.succ.inj length) fun i o ho => each (i + 1) o ho]

end Effect.Prog
