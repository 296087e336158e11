import AnchorRuntime.Models
import AnchorRuntime.Lib.Assoc

/-!
# Calling user functions

`_invoke` passes a function what it declares: the context and the token it asks for, and of the
arguments those it has a parameter for. `Signature.call` is how Python binds the keywords of a
call, with the `TypeError`s it raises for them.

Results: `binding_safe`, the arguments a model chooses for a tool bind as they should if and only
if none of them is called as something that is injected, or the tool takes `**kwargs`;
`binding_clash`, a tool that declares `token` is not called when the model says `token`.
-/

namespace AnchorRuntime

/-! ## Signatures -/

/-- `inspect.Parameter.kind` -/
inductive ParameterKind
  | positionalOnly
  | positionalOrKeyword
  | varPositional
  | keywordOnly
  | varKeyword
  deriving DecidableEq

/-- `inspect.Parameter`, and whether it has a default. -/
structure Parameter where
  name : String
  kind : ParameterKind
  default : Bool

/-- A keyword can bind the parameter. -/
def Parameter.keyword (p : Parameter) : Bool :=
  p.kind = .positionalOrKeyword || p.kind = .keywordOnly

/-- A call must bind the parameter. -/
def Parameter.required (p : Parameter) : Bool :=
  (p.keyword || p.kind = .positionalOnly) && !p.default

/-- `inspect.signature(fn).parameters` -/
structure Signature where
  params : List Parameter
  nodup : (params.map (·.name)).Nodup

namespace Signature

/-- `name in params` -/
def declares (sig : Signature) (name : String) : Bool := sig.params.any fun p => p.name = name

/-- A parameter of that name that a keyword can bind. -/
def keyword (sig : Signature) (name : String) : Bool :=
  sig.params.any fun p => p.name = name && p.keyword

/-- `accepts_var_kwargs` -/
def acceptsVarKwargs (sig : Signature) : Bool := sig.params.any fun p => p.kind = .varKeyword

end Signature

/-! ## Calls -/

/-- What a parameter can be given: the context, the token of the step, or an argument. -/
inductive Supplied
  | none
  | ctx
  | token (token : Uuid)
  | json (v : Value)

/-- The keywords of a call. -/
abbrev Keywords := List (String × Supplied)

/-- The parameters of a call that do not take their default, and what `**kwargs` collects. -/
structure Binding where
  bound : Keywords
  kwargs : Keywords

def bindingError (message : String) : Exn := .exception "TypeError" message

/-- `**first, **second` in a call: no key may be in both. -/
def mergeKeywords (first second : Keywords) : Except Exn Keywords :=
  match second.find? fun e => (first.lookup e.1).isSome with
  | some (name, _) =>
    .error (bindingError s!"got multiple values for keyword argument {pyRepr name}")
  | none => .ok (first ++ second)

/-- `fn(**keywords)`, as far as the body of `fn`. -/
def Signature.call (sig : Signature) (keywords : Keywords) : Except Exn Binding :=
  let bound := keywords.filter fun e => sig.keyword e.1
  let kwargs := keywords.filter fun e => !sig.keyword e.1
  if !kwargs.isEmpty && !sig.acceptsVarKwargs then
    .error (bindingError "got an unexpected keyword argument")
  else
    match sig.params.find? fun p => p.required && (bound.lookup p.name).isNone with
    | some p => .error (bindingError s!"missing a required argument: {pyRepr p.name}")
    | none => .ok ⟨bound, kwargs⟩

/-- `injected` of `_invoke` -/
def injected (sig : Signature) (token : Supplied) : Keywords :=
  (if sig.declares "ctx" then [("ctx", .ctx)] else []) ++
    if sig.declares "token" || sig.acceptsVarKwargs then [("token", token)] else []

/-- `passed` of `_invoke` -/
def passed (sig : Signature) (token : Supplied) (arguments : Keywords) : Keywords :=
  if sig.acceptsVarKwargs then
    arguments.filter fun e => ((injected sig token).lookup e.1).isNone
  else arguments.filter fun e => sig.declares e.1

/-- `_invoke`, as far as the body of `fn`. -/
def invokeArguments (sig : Signature) (token : Supplied) (arguments : Keywords) :
    Except Exn Binding := do
  let keywords ← mergeKeywords (injected sig token) (passed sig token arguments)
  sig.call keywords

/-- The closures of `call_tool` are declared `(**passthrough)`. -/
def passthrough : Signature := ⟨[⟨"passthrough", .varKeyword, false⟩], by decide⟩

/-- `call_tool`, from `_step_with_key` to the body of the tool's function: the closure is
invoked with the token and without arguments, and invokes the function with the token it got. -/
def callToolArguments (sig : Signature) (token : Uuid)
    (arguments : Option (List (String × Value))) : Except Exn Binding := do
  let args : Keywords := (arguments.getD []).map fun e => (e.1, .json e.2)
  let closure ← invokeArguments passthrough (.token token) []
  invokeArguments sig ((closure.kwargs.lookup "token").getD .none) args

/-! ## What a tool is to be given -/

/-- All parameters can be bound by keyword, up to `**kwargs`. -/
def Signature.named (sig : Signature) : Bool :=
  sig.params.all fun p => p.keyword || p.kind = .varKeyword

/-- The arguments have a value for each required parameter other than `ctx` and `token`. -/
def Signature.suppliedBy (sig : Signature) (arguments : List (String × Value)) : Bool :=
  sig.params.all fun p =>
    !p.required || p.name = "ctx" || p.name = "token" || (arguments.lookup p.name).isSome

/-- The function is called with the context and the token of the step where it declares them, with
the model's values for its other parameters, and with nothing else unless it takes `**kwargs`. -/
def bindsSafely (sig : Signature) (token : Uuid) (arguments : List (String × Value)) : Prop :=
  ∃ b, callToolArguments sig token (some arguments) = .ok b ∧
    (sig.keyword "ctx" = true → b.bound.lookup "ctx" = some .ctx) ∧
    (sig.keyword "token" = true → b.bound.lookup "token" = some (.token token)) ∧
    (∀ name v, name ≠ "ctx" → name ≠ "token" → sig.keyword name = true →
      arguments.lookup name = some v → b.bound.lookup name = some (.json v)) ∧
    (∀ name, sig.keyword name = false → b.bound.lookup name = none) ∧
    (sig.acceptsVarKwargs = false → b.kwargs = []) ∧
    (sig.acceptsVarKwargs = true → ∀ name v, name ≠ "ctx" → name ≠ "token" →
      sig.keyword name = false → arguments.lookup name = some v →
        b.kwargs.lookup name = some (.json v))

/-- None of the arguments is called as something that is injected, or the function takes
`**kwargs`. -/
def Signature.clashless (sig : Signature) (arguments : List (String × Value)) : Bool :=
  sig.acceptsVarKwargs || ["ctx", "token"].all fun name =>
    !sig.declares name || (arguments.lookup name).isNone

namespace InvokeLemmas

variable {sig : Signature} {token : Uuid} {t : Supplied} {arguments : List (String × Value)}
  {first second keywords : Keywords} {name : String}

/-- The closure hands the token on. -/
theorem callToolArguments_eq :
    callToolArguments sig token (some arguments) = invokeArguments sig (.token token)
      (arguments.map fun e => (e.1, .json e.2)) := rfl

theorem mergeKeywords_ok (apart : ∀ name, first.lookup name = none ∨ second.lookup name = none) :
    mergeKeywords first second = .ok (first ++ second) := by
  unfold mergeKeywords
  rw [List.find?_eq_none.mpr]
  intro e he both
  have there : (second.lookup e.1).isSome = true :=
    Assoc.mem_keys_iff.mp (List.mem_map_of_mem he)
  rcases apart e.1 with none | none
  · rw [none] at both
    cases both
  · rw [none] at there
    cases there

theorem mergeKeywords_error (one : (first.lookup name).isSome = true)
    (two : (second.lookup name).isSome = true) :
    ∃ exc, mergeKeywords first second = .error exc := by
  obtain ⟨e, he, rfl⟩ := List.mem_map.mp (Assoc.mem_keys_iff.mpr two)
  unfold mergeKeywords
  cases h : second.find? fun e => (first.lookup e.1).isSome with
  | some e => exact ⟨_, rfl⟩
  | none => exact absurd one (List.find?_eq_none.mp h e he)

theorem lookup_injected : (injected sig t).lookup name =
    if name = "ctx" then if sig.declares "ctx" then some .ctx else none
    else if name = "token" then
      if sig.declares "token" || sig.acceptsVarKwargs then some t else none
    else none := by
  unfold injected
  rw [List.lookup_append]
  by_cases ctx : name = "ctx"
  · subst ctx
    split <;> split <;> simp
  · by_cases tok : name = "token"
    · subst tok
      split <;> split <;> simp [List.lookup_cons]
    · split <;> split <;> simp [ctx, tok]

theorem declares_of_keyword (h : sig.keyword name = true) : sig.declares name = true := by
  obtain ⟨p, hp, is⟩ := List.any_eq_true.mp h
  exact List.any_eq_true.mpr ⟨p, hp, (Bool.and_eq_true _ _ ▸ is).1⟩

/-- Without `**kwargs`, a declared name is that of a parameter a keyword can bind. -/
theorem keyword_of_declares (named : sig.named = true) (closed : sig.acceptsVarKwargs = false)
    (h : sig.declares name = true) : sig.keyword name = true := by
  obtain ⟨p, hp, is⟩ := List.any_eq_true.mp h
  refine List.any_eq_true.mpr ⟨p, hp, ?_⟩
  have kinds := List.all_eq_true.mp named p hp
  have other := List.any_eq_false.mp closed p hp
  simp only [Bool.or_eq_true, decide_eq_true_eq] at kinds other
  rw [is, kinds.resolve_right other]
  rfl

/-- A call binds what it is given when nothing is left over and nothing is missing. -/
theorem call_ok (fits : sig.acceptsVarKwargs = true ∨ ∀ e ∈ keywords, sig.keyword e.1 = true)
    (full : ∀ p ∈ sig.params, p.required = true → p.keyword = true ∧
      (keywords.lookup p.name).isSome = true) :
    sig.call keywords = .ok ⟨keywords.filter fun e => sig.keyword e.1,
      keywords.filter fun e => !sig.keyword e.1⟩ := by
  unfold Signature.call
  have none_left : (!(keywords.filter fun e => !sig.keyword e.1).isEmpty &&
      !sig.acceptsVarKwargs) = false := by
    rcases fits with var | all
    · simp [var]
    · have empty : (keywords.filter fun e => !sig.keyword e.1) = [] :=
        List.filter_eq_nil_iff.mpr fun e he => by simp [all e he]
      simp [empty]
  have none_missing : (sig.params.find? fun p => p.required &&
      ((keywords.filter fun e => sig.keyword e.1).lookup p.name).isNone) = none := by
    refine List.find?_eq_none.mpr fun p hp missing => ?_
    obtain ⟨required, absent⟩ := Bool.and_eq_true _ _ ▸ missing
    obtain ⟨byKeyword, there⟩ := full p hp required
    have known : sig.keyword p.name = true :=
      List.any_eq_true.mpr ⟨p, hp, by simp [byKeyword]⟩
    rw [Assoc.lookup_filter, known, if_pos rfl, Option.isNone_iff_eq_none] at absent
    rw [absent] at there
    cases there
  simp only [none_left, none_missing, Bool.false_eq_true, if_false]

/-- What the function is passed besides what is injected. -/
theorem lookup_passed {args : Keywords} : (passed sig t args).lookup name =
    if sig.acceptsVarKwargs then
      if ((injected sig t).lookup name).isNone then args.lookup name else none
    else if sig.declares name then args.lookup name else none := by
  unfold passed
  split
  · exact Assoc.lookup_filter (fun name => ((injected sig t).lookup name).isNone) args name
  · exact Assoc.lookup_filter sig.declares args name

theorem keyword_of_required (named : sig.named = true) {p : Parameter} (hp : p ∈ sig.params)
    (required : p.required = true) : p.keyword = true := by
  have kinds := List.all_eq_true.mp named p hp
  simp only [Parameter.required, Bool.and_eq_true, Bool.or_eq_true, decide_eq_true_eq]
    at kinds required
  rcases kinds with keyword | var
  · exact keyword
  · rcases required.1 with keyword | only
    · exact keyword
    · cases var.symm.trans only

section Clashless

variable {args : Keywords} (clashless : sig.acceptsVarKwargs = true ∨
  ∀ name, name = "ctx" ∨ name = "token" → sig.declares name = true → args.lookup name = none)

include clashless

/-- Nothing is both injected and passed. -/
theorem passed_apart (name : String) :
    (injected sig t).lookup name = none ∨ (passed sig t args).lookup name = none := by
  rw [lookup_passed]
  cases var : sig.acceptsVarKwargs with
  | true => cases (injected sig t).lookup name <;> simp
  | false =>
    have absent := clashless.resolve_left (by simp [var])
    cases declared : sig.declares name with
    | false => exact .inr (by simp)
    | true =>
      by_cases inj : name = "ctx" ∨ name = "token"
      · exact .inr (by simp [absent name inj declared])
      · obtain ⟨ctx, tok⟩ := not_or.mp inj
        exact .inl (by simp [lookup_injected, ctx, tok])

/-- `_invoke` calls the function with what it injects and with what it passes. -/
theorem invokeArguments_ok (named : sig.named = true)
    (supplied : ∀ p ∈ sig.params, p.required = true → p.name = "ctx" ∨ p.name = "token" ∨
      (args.lookup p.name).isSome = true) :
    ∃ b, invokeArguments sig t args = .ok b ∧
      (∀ name, b.bound.lookup name = if sig.keyword name then
        ((injected sig t).lookup name).or ((passed sig t args).lookup name) else none) ∧
      (∀ name, b.kwargs.lookup name = if sig.keyword name then none else
        ((injected sig t).lookup name).or ((passed sig t args).lookup name)) ∧
      (sig.acceptsVarKwargs = false → b.kwargs = []) := by
  set keywords := injected sig t ++ passed sig t args with hkeywords
  have merged : mergeKeywords (injected sig t) (passed sig t args) = .ok keywords :=
    mergeKeywords_ok (passed_apart clashless)
  have fits : sig.acceptsVarKwargs = true ∨ ∀ e ∈ keywords, sig.keyword e.1 = true := by
    cases var : sig.acceptsVarKwargs with
    | true => exact .inl rfl
    | false =>
      refine .inr fun e he => keyword_of_declares named var ?_
      rcases List.mem_append.mp he with inj | pas
      · have there := Assoc.mem_keys_iff.mp (List.mem_map_of_mem (f := (·.1)) inj)
        rw [lookup_injected] at there
        by_contra undeclared
        rw [Bool.not_eq_true] at undeclared
        split at there
        · next is => simp [← is, undeclared] at there
        · split at there
          · next is => simp [← is, undeclared, var] at there
          · cases there
      · simp only [passed, var] at pas
        exact (List.mem_filter.mp pas).2
  have full : ∀ p ∈ sig.params, p.required = true → p.keyword = true ∧
      (keywords.lookup p.name).isSome = true := by
    intro p hp required
    have keyword := keyword_of_required named hp required
    have declared : sig.declares p.name = true :=
      List.any_eq_true.mpr ⟨p, hp, by simp⟩
    refine ⟨keyword, ?_⟩
    rw [hkeywords, List.lookup_append, lookup_injected, lookup_passed, lookup_injected]
    by_cases ctx : p.name = "ctx"
    · rw [ctx] at declared
      simp [ctx, declared]
    · by_cases tok : p.name = "token"
      · rw [tok] at declared
        simp [tok, declared]
      · have there := ((supplied p hp required).resolve_left ctx).resolve_left tok
        simp [ctx, tok, declared, there]
  refine ⟨_, by rw [invokeArguments, merged]; exact call_ok fits full, ?_, ?_, ?_⟩
  · intro name
    rw [Assoc.lookup_filter, hkeywords, List.lookup_append]
  · intro name
    rw [Assoc.lookup_filter (fun name => !sig.keyword name), hkeywords, List.lookup_append]
    cases sig.keyword name <;> simp
  · intro closed
    have all := fits.resolve_left (by simp [closed])
    exact List.filter_eq_nil_iff.mpr fun e he => by simp [all e he]

end Clashless

end InvokeLemmas

open InvokeLemmas

/-- Argument binding is safe for the arguments a model chooses if and only if none of them is
called as something that is injected, or the tool takes `**kwargs`. -/
theorem binding_safe (sig : Signature) (token : Uuid) (arguments : List (String × Value))
    (named : sig.named = true) (supplied : sig.suppliedBy arguments = true) :
    bindsSafely sig token arguments ↔ sig.clashless arguments = true := by
  set args : Keywords := arguments.map fun e => (e.1, .json e.2) with hargs
  have lookup_args : ∀ name, args.lookup name = (arguments.lookup name).map .json :=
    fun name => Assoc.lookup_map Supplied.json arguments name
  constructor
  · rintro ⟨b, called, -⟩
    rw [callToolArguments_eq, ← hargs] at called
    simp only [Signature.clashless, Bool.or_eq_true]
    by_contra clash
    obtain ⟨closed, clash⟩ := not_or.mp clash
    rw [Bool.not_eq_true] at closed
    obtain ⟨name, mem, is⟩ : ∃ name ∈ ["ctx", "token"],
        ¬ (!sig.declares name || (arguments.lookup name).isNone) = true := by
      simpa only [List.all_eq_true, not_forall, exists_prop] using clash
    obtain ⟨declared, there⟩ :
        sig.declares name = true ∧ (arguments.lookup name).isSome = true := by
      simpa [Option.isSome_iff_ne_none] using is
    -- the name is injected and passed
    have one : ((injected sig (.token token)).lookup name).isSome = true := by
      rw [lookup_injected]
      rcases List.mem_pair.mp mem with rfl | rfl <;> simp [declared]
    have two : ((passed sig (.token token) args).lookup name).isSome = true := by
      simp only [lookup_passed, closed, declared, lookup_args, Option.isSome_map, there,
        Bool.false_eq_true, if_false, if_true]
    obtain ⟨exc, raised⟩ := mergeKeywords_error one two
    rw [invokeArguments, raised] at called
    cases called
  · intro clashless
    have apart : sig.acceptsVarKwargs = true ∨ ∀ name, name = "ctx" ∨ name = "token" →
        sig.declares name = true → args.lookup name = none := by
      refine (Bool.or_eq_true _ _ ▸ clashless).imp_right fun absent name inj declared => ?_
      have none := List.all_eq_true.mp absent name (by rcases inj with rfl | rfl <;> simp)
      simpa [declared, lookup_args] using none
    have full : ∀ p ∈ sig.params, p.required = true → p.name = "ctx" ∨ p.name = "token" ∨
        (args.lookup p.name).isSome = true := by
      intro p hp required
      have there := List.all_eq_true.mp supplied p hp
      simpa [required, or_assoc, lookup_args] using there
    obtain ⟨b, called, bound, kwargs, closed⟩ :=
      invokeArguments_ok (t := .token token) apart named full
    refine ⟨b, by rw [callToolArguments_eq, ← hargs, called], ?_, ?_, ?_, ?_, closed, ?_⟩
    · intro ctx
      simp [bound, ctx, lookup_injected, declares_of_keyword ctx]
    · intro tok
      simp [bound, tok, lookup_injected, declares_of_keyword tok]
    · intro name v ctx tok keyword is
      simp [bound, keyword, lookup_passed, lookup_injected, ctx, tok, lookup_args, is,
        declares_of_keyword keyword]
    · intro name other
      simp [bound, other]
    · intro var name v ctx tok other is
      simp [kwargs, other, lookup_passed, lookup_injected, ctx, tok, lookup_args, is, var]

/-- `def refund(token, payment_id)` -/
def Sample.refund : Signature :=
  ⟨[⟨"token", .positionalOrKeyword, false⟩, ⟨"payment_id", .positionalOrKeyword, false⟩], by decide⟩

theorem binding_safe_refund : bindsSafely Sample.refund ⟨7⟩ [("payment_id", .str "p")] ↔
    Sample.refund.clashless [("payment_id", .str "p")] = true :=
  binding_safe Sample.refund ⟨7⟩ [("payment_id", .str "p")] (by decide) (by decide)

/-- A tool that declares `token` is not called when the model says `token`. -/
theorem binding_clash :
    Sample.refund.named = true ∧
    Sample.refund.suppliedBy [("payment_id", .str "p"), ("token", .str "t")] = true ∧
    callToolArguments Sample.refund ⟨7⟩ (some [("payment_id", .str "p"), ("token", .str "t")]) =
      .error (bindingError "got multiple values for keyword argument 'token'") ∧
    ¬ bindsSafely Sample.refund ⟨7⟩ [("payment_id", .str "p"), ("token", .str "t")] := by
  have raised : callToolArguments Sample.refund ⟨7⟩
      (some [("payment_id", .str "p"), ("token", .str "t")]) =
      .error (bindingError "got multiple values for keyword argument 'token'") := rfl
  refine ⟨by decide, by decide, raised, ?_⟩
  rintro ⟨b, called, -⟩
  cases raised.symm.trans called

end AnchorRuntime
