import Mathlib

/-!
# Runs of state machines

A state machine is a function `step : σ → ε → σ`.  A run is a list of events; `Steps ok`
says that every event meets a condition in the state it happens in.

* `run_invariant`: what holds at the start and is kept by every admissible step holds at the
  end, and so in every state reached, since a beginning of an admissible run is one
  (`Steps.of_append`).
* `runPartial`: the same for a machine that may stop, `step : σ → ε → Option σ`
  (`runPartial_invariant`).
* `foldlM_rule`, `foldlM_cases`: a loop that may end with an error, `step : σ → ε → Except δ σ`,
  with an invariant over what it has gone through.
* `Lasts`: a property that some events establish and others end, at the end of a run.
* `stepAt`: the product of machines, where one component moves at a time, with the same
  rule for an invariant of each component (`runAt_invariant`); a component sees its own
  events only (`run_stepAt_apply`).
-/

namespace Benzene.Run

variable {σ ε ι : Type*}

/-- The state after a list of events. -/
def run (step : σ → ε → σ) (s : σ) (es : List ε) : σ := es.foldl step s

/-- Every event meets `ok` in the state it happens in. -/
def Steps (step : σ → ε → σ) (ok : σ → ε → Prop) : σ → List ε → Prop
  | _, [] => True
  | s, e :: es => ok s e ∧ Steps step ok (step s e) es

variable {step : σ → ε → σ} {ok : σ → ε → Prop}

instance Steps.decidable [∀ s e, Decidable (ok s e)] :
    ∀ (s : σ) (es : List ε), Decidable (Steps step ok s es)
  | _, [] => inferInstanceAs (Decidable True)
  | s, e :: es =>
    have := Steps.decidable (step s e) es
    inferInstanceAs (Decidable (ok s e ∧ Steps step ok (step s e) es))

variable {s : σ} {es : List ε}

theorem Steps.of_append {es' : List ε} (h : Steps step ok s (es ++ es')) : Steps step ok s es := by
  induction es generalizing s with
  | nil => trivial
  | cons e es ih => exact ⟨h.1, ih h.2⟩

variable {ok' : σ → ε → Prop}

theorem Steps.mono (hok : ∀ s e, ok s e → ok' s e) (h : Steps step ok s es) :
    Steps step ok' s es := by
  induction es generalizing s with
  | nil => trivial
  | cons e es ih => exact ⟨hok s e h.1, ih h.2⟩

theorem Steps.congr (hok : ∀ s e, ok s e ↔ ok' s e) :
    Steps step ok s es ↔ Steps step ok' s es :=
  ⟨Steps.mono fun s e => (hok s e).1, Steps.mono fun s e => (hok s e).2⟩

theorem Steps.of_forall (h : ∀ e ∈ es, ∀ s, ok s e) : Steps step ok s es := by
  induction es generalizing s with
  | nil => trivial
  | cons e es ih =>
    exact ⟨h e List.mem_cons_self s, ih fun e' he' => h e' (List.mem_cons_of_mem _ he')⟩

theorem Steps.ok_at {es' : List ε} {e : ε} (h : Steps step ok s (es ++ e :: es')) :
    ok (run step s es) e := by
  induction es generalizing s with
  | nil => exact h.1
  | cons e' es ih => exact ih h.2

theorem Steps.of_prefix (h : ∀ pre e, pre ++ [e] <+: es → ok (run step s pre) e) :
    Steps step ok s es := by
  induction es generalizing s with
  | nil => trivial
  | cons e es ih =>
    refine ⟨h [] e (by simp), ih fun pre e' hpre => ?_⟩
    exact h (e :: pre) e' (List.prefix_cons_inj e |>.2 hpre)

theorem run_concat (s : σ) (es : List ε) (e : ε) :
    run step s (es ++ [e]) = step (run step s es) e := by
  simp [run]

theorem run_invariant (Inv : σ → Prop) (hstep : ∀ s e, Inv s → ok s e → Inv (step s e)) (h0 : Inv s)
    (hes : Steps step ok s es) : Inv (run step s es) := by
  induction es generalizing s with
  | nil => exact h0
  | cons e es ih => exact ih (hstep s e h0 hes.1) hes.2

/-! ## Machines that may stop -/

section Partial

variable {step : σ → ε → Option σ} {ok : σ → ε → Prop}

/-- The state after a list of events, if the machine does not stop on the way. -/
def runPartial (step : σ → ε → Option σ) (s : σ) (es : List ε) : Option σ := es.foldlM step s

/-- Every event meets `ok` in the state it happens in. -/
def StepsPartial (step : σ → ε → Option σ) (ok : σ → ε → Prop) : σ → List ε → Prop
  | _, [] => True
  | s, e :: es => ok s e ∧ ∀ s', step s e = some s' → StepsPartial step ok s' es

theorem runPartial_cons (s : σ) (e : ε) (es : List ε) :
    runPartial step s (e :: es) = (step s e).bind fun s' => runPartial step s' es := by
  simp [runPartial]

theorem runPartial_concat (s : σ) (es : List ε) (e : ε) :
    runPartial step s (es ++ [e]) = (runPartial step s es).bind fun s' => step s' e := by
  simp [runPartial, List.foldlM_append]

variable {es : List ε}

theorem StepsPartial.of_concat {s : σ} {e : ε} (h : StepsPartial step ok s (es ++ [e])) :
    StepsPartial step ok s es ∧ ∀ s', runPartial step s es = some s' → ok s' e := by
  induction es generalizing s with
  | nil => exact ⟨trivial, fun s' hs' => Option.some.inj hs' ▸ h.1⟩
  | cons e' es ih =>
    refine ⟨⟨h.1, fun s₁ hs₁ => (ih (h.2 s₁ hs₁)).1⟩, fun s' hs' => ?_⟩
    rw [runPartial_cons] at hs'
    obtain ⟨s₁, hs₁, hs'⟩ := Option.bind_eq_some_iff.1 hs'
    exact (ih (h.2 s₁ hs₁)).2 s' hs'

theorem StepsPartial.of_forall {s : σ} (h : ∀ e ∈ es, ∀ s, ok s e) :
    StepsPartial step ok s es := by
  induction es generalizing s with
  | nil => trivial
  | cons e es ih =>
    exact ⟨h e List.mem_cons_self s, fun s' _ => ih fun e' he' => h e' (List.mem_cons_of_mem _ he')⟩

theorem StepsPartial.and_forall {P : ε → Prop} {s : σ} (h : StepsPartial step ok s es)
    (hP : ∀ e ∈ es, P e) :
    StepsPartial step (fun s e => ok s e ∧ P e) s es := by
  induction es generalizing s with
  | nil => trivial
  | cons e es ih =>
    exact ⟨⟨h.1, hP e List.mem_cons_self⟩, fun s' hs' =>
      ih (h.2 s' hs') fun e' he' => hP e' (List.mem_cons_of_mem _ he')⟩

theorem runPartial_invariant (ok : σ → ε → Prop) (Inv : σ → Prop)
    (hstep : ∀ s e s', Inv s → ok s e → step s e = some s' → Inv s') {s s' : σ} (h0 : Inv s)
    (hes : StepsPartial step ok s es) (h : runPartial step s es = some s') :
    Inv s' := by
  induction es generalizing s with
  | nil => exact Option.some.inj h ▸ h0
  | cons e es ih =>
    rw [runPartial_cons] at h
    obtain ⟨s₁, hs₁, h⟩ := Option.bind_eq_some_iff.1 h
    exact ih (hstep s e s₁ h0 hes.1 hs₁) (hes.2 s₁ hs₁) h

end Partial

/-! ## Loops that may fail -/

section Fallible

universe u

theorem ok_of_bind {δ : Type*} {α β : Type u} {x : Except δ α} {f : α → Except δ β} {b : β}
    (h : x >>= f = .ok b) : ∃ a, x = .ok a ∧ f a = .ok b := by
  cases x with
  | error err => cases h
  | ok a => exact ⟨a, rfl, h⟩

variable {δ : Type*} {step : σ → ε → Except δ σ}

/-- What every step keeps holds at the end of a loop that returns. -/
theorem foldlM_rule (Inv : List ε → σ → Prop)
    (hstep : ∀ {done s e s'}, Inv done s → step s e = .ok s' → Inv (done ++ [e]) s')
    {done es : List ε} {s s' : σ} (h0 : Inv done s) (h : es.foldlM step s = .ok s') :
    Inv (done ++ es) s' := by
  induction es generalizing done s with
  | nil =>
    obtain rfl := Except.ok.inj h
    rwa [List.append_nil]
  | cons e es ih =>
    rw [List.foldlM_cons] at h
    obtain ⟨s₁, hs₁, h⟩ := ok_of_bind h
    rw [List.append_cons]
    exact ih (hstep h0 hs₁) h

/-- A loop whose steps fail for some elements, all with the same error, and return for the
    others. -/
theorem foldlM_cases (Inv : List ε → σ → Prop) (Fails : ε → Prop) (err : δ)
    {done es : List ε} {s : σ} (h0 : Inv done s)
    (hstep : ∀ {done' e rest s}, done' ++ e :: rest = done ++ es → Inv done' s →
      Fails e ∧ step s e = .error err ∨
        ¬ Fails e ∧ ∃ s', step s e = .ok s' ∧ Inv (done' ++ [e]) s') :
    (∃ e ∈ es, Fails e) ∧ es.foldlM step s = .error err ∨
      (∀ e ∈ es, ¬ Fails e) ∧ ∃ s', es.foldlM step s = .ok s' ∧ Inv (done ++ es) s' := by
  induction es generalizing done s with
  | nil =>
    refine Or.inr ⟨by simp, s, rfl, ?_⟩
    rwa [List.append_nil]
  | cons e es ih =>
    rcases hstep rfl h0 with ⟨hfails, heq⟩ | ⟨hok, s₁, heq, h1⟩
    · refine Or.inl ⟨⟨e, List.mem_cons_self, hfails⟩, ?_⟩
      rw [List.foldlM_cons, heq]
      rfl
    · have hrest := ih h1 (fun heq' => hstep (heq'.trans (List.append_cons _ _ _).symm))
      rw [List.foldlM_cons, heq, List.append_cons done e es]
      rcases hrest with ⟨⟨e', he', hfails⟩, herr⟩ | ⟨hall, hret⟩
      · exact Or.inl ⟨⟨e', List.mem_cons_of_mem _ he', hfails⟩, herr⟩
      · refine Or.inr ⟨fun e' he' => ?_, hret⟩
        rcases List.mem_cons.1 he' with rfl | hmem
        · exact hok
        · exact hall e' hmem

end Fallible

/-! ## Properties that come and go -/

section Lasting

variable {gains loses : ε → Prop} {start : Prop} {e : ε} {es : List ε}

/-- It holds at the start or is gained by an event, and is not lost afterwards. -/
def Lasts (gains loses : ε → Prop) (start : Prop) (es : List ε) : Prop :=
  (start ∧ ∀ e ∈ es, ¬ loses e) ∨
    ∃ before e after, es = before ++ e :: after ∧ gains e ∧ ∀ e' ∈ after, ¬ loses e'

theorem lasts_nil : Lasts gains loses start [] ↔ start := by
  simp [Lasts]

theorem lasts_cons : Lasts gains loses start (e :: es) ↔
    Lasts gains loses (gains e ∨ start ∧ ¬ loses e) es := by
  constructor
  · rintro (⟨hstart, hkeep⟩ | ⟨before, x, after, heq, hgain, hkeep⟩)
    · exact Or.inl ⟨Or.inr ⟨hstart, hkeep e List.mem_cons_self⟩,
        fun e' he' => hkeep e' (List.mem_cons_of_mem _ he')⟩
    · cases before with
      | nil =>
        obtain ⟨rfl, rfl⟩ := List.cons.inj heq
        exact Or.inl ⟨Or.inl hgain, hkeep⟩
      | cons y before =>
        obtain ⟨rfl, rfl⟩ := List.cons.inj heq
        exact Or.inr ⟨before, x, after, rfl, hgain, hkeep⟩
  · rintro (⟨hgain | ⟨hstart, hkept⟩, hkeep⟩ | ⟨before, x, after, rfl, hgain, hkeep⟩)
    · exact Or.inr ⟨[], e, es, rfl, hgain, hkeep⟩
    · exact Or.inl ⟨hstart, List.forall_mem_cons.2 ⟨hkept, hkeep⟩⟩
    · exact Or.inr ⟨e :: before, x, after, rfl, hgain, hkeep⟩

end Lasting

/-! ## Products -/

variable [DecidableEq ι]

/-- Component `e.1` takes the step `e.2`. -/
def stepAt (step : σ → ε → σ) (w : ι → σ) (e : ι × ε) : ι → σ :=
  Function.update w e.1 (step (w e.1) e.2)

theorem runAt_invariant (okAt : ι → σ → ε → Prop) (Inv : ι → σ → Prop)
    (hstep : ∀ i s e, Inv i s → okAt i s e → Inv i (step s e)) {w : ι → σ} {es : List (ι × ε)}
    (h0 : ∀ i, Inv i (w i))
    (hes : Steps (stepAt step) (fun w e => okAt e.1 (w e.1) e.2) w es) :
    ∀ i, Inv i (run (stepAt step) w es i) := by
  refine run_invariant (fun w => ∀ i, Inv i (w i)) ?_ h0 hes
  intro w e hw hok i
  unfold stepAt
  by_cases hi : i = e.1
  · subst hi
    rw [Function.update_self]
    exact hstep _ _ _ (hw _) hok
  · rw [Function.update_of_ne hi]
    exact hw i

/-- A component sees its own events only. -/
theorem run_stepAt_apply (w : ι → σ) (es : List (ι × ε)) (i : ι) :
    run (stepAt step) w es i = run step (w i) ((es.filter (·.1 = i)).map Prod.snd) := by
  induction es generalizing w with
  | nil => rfl
  | cons e es ih =>
    have hcons : run (stepAt step) w (e :: es) = run (stepAt step) (stepAt step w e) es := rfl
    rw [hcons, ih]
    by_cases hi : e.1 = i
    · subst hi
      simp [stepAt, run]
    · simp [stepAt, run, hi, Function.update_of_ne (Ne.symm hi)]

end Benzene.Run
