import Mathlib.Tactic

/-! # Runs of a step relation

`Run Step s es t`: the steps labelled `es` lead from `s` to `t`. A property that every step keeps
holds at the end of every run (`Run.invariant`).

The first part is about steps that are computed, and may fail: `Returns` says that one does not, and
`returns_foldlM_iff` where a loop does not. The last ones are about steps that are seen as those of a
machine which computes (`Run.foldl_eq`), and about steps that give an output
(`outputs_eq_of_simulation`). -/

namespace Dabugger.Lib.Runs

/-! ### Computations that may fail -/

section
variable {ε α β : Type} {x : Except ε α} {f : α → Except ε β}

theorem except_bind_ok {b : β} (h : x >>= f = .ok b) : ∃ a, x = .ok a ∧ f a = .ok b := by
  cases x with
  | error e => cases h
  | ok a => exact ⟨a, rfl, h⟩

theorem except_bind_of_ok {a : α} (h : x = .ok a) : x >>= f = f a := by
  rw [h]
  rfl

/-- A list that is mapped has one result for each element. -/
theorem except_mapM_ok {f : α → Except ε β} : ∀ {xs : List α} {ys : List β},
    xs.mapM f = .ok ys → List.Forall₂ (fun x y => f x = .ok y) xs ys
  | [], _, h => by
    cases h
    exact .nil
  | x :: xs, _, h => by
    rw [List.mapM_cons] at h
    obtain ⟨y, hy, h⟩ := except_bind_ok h
    obtain ⟨ys, hys, h⟩ := except_bind_ok h
    cases h
    exact .cons hy (except_mapM_ok hys)

theorem except_map_ok {g : α → β} {b : β} (h : x.map g = .ok b) : ∃ a, x = .ok a ∧ g a = b := by
  cases x with
  | error e => cases h
  | ok a => exact ⟨a, rfl, Except.ok.inj h⟩

/-- The computation does not fail. -/
def Returns (x : Except ε α) : Prop := ∃ a, x = .ok a

theorem Returns.of_ok {a : α} (h : x = .ok a) : Returns x := ⟨a, h⟩

theorem returns_pure (a : α) : Returns (pure a : Except ε α) := ⟨a, rfl⟩

theorem not_returns_error (e : ε) : ¬ Returns (.error e : Except ε α) := by
  rintro ⟨_, ⟨⟩⟩

/-- A sequence returns where both parts do. -/
theorem returns_bind_iff : Returns (x >>= f) ↔ ∃ a, x = .ok a ∧ Returns (f a) := by
  constructor
  · rintro ⟨b, h⟩
    obtain ⟨a, ha, hb⟩ := except_bind_ok h
    exact ⟨a, ha, b, hb⟩
  · rintro ⟨a, ha, hb⟩
    rwa [except_bind_of_ok ha]

/-- The second part always returns. -/
theorem returns_bind_iff_left (hf : ∀ a, Returns (f a)) : Returns (x >>= f) ↔ Returns x := by
  rw [returns_bind_iff]
  exact exists_congr fun a => and_iff_left (hf a)

end

/-! ### Runs -/

variable {σ ι : Type} {Step : σ → ι → σ → Prop}

/-- The steps with these labels lead from one state to another. -/
inductive Run (Step : σ → ι → σ → Prop) : σ → List ι → σ → Prop
  | refl (s : σ) : Run Step s [] s
  | step {s s' t : σ} {e : ι} {es : List ι} (h : Step s e s') (r : Run Step s' es t) :
      Run Step s (e :: es) t

theorem Run.single {s t : σ} {e : ι} (h : Step s e t) : Run Step s [e] t := .step h (.refl t)

theorem Run.trans {s t u : σ} {es es' : List ι} (r : Run Step s es t) (r' : Run Step t es' u) :
    Run Step s (es ++ es') u := by
  induction r with
  | refl _ => exact r'
  | step h _ ih => exact .step h (ih r')

/-- Steps of another relation. -/
theorem Run.mono {Step' : σ → ι → σ → Prop} (h : ∀ s e t, Step s e t → Step' s e t) {s t : σ}
    {es : List ι} (r : Run Step s es t) : Run Step' s es t := by
  induction r with
  | refl s => exact .refl s
  | step hs _ ih => exact .step (h _ _ _ hs) ih

/-- **The invariant rule.** -/
theorem Run.invariant {I : σ → Prop} (hI : ∀ s e t, Step s e t → I s → I t) {s t : σ}
    {es : List ι} (r : Run Step s es t) (h : I s) : I t := by
  induction r with
  | refl _ => exact h
  | step hs _ ih => exact ih (hI _ _ _ hs h)

/-- A fold of steps that may fail is a run. -/
theorem Run.of_foldlM {ε : Type} {f : σ → ι → Except ε σ} : ∀ {es : List ι} {s t : σ},
    es.foldlM f s = .ok t → Run (fun s e t => f s e = .ok t) s es t
  | [], s, _, h => by
    cases h
    exact .refl s
  | e :: es, s, t, h => by
    rw [List.foldlM_cons] at h
    obtain ⟨s', hs, h⟩ := except_bind_ok h
    exact .step hs (Run.of_foldlM h)

/-- **What is gained in a run** is gained in one of its steps. -/
theorem Run.exists_of_gained {I P : σ → Prop} {b : ι → Prop}
    (hI : ∀ s e t, Step s e t → I s → I t)
    (hP : ∀ s e t, Step s e t → I s → ¬ P s → P t → b e) {s t : σ} {es : List ι}
    (r : Run Step s es t) (h : I s) (hs : ¬ P s) (ht : P t) : ∃ e ∈ es, b e := by
  induction r with
  | refl _ => exact absurd ht hs
  | @step s s' t e es hstep _ ih =>
    by_cases hs' : P s'
    · exact ⟨e, List.mem_cons_self, hP _ _ _ hstep h hs hs'⟩
    · obtain ⟨e', he', hb⟩ := ih (hI _ _ _ hstep h) hs' ht
      exact ⟨e', List.mem_cons_of_mem _ he', hb⟩

/-! ### Steps of a machine that computes -/

/-- **Refinement by a function.** Where every step is seen as a list of inputs of a machine, so is a
run. -/
theorem Run.foldl_eq {τ κ : Type} {Step : σ → List κ → σ → Prop} {I : σ → Prop} {view : σ → τ}
    {next : τ → κ → τ} (hI : ∀ s is t, Step s is t → I s → I t)
    (hview : ∀ s is t, Step s is t → I s → view t = is.foldl next (view s)) {s t : σ}
    {iss : List (List κ)} (r : Run Step s iss t) (h : I s) :
    view t = iss.flatten.foldl next (view s) := by
  induction r with
  | refl _ => rfl
  | step hs _ ih =>
    rw [ih (hI _ _ _ hs h), hview _ _ _ hs h, List.flatten_cons, List.foldl_append]

/-! ### Steps with outputs -/

section
variable {ο : Type} {step : σ → ι → ο × σ} {R : σ → σ → Prop}

/-- The outputs of the steps with these inputs. -/
def outputs (step : σ → ι → ο × σ) : σ → List ι → List ο
  | _, [] => []
  | s, i :: is => (step s i).1 :: outputs step (step s i).2 is

/-- **The simulation rule**: states that every step keeps related, with the same output, have the same
outputs. -/
theorem outputs_eq_of_simulation
    (hR : ∀ s t i, R s t → (step s i).1 = (step t i).1 ∧ R (step s i).2 (step t i).2) :
    ∀ (is : List ι) {s t : σ}, R s t → outputs step s is = outputs step t is
  | [], _, _, _ => rfl
  | i :: is, s, t, h => by
    obtain ⟨hout, hnext⟩ := hR s t i h
    rw [outputs, outputs, hout, outputs_eq_of_simulation hR is hnext]

end

end Dabugger.Lib.Runs
