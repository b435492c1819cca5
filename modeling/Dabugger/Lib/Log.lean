import Mathlib.Tactic

/-! # Computations with a log

A computation that may fail, and what it has logged up to its end: an effect that the program has on
its surroundings, or a call whose arguments matter. The log of a failing computation is kept.

* `bind_eq`, `bind_of_ok`, `bind_of_error`: a sequence, by what its first part does.
* `result_bind`, `result_ite`, `result_foldlM`: the result without the log.
* `Succeeds`: the computation ends well; `succeeds_bind_iff` for a sequence, `succeeds_bind_iff_left`
  for one whose second part always does.
* `Emits P`: everything that is logged has the property `P`; one rule for each way to build a
  computation, `emits_bind_iff` for a sequence, and `Emits.bind_iff` and `emits_bind_iff_left` for one
  with a part that is known.
* `Erases q p`: the computation `q` with a state and a log does what `p` does without the log. -/

namespace Dabugger.Lib.Log

variable {ι ε α β : Type}

/-- What is logged, and the result. -/
@[ext] structure Logged (ι ε α : Type) where
  log : List ι
  result : Except ε α

instance : Monad (Logged ι ε) where
  pure a := ⟨[], .ok a⟩
  bind x f :=
    match x.result with
    | .error e => ⟨x.log, .error e⟩
    | .ok a => ⟨x.log ++ (f a).log, (f a).result⟩

/-- A computation that logs nothing. -/
instance : MonadLift (Except ε) (Logged ι ε) where
  monadLift x := ⟨[], x⟩

/-- Log one item. -/
def emit (i : ι) : Logged ι ε Unit := ⟨[i], .ok ()⟩

/-- Log items one after another. -/
def emitAll (is : List ι) : Logged ι ε Unit := ⟨is, .ok ()⟩

/-- Fail. -/
def fail (e : ε) : Logged ι ε α := ⟨[], .error e⟩

@[simp] theorem log_pure (a : α) : (pure a : Logged ι ε α).log = [] := rfl

@[simp] theorem log_lift (x : Except ε α) : (liftM x : Logged ι ε α).log = [] := rfl

/-! ### Sequences -/

section
variable {x : Logged ι ε α} {f : α → Logged ι ε β}

theorem bind_eq (x : Logged ι ε α) (f : α → Logged ι ε β) :
    x >>= f = match x.result with
      | .error e => ⟨x.log, .error e⟩
      | .ok a => ⟨x.log ++ (f a).log, (f a).result⟩ := rfl

theorem bind_of_ok {a : α} (h : x.result = .ok a) :
    x >>= f = ⟨x.log ++ (f a).log, (f a).result⟩ := by
  rw [bind_eq, h]

theorem bind_of_error {e : ε} (h : x.result = .error e) : x >>= f = ⟨x.log, .error e⟩ := by
  rw [bind_eq, h]

theorem emit_bind (i : ι) (f : Unit → Logged ι ε β) :
    emit i >>= f = ⟨i :: (f ()).log, (f ()).result⟩ := rfl

theorem emitAll_bind (is : List ι) (f : Unit → Logged ι ε β) :
    emitAll is >>= f = ⟨is ++ (f ()).log, (f ()).result⟩ := rfl

theorem lift_bind_of_ok {x : Except ε α} {a : α} (h : x = .ok a) :
    (liftM x : Logged ι ε α) >>= f = f a := by
  subst h
  rfl

theorem pure_bind (a : α) (f : α → Logged ι ε β) : pure a >>= f = f a := rfl

/-- Without the log, a sequence is one. -/
theorem result_bind (x : Logged ι ε α) (f : α → Logged ι ε β) :
    (x >>= f).result = x.result >>= fun a => (f a).result := by
  cases h : x.result with
  | error e =>
    rw [bind_of_error h]
    rfl
  | ok a =>
    rw [bind_of_ok h]
    rfl

theorem result_emit_bind (i : ι) (f : Unit → Logged ι ε β) :
    (emit i >>= f).result = (f ()).result := rfl

theorem result_lift_bind (x : Except ε α) (f : α → Logged ι ε β) :
    ((liftM x : Logged ι ε α) >>= f).result = x >>= fun a => (f a).result :=
  result_bind (liftM x) f

theorem result_ite (c : Prop) [Decidable c] (x y : Logged ι ε α) :
    (if c then x else y).result = if c then x.result else y.result := apply_ite Logged.result c x y

/-- Nor does a loop over a list need the log. -/
theorem result_foldlM {γ : Type} {f : β → γ → Logged ι ε β} {g : β → γ → Except ε β}
    (h : ∀ b c, (f b c).result = g b c) :
    ∀ (cs : List γ) (b : β), (cs.foldlM f b).result = cs.foldlM g b
  | [], _ => rfl
  | c :: cs, b => by
    rw [List.foldlM_cons, List.foldlM_cons, result_bind, h]
    exact bind_congr fun b => result_foldlM h cs b

/-- A result that is only changed on its way out. -/
theorem log_bind_pure (x : Logged ι ε α) (g : α → β) : (x >>= fun a => pure (g a)).log = x.log := by
  cases h : x.result with
  | error e => rw [bind_of_error h]
  | ok a =>
    rw [bind_of_ok h]
    exact List.append_nil x.log

theorem result_bind_pure (x : Logged ι ε α) (g : α → β) :
    (x >>= fun a => pure (g a)).result = x.result.map g := by
  cases h : x.result with
  | error e =>
    rw [bind_of_error h]
    rfl
  | ok a =>
    rw [bind_of_ok h]
    rfl

/-- A sequence that ends well, from its end. -/
theorem bind_ok {b : β} (h : (x >>= f).result = .ok b) :
    ∃ a, x.result = .ok a ∧ (f a).result = .ok b ∧ (x >>= f).log = x.log ++ (f a).log := by
  cases hx : x.result with
  | error e =>
    rw [bind_of_error hx] at h
    cases h
  | ok a =>
    rw [bind_of_ok hx] at h ⊢
    exact ⟨a, rfl, h, rfl⟩

theorem mem_log_bind {i : ι} :
    i ∈ (x >>= f).log ↔ i ∈ x.log ∨ ∃ a, x.result = .ok a ∧ i ∈ (f a).log := by
  cases hx : x.result with
  | error e =>
    rw [bind_of_error hx]
    exact (or_iff_left (by rintro ⟨_, ⟨⟩, _⟩)).symm
  | ok a =>
    rw [bind_of_ok hx, List.mem_append]
    refine or_congr_right ⟨fun hi => ⟨a, rfl, hi⟩, ?_⟩
    rintro ⟨_, ⟨⟩, hi⟩
    exact hi

end

/-- The computation ends well. -/
def Succeeds (x : Logged ι ε α) : Prop := ∃ a, x.result = .ok a

theorem succeeds_bind_iff {x : Logged ι ε α} {f : α → Logged ι ε β} :
    Succeeds (x >>= f) ↔ ∃ a, x.result = .ok a ∧ Succeeds (f a) := by
  constructor
  · rintro ⟨b, h⟩
    obtain ⟨a, ha, hb, -⟩ := bind_ok h
    exact ⟨a, ha, b, hb⟩
  · rintro ⟨a, ha, b, hb⟩
    rw [bind_of_ok ha]
    exact ⟨b, hb⟩

theorem Succeeds.pure (a : α) : Succeeds (pure a : Logged ι ε α) := ⟨a, rfl⟩

/-- Everything that is logged has the property. -/
def Emits (P : ι → Prop) (x : Logged ι ε α) : Prop := ∀ i ∈ x.log, P i

section
variable {P : ι → Prop}

theorem Emits.pure (a : α) : Emits P (pure a : Logged ι ε α) := nofun

theorem Emits.lift (x : Except ε α) : Emits P (liftM x : Logged ι ε α) := nofun

theorem Emits.fail (e : ε) : Emits P (fail e : Logged ι ε α) := nofun

theorem Emits.emit {i : ι} (h : P i) : Emits P (emit i : Logged ι ε Unit) := by
  intro j hj
  rwa [List.mem_singleton.mp hj]

theorem emits_emit_bind_iff {i : ι} {f : Unit → Logged ι ε β} :
    Emits P (Log.emit i >>= f) ↔ P i ∧ Emits P (f ()) := by
  rw [emit_bind]
  exact List.forall_mem_cons

theorem emits_bind_iff {x : Logged ι ε α} {f : α → Logged ι ε β} :
    Emits P (x >>= f) ↔ Emits P x ∧ ∀ a, x.result = .ok a → Emits P (f a) := by
  unfold Emits
  simp only [mem_log_bind]
  constructor
  · intro h
    exact ⟨fun i hi => h i (.inl hi), fun a ha i hi => h i (.inr ⟨a, ha, hi⟩)⟩
  · rintro ⟨hx, hf⟩ i (hi | ⟨a, ha, hi⟩)
    · exact hx i hi
    · exact hf a ha i hi

theorem Emits.bind {x : Logged ι ε α} {f : α → Logged ι ε β} (hx : Emits P x)
    (hf : ∀ a, x.result = .ok a → Emits P (f a)) : Emits P (x >>= f) :=
  emits_bind_iff.mpr ⟨hx, hf⟩

/-- Both parts have the property. -/
theorem emits_bind_iff_of_ok {x : Logged ι ε α} {f : α → Logged ι ε β} {a : α}
    (h : x.result = .ok a) : Emits P (x >>= f) ↔ Emits P x ∧ Emits P (f a) := by
  rw [emits_bind_iff]
  refine and_congr_right fun _ => ⟨fun hf => hf a h, fun hf b hb => ?_⟩
  rw [h] at hb
  cases hb
  exact hf

/-- The first part has the property. -/
theorem Emits.bind_iff {x : Logged ι ε α} {f : α → Logged ι ε β} {a : α} (hx : Emits P x)
    (h : x.result = .ok a) : Emits P (x >>= f) ↔ Emits P (f a) :=
  (emits_bind_iff_of_ok h).trans (and_iff_right hx)

/-- The second part has it. -/
theorem emits_bind_iff_left {x : Logged ι ε α} {f : α → Logged ι ε β}
    (hf : ∀ a, Emits P (f a)) : Emits P (x >>= f) ↔ Emits P x :=
  emits_bind_iff.trans (and_iff_left fun a _ => hf a)

end

/-! ### Computations with a state -/

section
variable {σ : Type}

/-- A computation with a state that logs nothing. -/
def unlogged (p : StateT σ (Except ε) α) : StateT σ (Logged ι ε) α := fun s => ⟨[], p s⟩

/-- Log one item and leave the state. -/
def emitItem (i : ι) : StateT σ (Logged ι ε) Unit := fun s => ⟨[i], .ok ((), s)⟩

/-- Without its log, `q` is `p`. -/
def Erases (q : StateT σ (Logged ι ε) α) (p : StateT σ (Except ε) α) : Prop :=
  ∀ s, (q s).result = p s

variable {p : StateT σ (Except ε) α} {f : α → StateT σ (Except ε) β}
  {q : StateT σ (Logged ι ε) α} {g : α → StateT σ (Logged ι ε) β}

theorem Erases.pure (a : α) :
    Erases (ι := ι) (pure a : StateT σ (Logged ι ε) α) (pure a : StateT σ (Except ε) α) :=
  fun _ => rfl

theorem Erases.unlogged (p : StateT σ (Except ε) α) : Erases (ι := ι) (unlogged p) p :=
  fun _ => rfl

theorem Erases.bind (h : Erases q p) (hf : ∀ a, Erases (g a) (f a)) :
    Erases (q >>= g) (p >>= f) := by
  intro s
  rw [show (q >>= g) s = q s >>= fun x => g x.1 x.2 from rfl,
    show (p >>= f) s = p s >>= fun x => f x.1 x.2 from rfl]
  cases hp : p s with
  | error e =>
    rw [bind_of_error ((h s).trans hp)]
    rfl
  | ok x =>
    rw [bind_of_ok ((h s).trans hp)]
    exact hf x.1 x.2

theorem Erases.emit_bind {i : ι} {g : Unit → StateT σ (Logged ι ε) β} {p : StateT σ (Except ε) β}
    (h : Erases (g ()) p) : Erases (emitItem i >>= g) p := h

theorem Erases.ite {c : Prop} [Decidable c] {q' : StateT σ (Logged ι ε) α}
    {p' : StateT σ (Except ε) α} (h : Erases q p) (h' : Erases q' p') :
    Erases (if c then q else q') (if c then p else p') := by
  split
  · exact h
  · exact h'

/-- The log of a sequence whose first part ends well. -/
theorem log_bind_state {a : α} {s s' : σ} (h : (q s).result = .ok (a, s')) :
    ((q >>= g) s).log = (q s).log ++ (g a s').log := by
  rw [show (q >>= g) s = q s >>= fun x => g x.1 x.2 from rfl, bind_of_ok h]

/-- What a sequence logs. -/
theorem Emits.state_bind {P : ι → Prop} {s : σ} (hq : Emits P (q s))
    (hg : ∀ a s', (q s).result = .ok (a, s') → Emits P (g a s')) : Emits P ((q >>= g) s) :=
  Emits.bind (x := q s) (f := fun x : α × σ => g x.1 x.2) hq fun x hx => hg x.1 x.2 hx

theorem emits_emitItem_bind_iff {P : ι → Prop} {i : ι} {g : Unit → StateT σ (Logged ι ε) β}
    {s : σ} : Emits P ((emitItem i >>= g) s) ↔ P i ∧ Emits P (g () s) :=
  List.forall_mem_cons

theorem log_unlogged_bind {a : α} {s s' : σ} (h : p s = .ok (a, s')) :
    ((unlogged p >>= g) s).log = (g a s').log :=
  log_bind_state h

theorem log_emitItem_bind (i : ι) (g : Unit → StateT σ (Logged ι ε) β) (s : σ) :
    ((emitItem i >>= g) s).log = i :: (g () s).log := rfl

end

end Dabugger.Lib.Log
