import Mathlib.Data.List.Basic

/-! # State parsers that take exactly their encoding

A state parser runs on a state standing before a list of tokens; `pos` places the state there.
`Reads pos p bs x` says that `p`, started before the tokens `bs`, takes exactly them and returns
`x`, whatever follows. The relation composes along `bind`, so the encoding of a record is read by
reading its fields one after another. `Tiles R as bs` splits `bs` into encodings of the items of
`as`; a parser that reads one item reads a whole list of them.

`Leaves pos p bs o Φ` says what `p` leaves of any tokens, or that it fails. `Local pos p` says that a
run of `p` does not depend on the tokens behind those that it takes.

`Returns p Φ` says that every result of `p` has the property `Φ`.

`Shrinks μ E p` says that `p` never raises the measure `μ` of the state and fails with errors of `E`
only, `Advances μ E p` that it lowers it besides. -/

namespace Dabugger.Lib.Exact

variable {σ τ ε α β γ : Type}

/-- **Exact reading.** Before `bs`, the parser takes `bs` and returns `x`, whatever follows. -/
def Reads (pos : List τ → σ) (p : StateT σ (Except ε) α) (bs : List τ) (x : α) : Prop :=
  ∀ rest, p (pos (bs ++ rest)) = .ok (x, pos rest)

section
variable {pos : List τ → σ} {p : StateT σ (Except ε) α} {f : α → StateT σ (Except ε) β}
  {bs c : List τ} {x : α} {y : β}

theorem Reads.pure (x : α) : Reads pos (pure x : StateT σ (Except ε) α) [] x := fun _ => rfl

theorem Reads.bind (h : Reads pos p bs x) (k : Reads pos (f x) c y) :
    Reads pos (p >>= f) (bs ++ c) y := by
  intro rest
  have h' := h (c ++ rest)
  rw [List.append_assoc, show (p >>= f) (pos (bs ++ (c ++ rest))) =
    (p (pos (bs ++ (c ++ rest))) >>= fun q => f q.1 q.2) from rfl, h']
  exact k rest

/-- A last step that takes nothing. -/
theorem Reads.bind_pure (h : Reads pos p bs x) (k : Reads pos (f x) [] y) :
    Reads pos (p >>= f) bs y := by
  simpa using h.bind k

/-- A first step that takes nothing. -/
theorem Reads.pure_bind (h : Reads pos p [] x) (k : Reads pos (f x) c y) :
    Reads pos (p >>= f) c y := h.bind k

theorem Reads.of_eq {bs' : List τ} (h : Reads pos p bs x) (e : bs = bs') : Reads pos p bs' x :=
  e ▸ h

/-- A step that looks at the state. -/
theorem Reads.get_bind {g : σ → StateT σ (Except ε) β} (h : ∀ s, Reads pos (g s) bs y) :
    Reads pos (get >>= g) bs y := fun rest => h _ rest

theorem Reads.lift {x : Except ε α} {y : α} (h : x = .ok y) :
    Reads pos (liftM x : StateT σ (Except ε) α) [] y := by
  subst h
  exact fun _ => rfl

end

/-! ### Lists of encodings -/

/-- `bs` is a list of encodings of the items of `as`, one after another. -/
inductive Tiles (R : α → List τ → Prop) : List α → List τ → Prop
  | nil : Tiles R [] []
  | cons {a : α} {as : List α} {b bs : List τ} (h : R a b) (t : Tiles R as bs) :
      Tiles R (a :: as) (b ++ bs)

theorem Tiles.single {R : α → List τ → Prop} {a : α} {b : List τ} (h : R a b) : Tiles R [a] b := by
  simpa using Tiles.cons h .nil

/-- The concatenation of encodings. -/
theorem tiles_flatten {R : α → List τ → Prop} : ∀ {as : List α} {bss : List (List τ)},
    List.Forall₂ R as bss → Tiles R as bss.flatten
  | [], [], .nil => .nil
  | _ :: _, _ :: _, .cons h hs => .cons h (tiles_flatten hs)

theorem Tiles.mono {R S : α → List τ → Prop} (hRS : ∀ a b, R a b → S a b) {as : List α}
    {bs : List τ} (t : Tiles R as bs) : Tiles S as bs := by
  induction t with
  | nil => exact .nil
  | cons h _ ih => exact .cons (hRS _ _ h) ih

theorem Tiles.length_le {R : α → List τ → Prop} (hR : ∀ a b, R a b → b ≠ []) {as : List α}
    {bs : List τ} (t : Tiles R as bs) : as.length ≤ bs.length := by
  induction t with
  | nil => exact Nat.le_refl _
  | cons h _ ih =>
    have := List.length_pos_iff.mpr (hR _ _ h)
    rw [List.length_cons, List.length_append]
    omega

/-! ### One step after another -/

section
variable {p : StateT σ (Except ε) α} {f : α → StateT σ (Except ε) β}

theorem bind_of_ok {s s' : σ} {x : α} (h : p s = .ok (x, s')) : (p >>= f) s = f x s' := by
  rw [show (p >>= f) s = (p s >>= fun q => f q.1 q.2) from rfl, h]
  rfl

theorem bind_of_error {s : σ} {e : ε} (h : p s = .error e) : (p >>= f) s = .error e := by
  rw [show (p >>= f) s = (p s >>= fun q => f q.1 q.2) from rfl, h]
  rfl

theorem get_bind {g : σ → StateT σ (Except ε) β} (s : σ) :
    ((get : StateT σ (Except ε) σ) >>= g) s = g s s := rfl

theorem lift_bind_ok {x : α} (s : σ) :
    ((liftM (Except.ok x : Except ε α) : StateT σ (Except ε) α) >>= f) s = f x s := rfl

theorem lift_bind_error {e : ε} (s : σ) :
    ((liftM (Except.error e : Except ε α) : StateT σ (Except ε) α) >>= f) s = .error e := rfl

theorem bind_ok {s s'' : σ} {y : β} (h : (p >>= f) s = .ok (y, s'')) :
    ∃ x s', p s = .ok (x, s') ∧ f x s' = .ok (y, s'') := by
  rw [show (p >>= f) s = (p s >>= fun q => f q.1 q.2) from rfl] at h
  cases hp : p s with
  | error e => rw [hp] at h; cases h
  | ok q => rw [hp] at h; exact ⟨q.1, q.2, rfl, h⟩

theorem bind_error {s : σ} {e : ε} (h : (p >>= f) s = .error e) :
    p s = .error e ∨ ∃ x s', p s = .ok (x, s') ∧ f x s' = .error e := by
  rw [show (p >>= f) s = (p s >>= fun q => f q.1 q.2) from rfl] at h
  cases hp : p s with
  | error e' => rw [hp] at h; cases h; exact .inl rfl
  | ok q => rw [hp] at h; exact .inr ⟨q.1, q.2, rfl, h⟩

end

/-! ### Parsers on any tokens -/

/-- **What a parser leaves of `bs`**: the tokens `o`, with a result that has the property `Φ`; or it
fails, when `o` is `none`. -/
def Leaves (pos : List τ → σ) (p : StateT σ (Except ε) α) (bs : List τ) (o : Option (List τ))
    (Φ : α → Prop) : Prop :=
  match o with
  | none => ∃ e, p (pos bs) = .error e
  | some cs => ∃ x, p (pos bs) = .ok (x, pos cs) ∧ Φ x

section
variable {pos : List τ → σ} {p : StateT σ (Except ε) α} {f : α → StateT σ (Except ε) β}
  {bs cs : List τ} {o : Option (List τ)} {Φ : α → Prop} {Ψ : β → Prop}

theorem Leaves.pure {x : α} (h : Φ x) :
    Leaves pos (pure x : StateT σ (Except ε) α) bs (some bs) Φ := ⟨x, rfl, h⟩

/-- A result of which nothing is said. -/
theorem Leaves.done {x : α} :
    Leaves pos (Pure.pure x : StateT σ (Except ε) α) bs (some bs) fun _ => True := ⟨x, rfl, trivial⟩

theorem Leaves.of_ok {x : α} (h : p (pos bs) = .ok (x, pos cs)) :
    Leaves pos p bs (some cs) fun _ => True := ⟨x, h, trivial⟩

/-- A parser that does not fail leaves something. -/
theorem Leaves.of_run {x : α} {s : σ} (h : Leaves pos p bs o Φ) (hx : p (pos bs) = .ok (x, s)) :
    ∃ cs, o = some cs ∧ s = pos cs ∧ Φ x := by
  cases o with
  | none =>
    obtain ⟨e, he⟩ := h
    rw [hx] at he
    cases he
  | some cs =>
    obtain ⟨_, hok, hp⟩ := h
    rw [hx] at hok
    cases hok
    exact ⟨cs, rfl, rfl, hp⟩

/-- A parser that leaves something does not fail. -/
theorem Leaves.not_error {e : ε} (h : Leaves pos p bs o Φ) (he : p (pos bs) = .error e) :
    o = none := by
  cases o with
  | none => rfl
  | some cs =>
    obtain ⟨_, hok, -⟩ := h
    rw [he] at hok
    cases hok

theorem Leaves.mono {Φ' : α → Prop} (h : Leaves pos p bs o Φ) (hΦ : ∀ x, Φ x → Φ' x) :
    Leaves pos p bs o Φ' := by
  cases o with
  | none => exact h
  | some cs =>
    obtain ⟨x, hx, hp⟩ := h
    exact ⟨x, hx, hΦ x hp⟩

/-- A run, then another; the second may depend on what the first leaves. -/
theorem Leaves.bind_of_eq {k : List τ → Option (List τ)} (h : Leaves pos p bs o Φ)
    (hk : ∀ cs, o = some cs → ∀ x, Φ x → Leaves pos (f x) cs (k cs) Ψ) :
    Leaves pos (p >>= f) bs (o.bind k) Ψ := by
  cases o with
  | none =>
    obtain ⟨e, he⟩ := h
    exact ⟨e, bind_of_error he⟩
  | some cs =>
    obtain ⟨x, hx, hp⟩ := h
    have := hk cs rfl x hp
    unfold Leaves at this ⊢
    rw [Option.bind_some]
    cases hc : k cs with
    | none =>
      rw [hc] at this
      obtain ⟨e, he⟩ := this
      exact ⟨e, (bind_of_ok hx).trans he⟩
    | some ds =>
      rw [hc] at this
      obtain ⟨y, hy, hq⟩ := this
      exact ⟨y, (bind_of_ok hx).trans hy, hq⟩

theorem Leaves.bind {k : List τ → Option (List τ)} (h : Leaves pos p bs o Φ)
    (hk : ∀ x cs, Φ x → Leaves pos (f x) cs (k cs) Ψ) : Leaves pos (p >>= f) bs (o.bind k) Ψ :=
  h.bind_of_eq fun cs _ x hx => hk x cs hx

/-- A first step that leaves what it leaves whatever the run. -/
theorem Leaves.bind_some (h : Leaves pos p bs (some cs) Φ)
    (hk : ∀ x, Φ x → Leaves pos (f x) cs o Ψ) : Leaves pos (p >>= f) bs o Ψ := by
  obtain ⟨x, hx, hp⟩ := h
  have := hk x hp
  unfold Leaves at this ⊢
  rwa [bind_of_ok hx]

/-- A last step that takes nothing. -/
theorem Leaves.bind_end (h : Leaves pos p bs o Φ)
    (hk : ∀ x cs, Φ x → Leaves pos (f x) cs (some cs) Ψ) : Leaves pos (p >>= f) bs o Ψ := by
  have h' := h.bind (k := some) hk
  rwa [Option.bind_fun_some] at h'

theorem Leaves.get_bind {g : σ → StateT σ (Except ε) β} (h : Leaves pos (g (pos bs)) bs o Ψ) :
    Leaves pos (get >>= g) bs o Ψ := h

theorem Leaves.ite {c : Prop} [Decidable c] {p q : StateT σ (Except ε) α} {o o' : Option (List τ)}
    (hp : c → Leaves pos p bs o Φ) (hq : ¬ c → Leaves pos q bs o' Φ) :
    Leaves pos (if c then p else q) bs (if c then o else o') Φ := by
  by_cases h : c
  · rw [if_pos h, if_pos h]
    exact hp h
  · rw [if_neg h, if_neg h]
    exact hq h

/-- A choice between two postconditions of one kind. -/
theorem Leaves.ite_value {κ : Type} {Φ : κ → α → Prop} {k k' : κ} {c : Prop} [Decidable c]
    {p q : StateT σ (Except ε) α} {o o' : Option (List τ)} (hp : c → Leaves pos p bs o (Φ k))
    (hq : ¬ c → Leaves pos q bs o' (Φ k')) :
    Leaves pos (if c then p else q) bs (if c then o else o') (Φ (if c then k else k')) := by
  by_cases hc : c
  · rw [if_pos hc, if_pos hc, if_pos hc]
    exact hp hc
  · rw [if_neg hc, if_neg hc, if_neg hc]
    exact hq hc

/-- What is read exactly is what is left behind it. -/
theorem Reads.leaves {x : α} (h : Reads pos p bs x) (cs : List τ) :
    Leaves pos p (bs ++ cs) (some cs) (· = x) := ⟨x, h cs, rfl⟩

end

/-! ### What is behind the tokens -/

/-- **What is behind does not matter.** A run before `bs` and `s` stays in front of `s`, and is then the
same before `bs` and fewer tokens; or it takes tokens of `s`. -/
def Local (pos : List τ → σ) (p : StateT σ (Except ε) α) : Prop :=
  ∀ bs s s' x t, s'.length ≤ s.length → p (pos (bs ++ s)) = .ok (x, t) →
    (∃ cs, cs.length ≤ bs.length ∧ t = pos (cs ++ s) ∧
      p (pos (bs ++ s')) = .ok (x, pos (cs ++ s'))) ∨
    ∃ r, r.length < s.length ∧ t = pos r

section
variable {pos : List τ → σ} {p q : StateT σ (Except ε) α} {f : α → StateT σ (Except ε) β}

theorem Local.pure (x : α) : Local pos (pure x : StateT σ (Except ε) α) := by
  rintro bs s s' y t - ⟨⟩
  exact .inl ⟨bs, Nat.le_refl _, rfl, rfl⟩

theorem Local.lift (x : Except ε α) : Local pos (liftM x : StateT σ (Except ε) α) := by
  rintro bs s s' y t - h
  cases x with
  | error e => cases h
  | ok a =>
    cases h
    exact .inl ⟨bs, Nat.le_refl _, rfl, rfl⟩

theorem Local.bind (hp : Local pos p) (hf : ∀ x, Local pos (f x)) : Local pos (p >>= f) := by
  intro bs s s' y t hs h
  obtain ⟨x, u, h1, h2⟩ := bind_ok h
  rcases hp bs s s' x u hs h1 with ⟨cs, hcs, rfl, h1'⟩ | ⟨r, hr, rfl⟩
  · rcases hf x cs s s' y t hs h2 with ⟨ds, hds, rfl, h2'⟩ | hr
    · exact .inl ⟨ds, Nat.le_trans hds hcs, rfl, (bind_of_ok h1').trans h2'⟩
    · exact .inr hr
  · rcases hf x [] r r y t (Nat.le_refl _) h2 with ⟨ds, hds, rfl, -⟩ | ⟨r', hr', rfl⟩
    · obtain rfl := List.eq_nil_of_length_eq_zero (Nat.le_zero.mp hds)
      exact .inr ⟨r, hr, rfl⟩
    · exact .inr ⟨r', Nat.lt_trans hr' hr, rfl⟩

theorem Local.ite {c : Prop} [Decidable c] (hp : Local pos p) (hq : Local pos q) :
    Local pos (if c then p else q) := by
  split
  · exact hp
  · exact hq

/-- A parser that always leaves what is behind `bs` reads `bs`. -/
theorem Local.reads (hpos : Function.Injective pos) (h : Local pos p) {bs : List τ}
    (hok : ∀ rest, ∃ x, p (pos (bs ++ rest)) = .ok (x, pos rest)) : ∃ x, Reads pos p bs x := by
  obtain ⟨x, hx⟩ := hok []
  refine ⟨x, fun rest => ?_⟩
  obtain ⟨y, hy⟩ := hok rest
  rcases h bs rest [] y _ (Nat.zero_le _) hy with ⟨cs, -, hcs, hnil⟩ | ⟨r, hr, he⟩
  · obtain rfl := List.self_eq_append_left.mp (hpos hcs)
    rw [hx] at hnil
    cases hnil
    exact hy
  · rw [hpos he] at hr
    exact absurd hr (Nat.lt_irrefl _)

/-- No tokens are added. -/
theorem Local.length_le (h : Local pos p) {bs : List τ} {x : α} {t : σ}
    (hx : p (pos bs) = .ok (x, t)) : ∃ cs, cs.length ≤ bs.length ∧ t = pos cs := by
  rcases h [] bs bs x t (Nat.le_refl _) hx with ⟨cs, hcs, rfl, -⟩ | ⟨r, hr, rfl⟩
  · obtain rfl := List.eq_nil_of_length_eq_zero (Nat.le_zero.mp hcs)
    exact ⟨bs, Nat.le_refl _, rfl⟩
  · exact ⟨r, Nat.le_of_lt hr, rfl⟩

end

/-! ### What a parser returns -/

/-- Every result of the parser has the property. -/
def Returns (p : StateT σ (Except ε) α) (Φ : α → Prop) : Prop := ∀ s x s', p s = .ok (x, s') → Φ x

section
variable {p q : StateT σ (Except ε) α} {f : α → StateT σ (Except ε) β} {Φ : α → Prop} {Ψ : β → Prop}

theorem Returns.pure {x : α} (h : Φ x) : Returns (pure x : StateT σ (Except ε) α) Φ := by
  rintro s y s' ⟨⟩
  exact h

/-- The result is that of the last step. -/
theorem Returns.bind (h : ∀ x, Returns (f x) Ψ) : Returns (p >>= f) Ψ := by
  intro s y s'' hs
  obtain ⟨x, s', -, h2⟩ := bind_ok hs
  exact h x s' y s'' h2

theorem Returns.ite {c : Prop} [Decidable c] (hp : c → Returns p Φ) (hq : ¬ c → Returns q Φ) :
    Returns (if c then p else q) Φ := by
  by_cases h : c
  · rw [if_pos h]
    exact hp h
  · rw [if_neg h]
    exact hq h

end

/-! ### Parsers that never raise a measure -/

/-- The parser never raises the measure of the state, and fails with errors of `E` only. -/
structure Shrinks (μ : σ → ℕ) (E : ε → Prop) (p : StateT σ (Except ε) α) : Prop where
  le : ∀ s x s', p s = .ok (x, s') → μ s' ≤ μ s
  error : ∀ s e, p s = .error e → E e

/-- The parser lowers the measure of every state where it is not zero already. -/
structure Advances (μ : σ → ℕ) (E : ε → Prop) (p : StateT σ (Except ε) α) : Prop
    extends Shrinks μ E p where
  lt : ∀ s x s', p s = .ok (x, s') → 0 < μ s → μ s' < μ s

section
variable {μ : σ → ℕ} {E : ε → Prop} {p : StateT σ (Except ε) α} {f : α → StateT σ (Except ε) β}

theorem Shrinks.pure (x : α) : Shrinks μ E (pure x : StateT σ (Except ε) α) where
  le := by rintro s y s' ⟨⟩; exact Nat.le_refl _
  error := by rintro s e ⟨⟩

theorem Shrinks.bind (h : Shrinks μ E p) (k : ∀ x, Shrinks μ E (f x)) : Shrinks μ E (p >>= f) where
  le s y s'' hs := by
    obtain ⟨x, s', h1, h2⟩ := bind_ok hs
    exact Nat.le_trans ((k x).le s' y s'' h2) (h.le s x s' h1)
  error s e hs := by
    rcases bind_error hs with h1 | ⟨x, s', -, h2⟩
    · exact h.error s e h1
    · exact (k x).error s' e h2

theorem Shrinks.get_bind {g : σ → StateT σ (Except ε) β} (h : ∀ s, Shrinks μ E (g s)) :
    Shrinks μ E (get >>= g) where
  le s := (h s).le s
  error s := (h s).error s

theorem Shrinks.lift {x : Except ε α} (h : ∀ e, x = .error e → E e) :
    Shrinks μ E (liftM x : StateT σ (Except ε) α) where
  le s y s' hs := by
    cases x with
    | error e => cases hs
    | ok a => cases hs; exact Nat.le_refl _
  error s e hs := by
    cases x with
    | error e' => cases hs; exact h e rfl
    | ok a => cases hs

theorem Shrinks.ite {c : Prop} [Decidable c] {p q : StateT σ (Except ε) α} (hp : Shrinks μ E p)
    (hq : Shrinks μ E q) : Shrinks μ E (if c then p else q) := by
  split
  · exact hp
  · exact hq

/-- A first step that advances. -/
theorem Advances.bind (h : Advances μ E p) (k : ∀ x, Shrinks μ E (f x)) :
    Advances μ E (p >>= f) where
  toShrinks := h.toShrinks.bind k
  lt s y s'' hs h0 := by
    obtain ⟨x, s', h1, h2⟩ := bind_ok hs
    exact Nat.lt_of_le_of_lt ((k x).le s' y s'' h2) (h.lt s x s' h1 h0)

/-- A later step that advances: the first has moved, or has left enough to move on. -/
theorem Shrinks.bind_advances (h : Shrinks μ E p) (k : ∀ x, Advances μ E (f x)) :
    Advances μ E (p >>= f) where
  toShrinks := h.bind fun x => (k x).toShrinks
  lt s y s'' hs h0 := by
    obtain ⟨x, s', h1, h2⟩ := bind_ok hs
    have hle := h.le s x s' h1
    rcases Nat.eq_zero_or_pos (μ s') with hz | hp
    · have hle' := (k x).le s' y s'' h2
      omega
    · exact Nat.lt_of_lt_of_le ((k x).lt s' y s'' h2 hp) hle

end

end Dabugger.Lib.Exact
