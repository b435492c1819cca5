import Dabugger.Lib.Exact
import Mathlib.Tactic

/-! # Loops with a break, over a state parser

`whileLoop cond body n` runs `while (cond) { body }`, at most `n` times; a body either goes on to
the next test (`Flow.next`) or leaves the loop (`Flow.stop`). `none` means that `n` iterations were
not enough.

* `whileLoop_induction`: induction over a loop that ends.
* `whileLoop_mono`: more fuel does not change a result.
* `whileLoop_enough`: if every iteration that goes on lowers the measure `μ`, the measure of the
  first state bounds the iterations.
* `Visits`: the states in which the test is reached; `Visits.invariant` is the invariant rule, and
  `Visits.to_end` says that the loop goes on from them to its end.
* `whileLoop_output`: a loop whose output only grows.
* `whileTrace`: what the iterations put out, one after another; `whileLoop_trace`: an accumulator
  that takes what each iteration puts out has taken the trace.
* `Walks`: where the steps of a loop over tokens come; `visits_iff_walks`.
* `Lands`: the steps of a loop end exactly at a mark; `whileLoop_ok_iff_lands`.
* `whileLoop_ends`: a loop ends in a visited state, at the test, by a stop or by a failure;
  `whileLoop_error_iff`: a loop fails exactly if it comes to a state where its body does.
* `Takes`: what a body makes of items one after another; a failing body ends it. -/

namespace Dabugger.Lib.Loop

open Dabugger.Lib.Exact

variable {σ ε α : Type}

/-- What one iteration leaves to do. -/
inductive Flow (α : Type) where
  /-- back to the test -/
  | next (a : α)
  /-- a `break` -/
  | stop (a : α)
  deriving DecidableEq

/-- `while (cond) { body }`, at most `n` iterations. -/
def whileLoop (cond : α → σ → Bool) (body : α → StateT σ (Except ε) (Flow α)) :
    ℕ → α → σ → Option (Except ε (α × σ))
  | 0, a, s => if cond a s then none else some (.ok (a, s))
  | n + 1, a, s =>
    if cond a s then
      match body a s with
      | .error e => some (.error e)
      | .ok (.stop a', s') => some (.ok (a', s'))
      | .ok (.next a', s') => whileLoop cond body n a' s'
    else some (.ok (a, s))

variable {cond : α → σ → Bool} {body : α → StateT σ (Except ε) (Flow α)}

theorem whileLoop_false {a : α} {s : σ} (h : cond a s = false) (n : ℕ) :
    whileLoop cond body n a s = some (.ok (a, s)) := by
  cases n <;> simp [whileLoop, h]

theorem whileLoop_next {a a' : α} {s s' : σ} (h : cond a s = true)
    (hb : body a s = .ok (.next a', s')) (n : ℕ) :
    whileLoop cond body (n + 1) a s = whileLoop cond body n a' s' := by
  simp [whileLoop, h, hb]

theorem whileLoop_stop {a a' : α} {s s' : σ} (h : cond a s = true)
    (hb : body a s = .ok (.stop a', s')) (n : ℕ) :
    whileLoop cond body (n + 1) a s = some (.ok (a', s')) := by
  simp [whileLoop, h, hb]

theorem whileLoop_error {a : α} {s : σ} {e : ε} (h : cond a s = true)
    (hb : body a s = .error e) (n : ℕ) :
    whileLoop cond body (n + 1) a s = some (.error e) := by
  simp [whileLoop, h, hb]

/-- **Induction over a loop that ends**: it ends at its test, by a failing body, by a stop, or as it
does from the state that an iteration goes on to. -/
theorem whileLoop_induction {motive : ℕ → α → σ → Except ε (α × σ) → Prop}
    (exit : ∀ n a s, cond a s = false → motive n a s (.ok (a, s)))
    (error : ∀ n a s e, cond a s = true → body a s = .error e → motive (n + 1) a s (.error e))
    (stop : ∀ n a s a' s', cond a s = true → body a s = .ok (.stop a', s') →
      motive (n + 1) a s (.ok (a', s')))
    (next : ∀ n a s a' s' r, cond a s = true → body a s = .ok (.next a', s') → motive n a' s' r →
      motive (n + 1) a s r) :
    ∀ {n : ℕ} {a : α} {s : σ} {r : Except ε (α × σ)}, whileLoop cond body n a s = some r →
      motive n a s r
  | 0, a, s, r, h => by
    cases hc : cond a s with
    | true => simp [whileLoop, hc] at h
    | false =>
      rw [whileLoop_false hc] at h
      cases h
      exact exit 0 a s hc
  | n + 1, a, s, r, h => by
    cases hc : cond a s with
    | false =>
      rw [whileLoop_false hc] at h
      cases h
      exact exit (n + 1) a s hc
    | true =>
      rcases hb : body a s with e | ⟨a' | a', s'⟩
      · rw [whileLoop_error hc hb] at h
        cases h
        exact error n a s e hc hb
      · rw [whileLoop_next hc hb] at h
        exact next n a s a' s' r hc hb (whileLoop_induction exit error stop next h)
      · rw [whileLoop_stop hc hb] at h
        cases h
        exact stop n a s a' s' hc hb

/-- **More fuel changes nothing.** -/
theorem whileLoop_mono {n m : ℕ} {a : α} {s : σ} {r : Except ε (α × σ)} (hm : n ≤ m)
    (h : whileLoop cond body n a s = some r) : whileLoop cond body m a s = some r := by
  have hmono := whileLoop_induction
    (motive := fun n a s r => ∀ m, n ≤ m → whileLoop cond body m a s = some r) ?_ ?_ ?_ ?_ h
  · exact hmono m hm
  · intro n a s hc m _
    exact whileLoop_false hc m
  · rintro n a s e hc hb (_ | m) hm
    · omega
    · exact whileLoop_error hc hb m
  · rintro n a s a' s' hc hb (_ | m) hm
    · omega
    · exact whileLoop_stop hc hb m
  · rintro n a s a' s' r hc hb ih (_ | m) hm
    · omega
    · rw [whileLoop_next hc hb]
      exact ih m (by omega)

theorem whileLoop_unique {n m : ℕ} {a : α} {s : σ} {x y : Except ε (α × σ)}
    (hx : whileLoop cond body n a s = some x) (hy : whileLoop cond body m a s = some y) : x = y := by
  have hx := whileLoop_mono (Nat.le_max_left n m) hx
  rw [whileLoop_mono (Nat.le_max_right n m) hy] at hx
  exact (Option.some.inj hx).symm

/-- Two tests that agree where the loop comes. -/
theorem whileLoop_congr {cond' : α → σ → Bool} {P : σ → Prop}
    (hcond : ∀ a s, P s → cond' a s = cond a s)
    (hP : ∀ a s x s', P s → body a s = .ok (x, s') → P s') :
    ∀ (n : ℕ) (a : α) (s : σ), P s → whileLoop cond' body n a s = whileLoop cond body n a s
  | 0, a, s, h => by rw [whileLoop, whileLoop, hcond a s h]
  | n + 1, a, s, h => by
    rw [whileLoop, whileLoop, hcond a s h]
    split
    · rcases hb : body a s with e | ⟨a' | a', s'⟩
      · rfl
      · exact whileLoop_congr hcond hP n a' s' (hP a s _ s' h hb)
      · rfl
    · rfl

/-- **The measure is fuel enough**, when every iteration that goes on lowers it and the test fails at
measure `0`. -/
theorem whileLoop_enough_of_zero {μ : σ → ℕ} (hz : ∀ a s, μ s = 0 → cond a s = false)
    (hμ : ∀ a s a' s', cond a s = true → body a s = .ok (.next a', s') → μ s' < μ s) :
    ∀ {n : ℕ} (a : α) (s : σ), μ s ≤ n → ∃ r, whileLoop cond body n a s = some r
  | 0, a, s, hn => ⟨_, whileLoop_false (hz a s (by omega)) 0⟩
  | n + 1, a, s, hn => by
    cases hc : cond a s with
    | false => exact ⟨_, whileLoop_false hc _⟩
    | true =>
      rcases hb : body a s with e | ⟨a' | a', s'⟩
      · exact ⟨_, whileLoop_error hc hb n⟩
      · have hlt := hμ a s a' s' hc hb
        rw [whileLoop_next hc hb]
        exact whileLoop_enough_of_zero hz hμ a' s' (by omega)
      · exact ⟨_, whileLoop_stop hc hb n⟩

/-- The same whatever the test: then one iteration more than the measure says ends the loop. -/
theorem whileLoop_enough {μ : σ → ℕ}
    (hμ : ∀ a s a' s', cond a s = true → body a s = .ok (.next a', s') → μ s' < μ s) {n : ℕ} (a : α)
    (s : σ) (hn : μ s < n) : ∃ r, whileLoop cond body n a s = some r := by
  refine whileLoop_enough_of_zero (μ := fun s => μ s + 1) ?_ ?_ a s hn
  · intro a s hs
    omega
  · intro a s a' s' hc hb
    exact Nat.succ_lt_succ (hμ a s a' s' hc hb)

/-- A loop of bodies that never raise a measure never raises it. -/
theorem whileLoop_shrinks {μ : σ → ℕ} {E : ε → Prop} (hb : ∀ a, Shrinks μ E (body a)) {n : ℕ} {a : α}
    {s : σ} {r : Except ε (α × σ)} (h : whileLoop cond body n a s = some r) :
    (∀ x, r = .ok x → μ x.2 ≤ μ s) ∧ ∀ e, r = .error e → E e := by
  refine whileLoop_induction
    (motive := fun _ _ s r => (∀ x, r = .ok x → μ x.2 ≤ μ s) ∧ ∀ e, r = .error e → E e)
    ?_ ?_ ?_ ?_ h
  · intro n a s _
    exact ⟨by rintro x ⟨⟩; exact Nat.le_refl _, by rintro e ⟨⟩⟩
  · intro n a s e _ hs
    exact ⟨by rintro x ⟨⟩, by rintro e' ⟨⟩; exact (hb a).error _ _ hs⟩
  · intro n a s a' s' _ hs
    exact ⟨by rintro x ⟨⟩; exact (hb a).le _ _ _ hs, by rintro e ⟨⟩⟩
  · rintro n a s a' s' r _ hs ⟨hle, herror⟩
    exact ⟨fun x hx => (hle x hx).trans ((hb a).le _ _ _ hs), herror⟩

/-- **A loop over a list of encodings**: when the test asks whether something of the list is left,
and the body reads one encoding, the loop reads the whole list, and carries the same result whatever
follows; `I` is the invariant, on what the loop carries and the items to come. -/
theorem whileLoop_tiles {τ ι : Type} {pos : List τ → σ} {R : ι → List τ → Prop}
    {I : α → List ι → Prop} (hne : ∀ i b, R i b → b ≠ [])
    (hbody : ∀ a i is b, I a (i :: is) → R i b →
      ∃ a', Reads pos (body a) b (.next a') ∧ I a' is) :
    ∀ {items : List ι} {bs : List τ} {a : α}, Tiles R items bs → I a items →
      ∃ a', I a' [] ∧ ∀ (cond : α → σ → Bool) (rest : List τ) (n : ℕ),
        (∀ a cs, cs <:+ bs → cond a (pos (cs ++ rest)) = !cs.isEmpty) → items.length ≤ n →
          whileLoop cond body n a (pos (bs ++ rest)) = some (.ok (a', pos rest))
  | [], _, a, .nil, hI =>
    ⟨a, hI, fun _ _ n hcond _ => whileLoop_false (by simpa using hcond a [] (List.suffix_refl _)) n⟩
  | i :: is, _, a, .cons h t, hI => by
    rename_i b bs
    obtain ⟨a1, hr, hI1⟩ := hbody a i is b hI h
    obtain ⟨a2, hI2, hloop⟩ := whileLoop_tiles hne hbody t hI1
    refine ⟨a2, hI2, fun cond rest n hcond hn => ?_⟩
    obtain ⟨n, rfl⟩ : ∃ m, n = m + 1 := ⟨n - 1, by rw [List.length_cons] at hn; omega⟩
    have hc : cond a (pos (b ++ bs ++ rest)) = true := by
      rw [hcond a _ (List.suffix_refl _)]
      simp [hne i b h]
    have hr' := hr (bs ++ rest)
    rw [← List.append_assoc] at hr'
    rw [whileLoop_next hc hr']
    exact hloop cond rest n (fun a cs hs => hcond a cs (hs.trans (List.suffix_append _ _)))
      (by simpa using hn)

/-! ### The states a loop visits -/

/-- The test is reached in the state `y` on the way from `x`. -/
inductive Visits (cond : α → σ → Bool) (body : α → StateT σ (Except ε) (Flow α)) :
    α × σ → α × σ → Prop
  | refl (x : α × σ) : Visits cond body x x
  | step {a a' : α} {s s' : σ} {y : α × σ} (h : cond a s = true)
      (hb : body a s = .ok (.next a', s')) (t : Visits cond body (a', s') y) :
      Visits cond body (a, s) y

/-- **The invariant rule.** -/
theorem Visits.invariant {P : α → σ → Prop}
    (hP : ∀ a s a' s', P a s → cond a s = true → body a s = .ok (.next a', s') → P a' s')
    {x y : α × σ} (v : Visits cond body x y) (h : P x.1 x.2) : P y.1 y.2 := by
  induction v with
  | refl x => exact h
  | step hc hb _ ih => exact ih (hP _ _ _ _ h hc hb)

theorem Visits.trans {x y z : α × σ} (v : Visits cond body x y) (w : Visits cond body y z) :
    Visits cond body x z := by
  induction v with
  | refl x => exact w
  | step hc hb _ ih => exact .step hc hb (ih w)

section
variable {a a' : α} {s s' : σ} {y : α × σ}

/-- Where the test fails, a loop comes to no other state. -/
theorem Visits.eq_of_false (v : Visits cond body (a, s) y) (hc : cond a s = false) : y = (a, s) := by
  cases v with
  | refl => rfl
  | step h _ _ =>
    rw [hc] at h
    cases h

/-- Nor does it where the body stops. -/
theorem Visits.eq_of_stop (v : Visits cond body (a, s) y) (hb : body a s = .ok (.stop a', s')) :
    y = (a, s) := by
  cases v with
  | refl => rfl
  | step _ h _ =>
    rw [hb] at h
    cases h

/-- Where an iteration goes on, it comes to what it goes on to. -/
theorem Visits.of_next (v : Visits cond body (a, s) y) (hb : body a s = .ok (.next a', s')) :
    y = (a, s) ∨ Visits cond body (a', s') y := by
  cases v with
  | refl => exact .inl rfl
  | step _ h t =>
    rw [hb] at h
    cases h
    exact .inr t

end

/-- A loop ends as it does from a state that it visits. -/
theorem Visits.whileLoop {x y : α × σ} (v : Visits cond body x y) {n : ℕ}
    {r : Except ε (α × σ)} (h : Loop.whileLoop cond body n y.1 y.2 = some r) :
    ∃ m, Loop.whileLoop cond body m x.1 x.2 = some r := by
  induction v with
  | refl x => exact ⟨n, h⟩
  | step hc hb _ ih =>
    obtain ⟨m, hm⟩ := ih h
    exact ⟨m + 1, (whileLoop_next hc hb m).trans hm⟩

/-- A state that it visits leads to the same end. -/
theorem Visits.whileLoop_end {x y : α × σ} (v : Visits cond body x y) :
    ∀ {n : ℕ} {r : Except ε (α × σ)}, Loop.whileLoop cond body n x.1 x.2 = some r →
      ∃ m, Loop.whileLoop cond body m y.1 y.2 = some r := by
  induction v with
  | refl x => exact fun h => ⟨_, h⟩
  | step hc hb _ ih =>
    intro n r h
    cases n with
    | zero => simp [Loop.whileLoop, hc] at h
    | succ n =>
      rw [whileLoop_next hc hb] at h
      exact ih h

/-- **A loop ends** where it comes to a state whose test fails, or to one whose body fails or stops. -/
theorem whileLoop_ends {n : ℕ} {a : α} {s : σ} {r : Except ε (α × σ)}
    (h : whileLoop cond body n a s = some r) :
    ∃ y, Visits cond body (a, s) y ∧ ((cond y.1 y.2 = false ∧ r = .ok y) ∨
      (cond y.1 y.2 = true ∧ ((∃ e, body y.1 y.2 = .error e ∧ r = .error e) ∨
        ∃ a' s', body y.1 y.2 = .ok (.stop a', s') ∧ r = .ok (a', s')))) := by
  refine whileLoop_induction (motive := fun _ a s r => ∃ y, Visits cond body (a, s) y ∧
    ((cond y.1 y.2 = false ∧ r = .ok y) ∨
      (cond y.1 y.2 = true ∧ ((∃ e, body y.1 y.2 = .error e ∧ r = .error e) ∨
        ∃ a' s', body y.1 y.2 = .ok (.stop a', s') ∧ r = .ok (a', s'))))) ?_ ?_ ?_ ?_ h
  · intro n a s hc
    exact ⟨_, .refl _, .inl ⟨hc, rfl⟩⟩
  · intro n a s e hc hb
    exact ⟨_, .refl _, .inr ⟨hc, .inl ⟨e, hb, rfl⟩⟩⟩
  · intro n a s a' s' hc hb
    exact ⟨_, .refl _, .inr ⟨hc, .inr ⟨a', s', hb, rfl⟩⟩⟩
  · rintro n a s a' s' r hc hb ⟨y, hv, hy⟩
    exact ⟨y, .step hc hb hv, hy⟩

/-- **A loop that ends well** ends in a visited state whose test fails, or by a stop from one. -/
theorem whileLoop_ok {n : ℕ} {a a' : α} {s s' : σ}
    (h : whileLoop cond body n a s = some (.ok (a', s'))) :
    ∃ y, Visits cond body (a, s) y ∧ ((cond y.1 y.2 = false ∧ y = (a', s')) ∨
      (cond y.1 y.2 = true ∧ body y.1 y.2 = .ok (.stop a', s'))) := by
  obtain ⟨y, hv, ⟨hc, hr⟩ | ⟨hc, ⟨e, -, hr⟩ | ⟨a1, s1, hb, hr⟩⟩⟩ := whileLoop_ends h
  · exact ⟨y, hv, .inl ⟨hc, (Except.ok.inj hr).symm⟩⟩
  · cases hr
  · cases hr
    exact ⟨y, hv, .inr ⟨hc, hb⟩⟩

/-- **A loop without stops** that ends well comes from each state that it visits to its end. -/
theorem Visits.to_end {x y z : α × σ} (v : Visits cond body x y) {n : ℕ}
    (hnext : ∀ a s a' s', body a s ≠ .ok (.stop a', s'))
    (h : Loop.whileLoop cond body n x.1 x.2 = some (.ok z)) :
    Visits cond body y z ∧ cond z.1 z.2 = false := by
  obtain ⟨m, hm⟩ := v.whileLoop_end h
  obtain ⟨w, hw, ⟨hc, rfl⟩ | ⟨-, hstop⟩⟩ := whileLoop_ok hm
  · exact ⟨hw, hc⟩
  · exact absurd hstop (hnext _ _ _ _)

/-- A loop that fails comes to a state where the body fails. -/
theorem whileLoop_fails {n : ℕ} {a : α} {s : σ} {e : ε}
    (h : whileLoop cond body n a s = some (.error e)) :
    ∃ y, Visits cond body (a, s) y ∧ cond y.1 y.2 = true ∧ body y.1 y.2 = .error e := by
  obtain ⟨y, hv, ⟨-, hr⟩ | ⟨hc, ⟨e', hb, hr⟩ | ⟨a1, s1, -, hr⟩⟩⟩ := whileLoop_ends h
  · cases hr
  · cases hr
    exact ⟨y, hv, hc, hb⟩
  · cases hr

/-- **A loop fails** exactly if it comes to a state where the body does. -/
theorem whileLoop_error_iff {n : ℕ} {a : α} {s : σ} {x : Except ε (α × σ)} {e : ε}
    (hx : whileLoop cond body n a s = some x) :
    x = .error e ↔
      ∃ y, Visits cond body (a, s) y ∧ cond y.1 y.2 = true ∧ body y.1 y.2 = .error e := by
  constructor
  · rintro rfl
    exact whileLoop_fails hx
  · rintro ⟨y, hv, hc, hb⟩
    obtain ⟨m, hm⟩ := hv.whileLoop (whileLoop_error hc hb 0)
    exact whileLoop_unique hx hm

/-! ### What a loop puts out -/

/-- What the iterations put out, one after another, if an iteration at `a` and `s` puts out
`out a s`. -/
def whileTrace {β : Type} (cond : α → σ → Bool) (body : α → StateT σ (Except ε) (Flow α))
    (out : α → σ → List β) : ℕ → α → σ → List β
  | 0, _, _ => []
  | n + 1, a, s =>
    if cond a s then
      match body a s with
      | .error _ => []
      | .ok (.stop _, _) => out a s
      | .ok (.next a', s') => out a s ++ whileTrace cond body out n a' s'
    else []

/-- **An accumulator takes the trace**, if each iteration takes what it puts out; `I` is the
invariant of the state. -/
theorem whileLoop_trace {β γ : Type} {out : α → σ → List β} {f : α → γ} {g : γ → β → γ} {I : σ → Prop}
    (hnext : ∀ a s a' s', I s → body a s = .ok (.next a', s') →
      I s' ∧ f a' = (out a s).foldl g (f a))
    (hstop : ∀ a s a' s', I s → body a s = .ok (.stop a', s') → f a' = (out a s).foldl g (f a))
    {n : ℕ} {a a' : α} {s s' : σ} (hs : I s)
    (h : whileLoop cond body n a s = some (.ok (a', s'))) :
    f a' = (whileTrace cond body out n a s).foldl g (f a) := by
  have htrace := whileLoop_induction (motive := fun n a s r => ∀ x, r = .ok x → I s →
    f x.1 = (whileTrace cond body out n a s).foldl g (f a)) ?_ ?_ ?_ ?_ h
  · exact htrace _ rfl hs
  · rintro (_ | n) a s hc _ ⟨⟩ _
    · rfl
    · simp [whileTrace, hc]
  · rintro n a s e _ _ _ ⟨⟩
  · rintro n a s a' s' hc hb _ ⟨⟩ hs
    simp only [whileTrace, hc, hb, if_true]
    exact hstop _ _ _ _ hs hb
  · rintro n a s a1 s1 r hc hb ih x hr hs
    obtain ⟨hs1, hfirst⟩ := hnext a s a1 s1 hs hb
    simp only [whileTrace, hc, hb, if_true]
    rw [List.foldl_append, ← hfirst, ih x hr hs1]

/-- **A loop whose output only grows**, by the iterations at the states with the property `P`, ends with
the output that it has exactly if it comes to no such state; `I` is the invariant. -/
theorem whileLoop_output {β : Type} (out : α → List β) (I P : σ → Prop)
    (hI : ∀ a s a' s', I s → body a s = .ok (.next a', s') → I s')
    (hnext : ∀ a s a' s', I s → body a s = .ok (.next a', s') →
      ∃ new, out a' = out a ++ new ∧ (new = [] ↔ ¬ P s))
    (hstop : ∀ a s a' s', I s → body a s = .ok (.stop a', s') → out a' = out a ∧ ¬ P s)
    {n : ℕ} {a a' : α} {s s' : σ} (hs : I s)
    (h : whileLoop cond body n a s = some (.ok (a', s'))) :
    ∃ new, out a' = out a ++ new ∧
      (new = [] ↔ ∀ y, Visits cond body (a, s) y → cond y.1 y.2 = true → ¬ P y.2) := by
  have hgrows := whileLoop_induction (motive := fun _ a s r => ∀ x, r = .ok x → I s →
    ∃ new, out x.1 = out a ++ new ∧
      (new = [] ↔ ∀ y, Visits cond body (a, s) y → cond y.1 y.2 = true → ¬ P y.2)) ?_ ?_ ?_ ?_ h
  · exact hgrows _ rfl hs
  · rintro n a s hc _ ⟨⟩ _
    refine ⟨[], (List.append_nil _).symm, iff_of_true rfl fun y v hy => ?_⟩
    rw [v.eq_of_false hc, hc] at hy
    cases hy
  · rintro n a s e _ _ _ ⟨⟩
  · rintro n a s a' s' hc hb _ ⟨⟩ hs
    obtain ⟨hout, hP⟩ := hstop a s a' s' hs hb
    refine ⟨[], by rw [hout, List.append_nil], iff_of_true rfl fun y v hy => ?_⟩
    rw [v.eq_of_stop hb]
    exact hP
  · rintro n a s a1 s1 r hc hb ih x hr hs
    obtain ⟨first, hfirst, hP⟩ := hnext a s a1 s1 hs hb
    obtain ⟨later, hlater, hlater'⟩ := ih x hr (hI a s a1 s1 hs hb)
    refine ⟨first ++ later, by rw [hlater, hfirst, List.append_assoc], ?_⟩
    rw [List.append_eq_nil_iff, hP, hlater']
    constructor
    · rintro ⟨h1, h2⟩ y v hy
      rcases v.of_next hb with rfl | v
      · exact h1
      · exact h2 y v hy
    · exact fun h => ⟨h (a, s) (.refl _) hc, fun y v => h y (.step hc hb v)⟩

/-! ### Loops over tokens -/

section
variable {τ : Type} {pos : List τ → σ} {next : List τ → Option (List τ)} {more : List τ → Bool}

/-- From the tokens, `next` comes to others, while there is more to do. -/
inductive Walks (next : List τ → Option (List τ)) (more : List τ → Bool) : List τ → List τ → Prop
  | refl (cs : List τ) : Walks next more cs cs
  | step {cs ds es : List τ} (hm : more cs = true) (hn : next cs = some ds)
      (w : Walks next more ds es) : Walks next more cs es

/-- **Where a loop comes** is where its steps over the tokens come, whatever it carries. -/
theorem visits_iff_walks (hpos : Function.Injective pos)
    (hnext : ∀ a cs ds, next cs = some ds → ∃ a', body a (pos cs) = .ok (.next a', pos ds))
    (hbody : ∀ a cs a' s', body a (pos cs) = .ok (.next a', s') →
      ∃ ds, next cs = some ds ∧ s' = pos ds)
    (hcond : ∀ a cs, cond a (pos cs) = more cs) {a : α} {cs es : List τ} :
    (∃ a', Visits cond body (a, pos cs) (a', pos es)) ↔ Walks next more cs es := by
  constructor
  · rintro ⟨a', v⟩
    have hwalks : ∀ {x y : α × σ}, Visits cond body x y → ∀ {cs}, x.2 = pos cs → y.2 = pos es →
        Walks next more cs es := by
      intro x y v
      induction v with
      | refl x =>
        intro cs hx hy
        obtain rfl := hpos (hx.symm.trans hy)
        exact .refl cs
      | step hc hb _ ih =>
        rintro cs rfl hy
        obtain ⟨ds, hds, rfl⟩ := hbody _ _ _ _ hb
        exact .step (by rwa [← hcond]) hds (ih rfl hy)
    exact hwalks v rfl rfl
  · intro w
    induction w generalizing a with
    | refl cs => exact ⟨a, .refl _⟩
    | step hm hn _ ih =>
      obtain ⟨a1, hb⟩ := hnext a _ _ hn
      obtain ⟨a', v⟩ := ih (a := a1)
      exact ⟨a', .step (by rwa [hcond]) hb v⟩

end

/-! ### Loops up to a mark -/

section
variable {τ : Type} {pos : List τ → σ} {next : List τ → Option (List τ)} {stop : List τ}

/-- From the tokens, `next` reaches exactly `stop`: it does not step over it. -/
inductive Lands (next : List τ → Option (List τ)) (stop : List τ) : List τ → Prop
  | done : Lands next stop stop
  | step {cs ds : List τ} (hl : stop.length < cs.length) (hn : next cs = some ds)
      (h : Lands next stop ds) : Lands next stop cs

theorem Lands.length_le {cs : List τ} (h : Lands next stop cs) : stop.length ≤ cs.length := by
  cases h with
  | done => exact Nat.le_refl _
  | step hl _ _ => omega

/-- **A loop that runs while more than `stop` is left** ends at `stop` exactly if its steps land
there. -/
theorem whileLoop_ok_iff_lands {n : ℕ} (hpos : Function.Injective pos)
    (hbody : ∀ a cs, cs ≠ [] →
      Leaves pos (body a) cs (next cs) fun flow => ∃ a', flow = .next a')
    (hcond : ∀ a cs, cs.length ≤ n → cond a (pos cs) = decide (stop.length < cs.length))
    (hshort : ∀ cs ds, next cs = some ds → ds.length ≤ cs.length) :
    ∀ {fuel : ℕ} {a : α} {cs : List τ} {x : Except ε (α × σ)}, cs.length ≤ n →
      whileLoop cond body fuel a (pos cs) = some x →
        ((∃ a', x = .ok (a', pos stop)) ↔ Lands next stop cs)
  | fuel, a, cs, x, hn, hx => by
    by_cases hl : stop.length < cs.length
    · have hc : cond a (pos cs) = true := by rw [hcond a cs hn, decide_eq_true hl]
      have hb := hbody a cs (by rintro rfl; simp at hl)
      obtain ⟨fuel, rfl⟩ : ∃ m, fuel = m + 1 := by
        cases fuel with
        | zero => simp [whileLoop, hc] at hx
        | succ m => exact ⟨m, rfl⟩
      cases hnext : next cs with
      | none =>
        rw [hnext] at hb
        obtain ⟨e, he⟩ := hb
        rw [whileLoop_error hc he] at hx
        cases hx
        constructor
        · rintro ⟨_, ⟨⟩⟩
        · intro h
          cases h with
          | done => omega
          | step _ hs _ => rw [hnext] at hs; cases hs
      | some ds =>
        rw [hnext] at hb
        obtain ⟨_, hd, a', rfl⟩ := hb
        rw [whileLoop_next hc hd] at hx
        have hds := hshort cs ds hnext
        rw [whileLoop_ok_iff_lands hpos hbody hcond hshort (hds.trans hn) hx]
        refine ⟨.step hl hnext, fun h => ?_⟩
        cases h with
        | done => omega
        | step _ hs h =>
          rw [hnext] at hs
          cases hs
          exact h
    · rw [whileLoop_false (by rw [hcond a cs hn, decide_eq_false hl])] at hx
      cases hx
      refine ⟨fun ⟨_, h⟩ => ?_, fun h => ?_⟩
      · have hs : pos cs = pos stop := by injection h with h; exact congrArg Prod.snd h
        rw [hpos hs]
        exact .done
      · cases h with
        | done => exact ⟨a, rfl⟩
        | step hs _ _ => omega

/-- A loop whose steps land at `stop` never steps over it. -/
theorem Visits.of_lands {n : ℕ}
    (hbody : ∀ a cs, cs ≠ [] →
      Leaves pos (body a) cs (next cs) fun flow => ∃ a', flow = .next a')
    (hcond : ∀ a cs, cs.length ≤ n → cond a (pos cs) = decide (stop.length < cs.length))
    (hshort : ∀ cs ds, next cs = some ds → ds.length ≤ cs.length) {a : α} {cs : List τ}
    {y : α × σ} (v : Visits cond body (a, pos cs) y) (hn : cs.length ≤ n)
    (h : Lands next stop cs) : ∃ ds, y.2 = pos ds ∧ Lands next stop ds := by
  have hinv := v.invariant (P := fun _ s => ∃ ds, s = pos ds ∧ ds.length ≤ n ∧ Lands next stop ds)
    ?_ ⟨cs, rfl, hn, h⟩
  · obtain ⟨ds, hd, -, hl⟩ := hinv
    exact ⟨ds, hd, hl⟩
  · rintro a s a' s' ⟨ds, rfl, hdn, hl⟩ hc hb
    rw [hcond a ds hdn, decide_eq_true_eq] at hc
    have hleave := hbody a ds (by rintro rfl; simp at hc)
    cases hl with
    | done => omega
    | step _ hs hl' =>
      rw [hs] at hleave
      obtain ⟨_, hd, _, rfl⟩ := hleave
      rw [hb] at hd
      cases hd
      exact ⟨_, rfl, (hshort _ _ hs).trans hdn, hl'⟩

end

/-! ### Loops that do not look ahead -/

section
variable {τ : Type} {pos : List τ → σ} {cond' : α → σ → Bool}

/-- A loop comes to no more tokens than there are. -/
theorem Visits.length_le (hlocal : ∀ a, Local pos (body a)) {a : α} {bs : List τ} {y : α × σ}
    (v : Visits cond body (a, pos bs) y) : ∃ cs, cs.length ≤ bs.length ∧ y.2 = pos cs := by
  refine v.invariant (P := fun _ t => ∃ cs, cs.length ≤ bs.length ∧ t = pos cs) ?_
    ⟨bs, Nat.le_refl _, rfl⟩
  rintro a s a' s' ⟨cs, hcs, rfl⟩ - hb
  obtain ⟨ds, hds, rfl⟩ := (hlocal a).length_le hb
  exact ⟨ds, hds.trans hcs, rfl⟩

/-- **A loop that comes to `s`** comes to fewer tokens in the same way, if its test lets it. -/
theorem Visits.of_local (hpos : Function.Injective pos) (hlocal : ∀ a, Local pos (body a))
    (hlt : ∀ a cs a' ds, body a (pos cs) = .ok (.next a', pos ds) → ds.length < cs.length)
    {s s' : List τ} (hs : s'.length ≤ s.length) {n : ℕ}
    (hcond : ∀ a cs, 0 < cs.length → cs.length ≤ n → cond a (pos (cs ++ s)) = true →
      cond' a (pos (cs ++ s')) = true) {x y : α × σ} (v : Visits cond body x y) :
    ∀ {a b : α} {bs : List τ}, bs.length ≤ n → x = (a, pos (bs ++ s)) → y = (b, pos s) →
      Visits cond' body (a, pos (bs ++ s')) (b, pos s') := by
  induction v with
  | refl x =>
    rintro a b bs - rfl hy
    obtain ⟨rfl, hbs⟩ := Prod.mk.inj hy
    rw [List.append_left_eq_self.mp (hpos hbs)]
    exact .refl _
  | @step a a' t t' y hc hb v ih =>
    rintro _ b bs hbs ⟨⟩ rfl
    rcases hlocal a bs s s' _ t' hs hb with ⟨cs, hcs, rfl, hb'⟩ | ⟨r, hr, rfl⟩
    · have hpos : 0 < bs.length := by
        have := hlt _ _ _ _ hb
        rw [List.length_append, List.length_append] at this
        omega
      exact .step (hcond a bs hpos hbs hc) hb' (ih (hcs.trans hbs) rfl rfl)
    · obtain ⟨cs, hcs, hscs⟩ := v.length_le hlocal
      rw [hpos hscs] at hr
      omega

end

/-! ### Items one after another -/

section
variable {τ ι : Type} {pos : List τ → σ} {bytes : ι → List τ}

/-- **What the body makes of the items**, started with `a`: it takes one after another and ends with
`some a'`; or it fails on one of them, whatever follows, and ends with `none`. -/
inductive Takes (pos : List τ → σ) (body : α → StateT σ (Except ε) (Flow α)) (bytes : ι → List τ) :
    α → List ι → Option α → Prop
  | nil (a : α) : Takes pos body bytes a [] (some a)
  | cons {a a' : α} {i : ι} {is : List ι} {o : Option α}
      (hr : Reads pos (body a) (bytes i) (.next a')) (t : Takes pos body bytes a' is o) :
      Takes pos body bytes a (i :: is) o
  | fail {a : α} {i : ι} {is : List ι} (hf : ∀ rest, ∃ e, body a (pos (bytes i ++ rest)) = .error e) :
      Takes pos body bytes a (i :: is) none

theorem Takes.exists : ∀ {is : List ι}, (∀ i ∈ is, ∀ a,
    (∃ a', Reads pos (body a) (bytes i) (.next a')) ∨
      ∀ rest, ∃ e, body a (pos (bytes i ++ rest)) = .error e) →
    ∀ a, ∃ o, Takes pos body bytes a is o
  | [], _, a => ⟨_, .nil a⟩
  | i :: is, h, a => by
    rcases h i List.mem_cons_self a with ⟨a', hr⟩ | hf
    · obtain ⟨o, t⟩ := Takes.exists (fun j hj => h j (List.mem_cons_of_mem i hj)) a'
      exact ⟨o, .cons hr t⟩
    · exact ⟨none, .fail hf⟩

/-- Items that change nothing can be left out. -/
theorem Takes.filter {p : ι → Bool} {a : α} {is : List ι} {o : Option α}
    (t : Takes pos body bytes a is o)
    (hp : ∀ i ∈ is, p i = false → ∀ a, Reads pos (body a) (bytes i) (.next a)) :
    Takes pos body bytes a (is.filter p) o := by
  induction t with
  | nil a => exact .nil a
  | @cons a a' i is o hr _ ih =>
    have ih := ih fun j hj => hp j (List.mem_cons_of_mem i hj)
    cases hi : p i with
    | true =>
      rw [List.filter_cons_of_pos hi]
      exact .cons hr ih
    | false =>
      have hsame := (hp i List.mem_cons_self hi a []).symm.trans (hr [])
      obtain rfl : a = a' := Flow.next.inj (congrArg Prod.fst (Except.ok.inj hsame))
      rwa [List.filter_cons_of_neg (by simp [hi])]
  | @fail a i is hf =>
    cases hi : p i with
    | true =>
      rw [List.filter_cons_of_pos hi]
      exact .fail hf
    | false =>
      obtain ⟨e, he⟩ := hf []
      rw [hp i List.mem_cons_self hi a []] at he
      cases he

/-- Before an item, the test holds. -/
theorem cond_of_more {cond : α → σ → Bool} {rest : List τ} {a : α} {i : ι} {is : List ι}
    (hne : bytes i ≠ [])
    (hcond : ∀ a cs, cs <:+ (i :: is).flatMap bytes → cond a (pos (cs ++ rest)) = !cs.isEmpty) :
    cond a (pos ((i :: is).flatMap bytes ++ rest)) = true := by
  rw [hcond a _ (List.suffix_refl _), List.flatMap_cons]
  simp [hne]

/-- **A loop over the items**, when the test asks whether something of them is left. -/
theorem Takes.whileLoop {cond : α → σ → Bool} {rest : List τ} {a : α} {is : List ι} {o : Option α}
    (t : Takes pos body bytes a is o) (hne : ∀ i ∈ is, bytes i ≠ [])
    (hcond : ∀ a cs, cs <:+ is.flatMap bytes → cond a (pos (cs ++ rest)) = !cs.isEmpty) :
    ∀ {n : ℕ}, is.length ≤ n →
      (∀ a', o = some a' →
        Loop.whileLoop cond body n a (pos (is.flatMap bytes ++ rest)) = some (.ok (a', pos rest))) ∧
      (o = none →
        ∃ e, Loop.whileLoop cond body n a (pos (is.flatMap bytes ++ rest)) = some (.error e)) := by
  induction t with
  | nil a =>
    intro n _
    have hc : cond a (pos rest) = false := hcond a [] (List.suffix_refl _)
    refine ⟨?_, nofun⟩
    rintro _ ⟨⟩
    exact whileLoop_false hc n
  | @cons a a' i is o hr _ ih =>
    intro n hn
    obtain ⟨n, rfl⟩ : ∃ m, n = m + 1 := ⟨n - 1, by rw [List.length_cons] at hn; omega⟩
    have hc := cond_of_more (a := a) (hne i List.mem_cons_self) hcond
    have hr' := hr (is.flatMap bytes ++ rest)
    rw [← List.append_assoc, ← List.flatMap_cons] at hr'
    rw [whileLoop_next hc hr']
    refine ih (fun j hj => hne j (List.mem_cons_of_mem i hj)) (fun a cs hs => ?_) (by simpa using hn)
    exact hcond a cs (hs.trans (by rw [List.flatMap_cons]; exact List.suffix_append _ _))
  | @fail a i is hf =>
    intro n hn
    obtain ⟨n, rfl⟩ : ∃ m, n = m + 1 := ⟨n - 1, by rw [List.length_cons] at hn; omega⟩
    have hc := cond_of_more (a := a) (hne i List.mem_cons_self) hcond
    obtain ⟨e, he⟩ := hf (is.flatMap bytes ++ rest)
    rw [← List.append_assoc, ← List.flatMap_cons] at he
    exact ⟨nofun, fun _ => ⟨e, whileLoop_error hc he n⟩⟩

end

end Dabugger.Lib.Loop
