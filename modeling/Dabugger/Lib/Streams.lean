import Dabugger.Lib.Log

/-! # Streams over a file

A stream is the contents of a file and a position. `fread` and `fseek` are those of C: a read takes what
is there, and counts complete items; a seek may go behind the end, but not before the start.

* `slice`: the elements from an offset on; `slice_slice`.
* `Yields`: what a computation on the stream returns and where it leaves the position, if it returns; one
  rule for each way to build a computation. The file does not change.
* `yields_readItems`: a read that has to be complete returns a slice of the file.
* `Accepts`: where a computation on the stream returns at all, with one rule for each way to build it;
  `accepts_readItems`: the file has to be long enough, and items without elements are never complete.
* `EmitsIff P`: where everything that a computation with a log logs has the property `P`. -/

namespace Dabugger.Lib.Streams

open Dabugger.Lib.Log

variable {τ ε α β : Type}

/-! ### Slices -/

/-- `n` elements from an offset on, as far as they are there. -/
def slice (contents : List τ) (offset n : ℕ) : List τ := (contents.drop offset).take n

theorem length_slice_le (contents : List τ) (offset n : ℕ) :
    (slice contents offset n).length ≤ n := List.length_take_le _ _

theorem length_slice {contents : List τ} {offset n : ℕ} (h : offset + n ≤ contents.length) :
    (slice contents offset n).length = n := by
  rw [slice, List.length_take, List.length_drop]
  omega

/-- A slice of a slice. -/
theorem slice_slice (contents : List τ) (offset : ℕ) {offset' n n' : ℕ} (h : offset' + n' ≤ n) :
    slice (slice contents offset n) offset' n' = slice contents (offset + offset') n' := by
  unfold slice
  rw [List.drop_take, List.drop_drop, List.take_take, Nat.min_eq_left (by omega)]

/-- Two slices, the second behind the first. -/
theorem slice_append (contents : List τ) (offset n m : ℕ) :
    slice contents offset n ++ slice contents (offset + n) m = slice contents offset (n + m) := by
  unfold slice
  rw [← List.drop_drop, List.take_add]

theorem getElem?_slice (contents : List τ) (offset : ℕ) {i n : ℕ} (h : i < n) :
    (slice contents offset n)[i]? = contents[offset + i]? := by
  rw [slice, List.getElem?_take_of_lt h, List.getElem?_drop]

/-! ### Streams -/

/-- A file and the position in it. -/
structure Stream (τ : Type) where
  contents : List τ
  position : ℕ

/-- A computation on a stream, which may fail. -/
abbrev Reading (τ ε : Type) := StateT (Stream τ) (Except ε)

/-- `fread`: what is read, and the number of complete items. -/
def fread (size count : ℕ) : Reading τ ε (List τ × ℕ) := fun s =>
  let items := slice s.contents s.position (size * count)
  .ok ((items, items.length / size), { s with position := s.position + items.length })

/-- `fseek` to an offset from the start; whether it succeeds. -/
def fseek (offset : ℤ) : Reading τ ε Bool := fun s =>
  if offset < 0 then .ok (false, s) else .ok (true, { s with position := offset.toNat })

/-- Fail if the condition does not hold. -/
def require (e : ε) (p : Prop) [Decidable p] : Reading τ ε Unit := if p then pure () else throw e

/-- `fread`, and fail if not all items have been read. -/
def readItems (e : ε) (size count : ℕ) : Reading τ ε (List τ) := do
  let (items, readCount) ← fread size count
  require e (readCount = count)
  return items

/-- `fseek`, and fail if it does not succeed. -/
def seekTo (e : ε) (offset : ℤ) : Reading τ ε Unit := do
  let success ← fseek offset
  require e (success = true)

/-! ### What a computation yields -/

/-- **A computation that returns** leaves the file as it is; `Φ` says what it returns, and where the
position is then. -/
def Yields (contents : List τ) (position : ℕ) (p : Reading τ ε α) (Φ : α → ℕ → Prop) : Prop :=
  ∀ a s, p ⟨contents, position⟩ = .ok (a, s) → s.contents = contents ∧ Φ a s.position

section
variable {contents : List τ} {position : ℕ} {p : Reading τ ε α} {f : α → Reading τ ε β}
  {Φ : α → ℕ → Prop} {Ψ : β → ℕ → Prop}

theorem Yields.pure {a : α} (h : Φ a position) :
    Yields contents position (pure a : Reading τ ε α) Φ := by
  rintro _ _ ⟨⟩
  exact ⟨rfl, h⟩

theorem Yields.throw (e : ε) : Yields contents position (throw e : Reading τ ε α) Φ := by
  rintro _ _ ⟨⟩

theorem Yields.bind (h : Yields contents position p Φ)
    (hf : ∀ a position', Φ a position' → Yields contents position' (f a) Ψ) :
    Yields contents position (p >>= f) Ψ := by
  intro b s hrun
  cases hp : p ⟨contents, position⟩ with
  | error e =>
    rw [show (p >>= f) ⟨contents, position⟩ = p ⟨contents, position⟩ >>= fun x => f x.1 x.2 from rfl,
      hp] at hrun
    cases hrun
  | ok x =>
    obtain ⟨a, ⟨contents', position'⟩⟩ := x
    obtain ⟨rfl, ha⟩ := h a _ hp
    rw [show (p >>= f) ⟨contents', position⟩ = p ⟨contents', position⟩ >>= fun x => f x.1 x.2 from rfl,
      hp] at hrun
    exact hf a position' ha b s hrun

theorem Yields.mono {Φ' : α → ℕ → Prop} (h : Yields contents position p Φ)
    (hΦ : ∀ a position', Φ a position' → Φ' a position') : Yields contents position p Φ' := by
  intro a s hrun
  obtain ⟨hs, ha⟩ := h a s hrun
  exact ⟨hs, hΦ a _ ha⟩

/-- A computation that does not use the stream. -/
theorem Yields.lift {x : Except ε α} (h : ∀ a, x = .ok a → Φ a position) :
    Yields contents position (liftM x : Reading τ ε α) Φ := by
  intro a s hrun
  cases x with
  | error e => cases hrun
  | ok a' =>
    cases hrun
    exact ⟨rfl, h _ rfl⟩

end

section
variable {contents : List τ} {position : ℕ}

theorem yields_require (e : ε) (p : Prop) [Decidable p] :
    Yields contents position (require e p) fun _ position' => p ∧ position' = position := by
  unfold require
  split
  · rename_i h
    exact .pure ⟨h, rfl⟩
  · exact .throw e

/-- Where all items are counted, all elements are there. -/
theorem length_of_div_eq {size count length : ℕ} (h : length ≤ size * count)
    (hc : length / size = count) : length = size * count := by
  subst hc
  exact Nat.le_antisymm h (Nat.mul_div_le length size)

theorem yields_fread (size count : ℕ) :
    Yields (ε := ε) contents position (fread size count) fun r position' =>
      r.1 = slice contents position (size * count) ∧ r.2 = r.1.length / size ∧
        position' = position + r.1.length := by
  rintro _ _ ⟨⟩
  exact ⟨rfl, rfl, rfl, rfl⟩

/-- **A complete read** returns a slice of the file, and leaves the position behind it. -/
theorem yields_readItems (e : ε) (size count : ℕ) :
    Yields contents position (readItems e size count) fun items position' =>
      items = slice contents position (size * count) ∧ items.length = size * count ∧
        position' = position + size * count := by
  refine (yields_fread size count).bind ?_
  rintro ⟨items, readCount⟩ position' ⟨hitems, hcount, hposition⟩
  dsimp only at hitems hcount hposition ⊢
  refine (yields_require e _).bind ?_
  rintro _ _ ⟨hread, rfl⟩
  have hle : items.length ≤ size * count := by
    rw [hitems]
    exact length_slice_le _ _ _
  have hlen := length_of_div_eq hle (hcount.symm.trans hread)
  exact .pure ⟨hitems, hlen, by rw [hposition, hlen]⟩

theorem yields_seekTo (e : ε) (offset : ℤ) :
    Yields contents position (seekTo e offset) fun _ position' =>
      0 ≤ offset ∧ position' = offset.toNat := by
  have hseek : Yields contents position (fseek offset : Reading τ ε Bool) fun success position' =>
      success = true → 0 ≤ offset ∧ position' = offset.toNat := by
    rintro success s hrun
    unfold fseek at hrun
    split at hrun
    · cases hrun
      exact ⟨rfl, nofun⟩
    · rename_i hneg
      cases hrun
      exact ⟨rfl, fun _ => ⟨by omega, rfl⟩⟩
  refine hseek.bind fun success position' h => ?_
  refine (yields_require e _).mono ?_
  rintro _ _ ⟨hsuccess, rfl⟩
  exact h hsuccess

end

/-! ### Where a computation returns -/

/-- **The computation returns** if and only if `C` holds. -/
def Accepts (contents : List τ) (position : ℕ) (p : Reading τ ε α) (C : Prop) : Prop :=
  (∃ r, p ⟨contents, position⟩ = .ok r) ↔ C

section
variable {contents : List τ} {position : ℕ} {p : Reading τ ε α} {f : α → Reading τ ε β}
  {Φ : α → ℕ → Prop} {C D : Prop}

theorem Accepts.pure (a : α) : Accepts contents position (pure a : Reading τ ε α) True :=
  ⟨fun _ => trivial, fun _ => ⟨_, rfl⟩⟩

/-- A computation that does not use the stream. -/
theorem Accepts.lift (x : Except ε α) :
    Accepts contents position (liftM x : Reading τ ε α) (∃ a, x = .ok a) := by
  cases x with
  | error e => exact ⟨by rintro ⟨_, ⟨⟩⟩, by rintro ⟨_, ⟨⟩⟩⟩
  | ok a => exact ⟨fun _ => ⟨a, rfl⟩, fun _ => ⟨_, rfl⟩⟩

theorem Accepts.congr (h : Accepts contents position p C) (hCD : C ↔ D) :
    Accepts contents position p D := h.trans hCD

/-- A sequence returns where its first part does, and then the rest; the condition of the rest may rest
on that of the first part and on what it yields. -/
theorem Accepts.bind (h : Accepts contents position p C) (hΦ : Yields contents position p Φ)
    (hf : C → ∀ a position', Φ a position' → Accepts contents position' (f a) D) :
    Accepts contents position (p >>= f) (C ∧ D) := by
  have heq : (p >>= f) ⟨contents, position⟩ = p ⟨contents, position⟩ >>= fun x => f x.1 x.2 := rfl
  constructor
  · rintro ⟨r, hr⟩
    rw [heq] at hr
    cases hp : p ⟨contents, position⟩ with
    | error e =>
      rw [hp] at hr
      cases hr
    | ok x =>
      obtain ⟨a, ⟨contents', position'⟩⟩ := x
      obtain ⟨rfl, ha⟩ := hΦ a _ hp
      have hC : C := h.mp ⟨_, hp⟩
      rw [hp] at hr
      exact ⟨hC, (hf hC a position' ha).mp ⟨r, hr⟩⟩
  · rintro ⟨hC, hD⟩
    obtain ⟨⟨a, ⟨contents', position'⟩⟩, hp⟩ := h.mpr hC
    obtain ⟨rfl, ha⟩ := hΦ a _ hp
    obtain ⟨r, hr⟩ := (hf hC a position' ha).mpr hD
    refine ⟨r, ?_⟩
    rw [heq, hp]
    exact hr

end

section
variable {contents : List τ} {position : ℕ}

theorem accepts_require (e : ε) (p : Prop) [Decidable p] :
    Accepts contents position (require e p) p := by
  unfold require
  split
  · exact (Accepts.pure ()).congr (iff_of_true trivial ‹_›)
  · exact ⟨by rintro ⟨_, ⟨⟩⟩, fun h => absurd h ‹_›⟩

/-- All items are read if the file is long enough; items without elements are not counted. -/
theorem length_slice_div_iff (contents : List τ) (position size count : ℕ) :
    (slice contents position (size * count)).length / size = count ↔
      count = 0 ∨ 0 < size ∧ position + size * count ≤ contents.length := by
  have hlen : (slice contents position (size * count)).length =
      min (size * count) (contents.length - position) := by
    rw [slice, List.length_take, List.length_drop]
  constructor
  · intro h
    rw [or_iff_not_imp_left]
    intro hcount
    have hsize : 0 < size := by
      by_contra hzero
      rw [Nat.eq_zero_of_not_pos hzero, Nat.div_zero] at h
      exact hcount h.symm
    have hall := length_of_div_eq (length_slice_le _ _ _) h
    have hpos : 0 < size * count := Nat.mul_pos hsize (Nat.pos_of_ne_zero hcount)
    exact ⟨hsize, by omega⟩
  · rintro (rfl | ⟨hsize, hle⟩)
    · rw [hlen, Nat.mul_zero, Nat.zero_min, Nat.zero_div]
    · rw [hlen, Nat.min_eq_left (by omega), Nat.mul_div_cancel_left _ hsize]

theorem accepts_readItems (e : ε) (size count : ℕ) :
    Accepts contents position (readItems e size count)
      (count = 0 ∨ 0 < size ∧ position + size * count ≤ contents.length) := by
  have hfread : Accepts (ε := ε) contents position (fread size count) True :=
    ⟨fun _ => trivial, fun _ => ⟨_, rfl⟩⟩
  refine (hfread.bind (yields_fread size count) ?_).congr (and_iff_right trivial)
  rintro - ⟨items, readCount⟩ position' ⟨hitems, hcount, -⟩
  dsimp only at hitems hcount ⊢
  refine ((accepts_require e _).bind (yields_require e _) fun _ _ _ _ => .pure _).congr ?_
  rw [and_iff_left trivial, hcount, hitems, length_slice_div_iff]

theorem accepts_seekTo (e : ε) (offset : ℤ) :
    Accepts contents position (seekTo e offset) (0 ≤ offset) := by
  by_cases hneg : offset < 0
  · have hrun : (seekTo e offset : Reading τ ε Unit) ⟨contents, position⟩ = .error e := by
      unfold seekTo fseek
      simp only [bind, StateT.bind, if_pos hneg]
      rfl
    rw [Accepts, hrun]
    exact ⟨by rintro ⟨_, ⟨⟩⟩, fun h => by omega⟩
  · have hrun : (seekTo e offset : Reading τ ε Unit) ⟨contents, position⟩ =
        .ok ((), ⟨contents, offset.toNat⟩) := by
      unfold seekTo fseek
      simp only [bind, StateT.bind, if_neg hneg]
      rfl
    rw [Accepts, hrun]
    exact ⟨fun _ => by omega, fun _ => ⟨_, rfl⟩⟩

end

/-! ### Computations with a log -/

section
variable {ι : Type} {P : ι → Prop} {contents : List τ} {position : ℕ} {p : Reading τ ε α}
  {q : StateT (Stream τ) (Logged ι ε) α} {g : α → StateT (Stream τ) (Logged ι ε) β}
  {Φ : α → ℕ → Prop} {A C D : Prop}

/-- **Everything that is logged has the property** if and only if `C` holds. -/
def EmitsIff (P : ι → Prop) (contents : List τ) (position : ℕ)
    (q : StateT (Stream τ) (Logged ι ε) α) (C : Prop) : Prop :=
  Emits P (q ⟨contents, position⟩) ↔ C

theorem EmitsIff.congr (h : EmitsIff P contents position q C) (hCD : C ↔ D) :
    EmitsIff P contents position q D := h.trans hCD

theorem EmitsIff.pure (a : α) :
    EmitsIff P contents position (pure a : StateT (Stream τ) (Logged ι ε) α) True :=
  ⟨fun _ => trivial, fun _ => nofun⟩

theorem EmitsIff.unlogged (p : Reading τ ε α) :
    EmitsIff P contents position (unlogged p) True :=
  ⟨fun _ => trivial, fun _ => nofun⟩

theorem EmitsIff.emit_bind {i : ι} {g : Unit → StateT (Stream τ) (Logged ι ε) β}
    (h : P i → EmitsIff P contents position (g ()) D) :
    EmitsIff P contents position (emitItem i >>= g) (P i ∧ D) := by
  refine (emits_emit_bind_iff (f := fun _ => g () ⟨contents, position⟩)).trans ?_
  exact and_congr_right h

/-- A sequence: the rest counts where the first part returns. -/
theorem EmitsIff.bind (h : EmitsIff P contents position q C) (he : Erases q p)
    (ha : C → Accepts contents position p A) (hΦ : C → A → Yields contents position p Φ)
    (hg : C → A → ∀ a position', Φ a position' → EmitsIff P contents position' (g a) D) :
    EmitsIff P contents position (q >>= g) (C ∧ (A → D)) := by
  refine (emits_bind_iff (x := q ⟨contents, position⟩) (f := fun x => g x.1 x.2)).trans ?_
  rw [he]
  refine (and_congr_left' h).trans (and_congr_right fun hC => ?_)
  constructor
  · intro hrest hA
    obtain ⟨⟨a, ⟨contents', position'⟩⟩, hp⟩ := (ha hC).mpr hA
    obtain ⟨rfl, hpost⟩ := hΦ hC hA a _ hp
    exact (hg hC hA a position' hpost).mp (hrest _ hp)
  · rintro hD ⟨a, ⟨contents', position'⟩⟩ hp
    have hA := (ha hC).mp ⟨_, hp⟩
    obtain ⟨rfl, hpost⟩ := hΦ hC hA a _ hp
    exact (hg hC hA a position' hpost).mpr (hD hA)

/-- A result that is only changed on its way out. -/
theorem EmitsIff.bind_pure (h : EmitsIff P contents position q C) (f : α → β) :
    EmitsIff P contents position (q >>= fun a => Pure.pure (f a)) C := by
  have hlog := log_bind_pure (q ⟨contents, position⟩) fun x => (f x.1, x.2)
  unfold EmitsIff Emits at h ⊢
  rw [← h, ← hlog]
  rfl

/-- A part that logs nothing. -/
theorem EmitsIff.unlogged_bind (ha : Accepts contents position p A)
    (hΦ : Yields contents position p Φ)
    (hg : A → ∀ a position', Φ a position' → EmitsIff P contents position' (g a) D) :
    EmitsIff P contents position (Log.unlogged p >>= g) (A → D) :=
  ((EmitsIff.unlogged p).bind (.unlogged p) (fun _ => ha) (fun _ _ => hΦ) fun _ => hg).congr
    (and_iff_right trivial)

end

end Dabugger.Lib.Streams
