import Mathlib.Data.List.TakeWhile
import Mathlib.Data.Nat.Digits.Defs
import Mathlib.Tactic

/-! # Numbers as text, and `sscanf`

Numbers are written with the digits of a base (`numberText`) and read back (`number_numberText`).
`sscanf` runs the directives of its format one after another, up to the first one that fails, and gives
the values that have been assigned up to there.

* `scanNumber_digits`, `scanWord_word`: what a directive takes from a text that begins with digits, or
  with a word. -/

namespace Dabugger.Lib.Scanf

/-! ### Digits -/

/-- The digit that a letter is, as for `strtol`; 36 if it is none. -/
def digitValue (c : UInt8) : ℕ :=
  if 48 ≤ c.toNat ∧ c.toNat ≤ 57 then c.toNat - 48
  else if 65 ≤ c.toNat ∧ c.toNat ≤ 90 then c.toNat - 55
  else if 97 ≤ c.toNat ∧ c.toNat ≤ 122 then c.toNat - 87
  else 36

def isDigit (base : ℕ) (c : UInt8) : Bool := decide (digitValue c < base)

/-- The number that digits are. -/
def number (base : ℕ) (digits : List UInt8) : ℕ :=
  digits.foldl (fun n c => base * n + digitValue c) 0

/-- The letter of a digit below 16. -/
def digitChar (d : ℕ) : UInt8 := UInt8.ofNat (if d < 10 then 48 + d else 87 + d)

/-- A number with at least `width` digits. -/
def numberText (base width n : ℕ) : List UInt8 :=
  List.replicate (width - (Nat.digits base n).length) 48 ++ (Nat.digits base n).reverse.map digitChar

theorem digitValue_digitChar {d : ℕ} (h : d < 16) : digitValue (digitChar d) = d := by
  revert d
  decide

section
variable {base : ℕ} (hbase : 1 < base) (hle : base ≤ 16)
include hbase hle

theorem isDigit_numberText (width n : ℕ) : ∀ c ∈ numberText base width n, isDigit base c = true := by
  intro c hc
  rw [isDigit, decide_eq_true_eq]
  rcases List.mem_append.mp hc with hc | hc
  · rw [List.eq_of_mem_replicate hc]
    exact Nat.lt_of_lt_of_le (by decide) hbase.le
  · obtain ⟨d, hd, rfl⟩ := List.mem_map.mp hc
    have hlt := Nat.digits_lt_base hbase (List.mem_reverse.mp hd)
    rw [digitValue_digitChar (hlt.trans_le hle)]
    exact hlt

/-- **A number is read back.** -/
theorem number_numberText (width n : ℕ) : number base (numberText base width n) = n := by
  have hzeros : ∀ k, (List.replicate k (48 : UInt8)).foldl
      (fun n c => base * n + digitValue c) 0 = 0 := by
    intro k
    induction k with
    | zero => rfl
    | succ k ih => simpa [List.replicate_succ, show digitValue 48 = 0 from rfl] using ih
  have hdigits : ∀ ds : List ℕ, (∀ d ∈ ds, d < base) →
      ds.reverse.foldl (fun n d => base * n + digitValue (digitChar d)) 0 = Nat.ofDigits base ds := by
    intro ds hds
    induction ds with
    | nil => rfl
    | cons d ds ih =>
      rw [List.reverse_cons, List.foldl_append, ih fun d' hd' => hds d' (List.mem_cons_of_mem _ hd'),
        Nat.ofDigits_cons]
      simp only [List.foldl_cons, List.foldl_nil]
      rw [digitValue_digitChar ((hds d List.mem_cons_self).trans_le hle)]
      exact Nat.add_comm _ _
  rw [number, numberText, List.foldl_append, hzeros, List.foldl_map,
    hdigits _ fun d hd => Nat.digits_lt_base hbase hd, Nat.ofDigits_digits]

end

theorem numberText_ne_nil (base : ℕ) {width : ℕ} (hwidth : 0 < width) (n : ℕ) :
    numberText base width n ≠ [] := by
  intro h
  have hlen := congrArg List.length h
  simp only [numberText, List.length_append, List.length_replicate, List.length_map,
    List.length_reverse, List.length_nil] at hlen
  omega

/-! ### `sscanf` -/

def isspace (c : UInt8) : Bool := c = 32 || (9 ≤ c && c ≤ 13)

/-- A directive of a format. -/
inductive Directive where
  /-- white space -/
  | white
  /-- a letter that stands for itself -/
  | literal (c : UInt8)
  /-- `%lx` -/
  | hex
  /-- `%ld` -/
  | long
  /-- `%s` -/
  | word
  /-- `%*s` -/
  | skipWord
  deriving DecidableEq

/-- What is assigned. -/
inductive Value where
  | number (x : UInt64)
  | word (s : List UInt8)
  deriving DecidableEq

/-- The sign of a number, and the text behind it. -/
def scanSign : List UInt8 → Bool × List UInt8
  | [] => (false, [])
  | c :: s => if c = 45 then (true, s) else if c = 43 then (false, s) else (false, c :: s)

/-- The text behind `0x`, if it is there. -/
def dropHexMark : List UInt8 → List UInt8
  | c :: d :: s => if c = 48 ∧ (d = 120 ∨ d = 88) then s else c :: d :: s
  | s => s

/-- A number: its sign, its magnitude and the text behind it. -/
def scanNumber (base : ℕ) (s : List UInt8) : Option (Bool × ℕ × List UInt8) :=
  let (negative, s) := scanSign (s.dropWhile isspace)
  let s := if base = 16 then dropHexMark s else s
  let digits := s.takeWhile (isDigit base)
  if digits = [] then none
  else some (negative, number base digits, s.dropWhile (isDigit base))

/-- The value of `strtoul`. -/
def toUnsignedLong (negative : Bool) (n : ℕ) : UInt64 :=
  if 2 ^ 64 ≤ n then UInt64.ofNat (2 ^ 64 - 1)
  else if negative then -UInt64.ofNat n else UInt64.ofNat n

/-- The value of `strtol`. -/
def toSignedLong (negative : Bool) (n : ℕ) : UInt64 :=
  if negative then -UInt64.ofNat (min n (2 ^ 63)) else UInt64.ofNat (min n (2 ^ 63 - 1))

/-- A word: the letters up to white space, and the text behind them. -/
def scanWord (s : List UInt8) : Option (List UInt8 × List UInt8) :=
  let s := s.dropWhile isspace
  let word := s.takeWhile fun c => !isspace c
  if word = [] then none else some (word, s.dropWhile fun c => !isspace c)

/-- One directive: what it assigns, and the text behind what it takes; `none` if it fails. -/
def Directive.scan : Directive → List UInt8 → Option (List Value × List UInt8)
  | white, s => some ([], s.dropWhile isspace)
  | literal c, s => if s.head? = some c then some ([], s.tail) else none
  | hex, s => (scanNumber 16 s).map fun x => ([.number (toUnsignedLong x.1 x.2.1)], x.2.2)
  | long, s => (scanNumber 10 s).map fun x => ([.number (toSignedLong x.1 x.2.1)], x.2.2)
  | word, s => (scanWord s).map fun x => ([.word x.1], x.2)
  | skipWord, s => (scanWord s).map fun x => ([], x.2)

/-- `sscanf`: the values that are assigned. -/
def sscanf : List Directive → List UInt8 → List Value
  | [], _ => []
  | d :: format, s =>
    match d.scan s with
    | none => []
    | some (values, s) => values ++ sscanf format s

theorem sscanf_cons {d : Directive} {format : List Directive} {s s' : List UInt8}
    {values : List Value} (h : d.scan s = some (values, s')) :
    sscanf (d :: format) s = values ++ sscanf format s' := by
  rw [sscanf, h]

theorem sscanf_of_none {d : Directive} {format : List Directive} {s : List UInt8}
    (h : d.scan s = none) : sscanf (d :: format) s = [] := by
  rw [sscanf, h]

/-! ### What a directive takes -/

/-- The text goes on with a letter that has not the property, or ends. -/
def Stops (p : UInt8 → Bool) (s : List UInt8) : Prop := ∀ c, s.head? = some c → p c = false

theorem takeWhile_append_of_stops {p : UInt8 → Bool} {w s : List UInt8} (hw : ∀ c ∈ w, p c = true)
    (hs : Stops p s) : (w ++ s).takeWhile p = w ∧ (w ++ s).dropWhile p = s := by
  rw [List.takeWhile_append_of_pos hw, List.dropWhile_append_of_pos hw]
  cases s with
  | nil => simp
  | cons c s =>
    have hc : ¬ p c = true := by simpa using hs c rfl
    rw [List.takeWhile_cons_of_neg hc, List.dropWhile_cons_of_neg hc]
    exact ⟨List.append_nil w, rfl⟩

/-- Behind the letters with the property, the text goes on with one that has it not. -/
theorem stops_dropWhile (p : UInt8 → Bool) {s t : List UInt8} (ht : Stops p t) :
    Stops p (s.dropWhile p ++ t) := by
  intro c hc
  have hhead := List.head?_dropWhile_not p s
  rcases h : s.dropWhile p with _ | ⟨d, s'⟩
  · rw [h] at hc
    exact ht c hc
  · rw [h] at hc hhead
    cases hc
    exact hhead

/-- A digit is no white space and no sign. -/
theorem le_of_isDigit {base : ℕ} (hle : base ≤ 16) {c : UInt8} (h : isDigit base c = true) :
    48 ≤ c.toNat := by
  rw [isDigit, decide_eq_true_eq] at h
  by_contra hlt
  unfold digitValue at h
  rw [if_neg (by omega), if_neg (by omega), if_neg (by omega)] at h
  omega

theorem isspace_iff {c : UInt8} : isspace c = true ↔ c.toNat = 32 ∨ 9 ≤ c.toNat ∧ c.toNat ≤ 13 := by
  rw [isspace, Bool.or_eq_true, Bool.and_eq_true, decide_eq_true_eq, decide_eq_true_eq,
    decide_eq_true_eq, UInt8.le_iff_toNat_le, UInt8.le_iff_toNat_le, ← UInt8.toNat_inj]
  rfl

theorem isspace_of_isDigit {base : ℕ} (hle : base ≤ 16) {c : UInt8} (h : isDigit base c = true) :
    isspace c = false := by
  have hge := le_of_isDigit hle h
  rw [← Bool.not_eq_true, isspace_iff]
  omega

theorem scanSign_of_le {c : UInt8} (h : 48 ≤ c.toNat) (s : List UInt8) :
    scanSign (c :: s) = (false, c :: s) := by
  have hminus : c ≠ 45 := by
    rintro rfl
    simp at h
  have hplus : c ≠ 43 := by
    rintro rfl
    simp at h
  rw [scanSign, if_neg hminus, if_neg hplus]

/-- Digits do not begin with `0x`, unless it is behind them. -/
theorem dropHexMark_digits {base : ℕ} (hle : base ≤ 16) {c : UInt8} {digits s : List UInt8}
    (hdigits : ∀ d ∈ digits, isDigit base d = true)
    (hmark : ∀ d, s.head? = some d → d ≠ 120 ∧ d ≠ 88) :
    dropHexMark (c :: (digits ++ s)) = c :: (digits ++ s) := by
  have hnext : ∀ d t, digits ++ s = d :: t → d ≠ 120 ∧ d ≠ 88 := by
    intro d t hd
    rcases digits with _ | ⟨d', digits⟩
    · exact hmark d (by rw [show s = d :: t from hd]; rfl)
    · obtain rfl : d' = d := (List.cons.inj hd).1
      have hd' := hdigits d' List.mem_cons_self
      rw [isDigit, decide_eq_true_eq] at hd'
      constructor
      · rintro rfl
        exact absurd (hd'.trans_le hle) (by decide)
      · rintro rfl
        exact absurd (hd'.trans_le hle) (by decide)
  rcases h : digits ++ s with _ | ⟨d, t⟩
  · rfl
  · obtain ⟨hx, hX⟩ := hnext d t h
    rw [dropHexMark, if_neg fun hmark => hmark.2.elim hx hX]

/-- **A number** is taken up to its end. -/
theorem scanNumber_digits {base : ℕ} (hle : base ≤ 16) {digits s : List UInt8} (hne : digits ≠ [])
    (hdigits : ∀ c ∈ digits, isDigit base c = true) (hs : Stops (isDigit base) s)
    (hmark : ∀ c, s.head? = some c → c ≠ 120 ∧ c ≠ 88) :
    scanNumber base (digits ++ s) = some (false, number base digits, s) := by
  obtain ⟨c, digits', rfl⟩ := List.exists_cons_of_ne_nil hne
  have hc := hdigits c List.mem_cons_self
  have hspace : ¬ isspace c = true := by
    rw [isspace_of_isDigit hle hc]
    exact Bool.false_ne_true
  obtain ⟨htake, hdrop⟩ := takeWhile_append_of_stops hdigits hs
  rw [List.cons_append] at htake hdrop
  unfold scanNumber
  rw [List.cons_append, List.dropWhile_cons_of_neg hspace, scanSign_of_le (le_of_isDigit hle hc)]
  dsimp only
  rw [dropHexMark_digits hle (fun d hd => hdigits d (List.mem_cons_of_mem c hd)) hmark, ite_self,
    htake, hdrop, if_neg hne]

/-- A text that does not begin with a digit is no number. -/
theorem scanNumber_none {c : UInt8} {s : List UInt8} (hspace : isspace c = false) (hsign : 48 ≤ c.toNat)
    (hc : isDigit 10 c = false) : scanNumber 10 (c :: s) = none := by
  have hnone : (c :: s).takeWhile (isDigit 10) = [] := by
    rw [List.takeWhile_cons, hc]
    rfl
  unfold scanNumber
  rw [List.dropWhile_cons_of_neg (by rw [hspace]; exact Bool.false_ne_true), scanSign_of_le hsign]
  dsimp only
  rw [if_neg (show ¬ (10 : ℕ) = 16 by decide), if_pos hnone]

/-- **A word** is taken up to its end. -/
theorem scanWord_word {w s : List UInt8} (hne : w ≠ []) (hw : ∀ c ∈ w, isspace c = false)
    (hs : Stops (fun c => !isspace c) s) : scanWord (w ++ s) = some (w, s) := by
  obtain ⟨c, w', rfl⟩ := List.exists_cons_of_ne_nil hne
  have hc := hw c List.mem_cons_self
  obtain ⟨htake, hdrop⟩ := takeWhile_append_of_stops
    (w := c :: w') (fun d hd => by rw [hw d hd]; rfl) hs
  unfold scanWord
  rw [List.cons_append, List.dropWhile_cons_of_neg (by rw [hc]; exact Bool.false_ne_true),
    ← List.cons_append]
  dsimp only
  rw [htake, hdrop, if_neg hne]

theorem stops_separator {p : UInt8 → Bool} {c : UInt8} {s : List UInt8} (h : p c = false) :
    Stops p ([c] ++ s) := by
  rintro _ ⟨⟩
  exact h

/-- White space ends where a word begins. -/
theorem stops_word {w s : List UInt8} (hne : w ≠ []) (hw : ∀ c ∈ w, isspace c = false) :
    Stops isspace (w ++ s) := by
  obtain ⟨c, w', rfl⟩ := List.exists_cons_of_ne_nil hne
  exact stops_separator (hw c List.mem_cons_self)

section
variable {format : List Directive} {spaces w digits s : List UInt8}

/-- White space is skipped. -/
theorem sscanf_white (hspaces : ∀ c ∈ spaces, isspace c = true) (hs : Stops isspace s) :
    sscanf (.white :: format) (spaces ++ s) = sscanf format s := by
  have hscan : Directive.white.scan (spaces ++ s) = some ([], s) := by
    rw [Directive.scan, (takeWhile_append_of_stops hspaces hs).2]
  rw [sscanf_cons hscan, List.nil_append]

/-- So is a word with `%*s`. -/
theorem sscanf_skipWord (hspaces : ∀ c ∈ spaces, isspace c = true) (hne : w ≠ [])
    (hw : ∀ c ∈ w, isspace c = false) (hs : Stops (fun c => !isspace c) s) :
    sscanf (.white :: .skipWord :: format) (spaces ++ (w ++ s)) = sscanf format s := by
  have hscan : Directive.skipWord.scan (w ++ s) = some ([], s) := by
    rw [Directive.scan, scanWord_word hne hw hs]
    rfl
  rw [sscanf_white hspaces (stops_word hne hw), sscanf_cons hscan, List.nil_append]

theorem sscanf_word (hspaces : ∀ c ∈ spaces, isspace c = true) (hne : w ≠ [])
    (hw : ∀ c ∈ w, isspace c = false) (hs : Stops (fun c => !isspace c) s) :
    sscanf (.white :: .word :: format) (spaces ++ (w ++ s)) = .word w :: sscanf format s := by
  have hscan : Directive.word.scan (w ++ s) = some ([.word w], s) := by
    rw [Directive.scan, scanWord_word hne hw hs]
    rfl
  rw [sscanf_white hspaces (stops_word hne hw), sscanf_cons hscan, List.singleton_append]

theorem sscanf_hex (hne : digits ≠ []) (hdigits : ∀ c ∈ digits, isDigit 16 c = true)
    (hs : Stops (isDigit 16) s) (hmark : ∀ c, s.head? = some c → c ≠ 120 ∧ c ≠ 88) :
    sscanf (.hex :: format) (digits ++ s) =
      .number (toUnsignedLong false (number 16 digits)) :: sscanf format s := by
  have hscan : Directive.hex.scan (digits ++ s) =
      some ([.number (toUnsignedLong false (number 16 digits))], s) := by
    rw [Directive.scan, scanNumber_digits le_rfl hne hdigits hs hmark]
    rfl
  rw [sscanf_cons hscan, List.singleton_append]

theorem sscanf_long (hspaces : ∀ c ∈ spaces, isspace c = true) (hne : digits ≠ [])
    (hdigits : ∀ c ∈ digits, isDigit 10 c = true) (hs : Stops (isDigit 10) s)
    (hmark : ∀ c, s.head? = some c → c ≠ 120 ∧ c ≠ 88) :
    sscanf (.white :: .long :: format) (spaces ++ (digits ++ s)) =
      .number (toSignedLong false (number 10 digits)) :: sscanf format s := by
  have hword : ∀ c ∈ digits, isspace c = false :=
    fun c hc => isspace_of_isDigit (by decide) (hdigits c hc)
  have hscan : Directive.long.scan (digits ++ s) =
      some ([.number (toSignedLong false (number 10 digits))], s) := by
    rw [Directive.scan, scanNumber_digits (by decide) hne hdigits hs hmark]
    rfl
  rw [sscanf_white hspaces (stops_word hne hword), sscanf_cons hscan, List.singleton_append]

end

end Dabugger.Lib.Scanf
