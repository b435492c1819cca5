import Dabugger.Base
import Dabugger.Lib.Runs
import Dabugger.Lib.Scanf

/-! # `get_load_address`

The search of `debug.c` through the lines of `/proc/pid/maps`, for the mapping of the executable. The
lines are what `getline` returns: a text, and the size of the buffer that holds it. The kernel writes
them from its mappings (`Mapping.text`), in the order of their addresses. The directive `%ld` stops at
the first letter of an offset, and the path is compared with the start of a word, so that the line that
is taken is not always the one of the executable (`getLoadAddress_finds_iff`). -/

namespace Dabugger.Debug.Maps

open Dabugger.Base Dabugger.Lib.Runs Dabugger.Lib.Scanf

/-! ### The search -/

/-- A line that `getline` returns: `mapping_line`, up to its zero, and `line_len`. -/
structure MapsLine where
  mappingLine : List UInt8
  lineLen : ℕ
  lt : mappingLine.length < lineLen

/-- The format `"%lx-%lx %*s %ld %*s %*s %s"`. -/
def mapsFormat : List Directive :=
  [.hex, .literal 45, .hex, .white, .skipWord, .white, .long, .white, .skipWord, .white, .skipWord,
    .white, .word]

/-- The number that `sscanf` has assigned to its argument `i`, or 0 as before. -/
def numberAt (values : List Value) (i : ℕ) : UInt64 :=
  match values[i]? with
  | some (.number x) => x
  | _ => 0

/-- The word that it has assigned, or the empty one as before. -/
def wordAt (values : List Value) (i : ℕ) : List UInt8 :=
  match values[i]? with
  | some (.word s) => s
  | _ => []

/-- `memcmp(s1, s2, n) == 0`. -/
def memcmp (s1 s2 : List UInt8) (n : ℕ) : Except Fault Bool :=
  if s1.length < n ∨ s2.length < n then .error .outOfBounds else .ok (decide (s1.take n = s2.take n))

/-- `get_load_address`, on the lines of the file: whether a line has been found, and
`*out_load_address`. -/
def getLoadAddress (elfRealPath : List UInt8) :
    List MapsLine → UInt64 → Except Fault (Bool × UInt64)
  | [], outLoadAddress => .ok (false, outLoadAddress)
  | line :: lines, outLoadAddress => do
    let values := sscanf mapsFormat line.mappingLine
    let startAddress := numberAt values 0
    -- the buffer of `path_name` is as long as the one of the line, and all zero
    let word := wordAt values 3
    let pathName := word ++ List.replicate (line.lineLen - word.length) 0
    let isBackedByElfFile ← memcmp pathName elfRealPath elfRealPath.length
    if isBackedByElfFile then return (true, startAddress)
    getLoadAddress elfRealPath lines outLoadAddress

/-! ### The lines of the kernel -/

/-- A mapping of a process. Its path is empty where no file backs it; a line break is not written. -/
structure Mapping where
  start : UInt64
  stop : UInt64
  readable : Bool
  writable : Bool
  executable : Bool
  shared : Bool
  offset : UInt64
  major : ℕ
  minor : ℕ
  inode : ℕ
  /-- the spaces before the path, but for the first one -/
  padding : ℕ
  pathname : List UInt8
  pathname_head : ∀ c, pathname.head? = some c → isspace c = false
  noZero : 0 ∉ pathname
  noLineBreak : 10 ∉ pathname

namespace Mapping

variable (m : Mapping)

def perms : List UInt8 :=
  [if m.readable then 114 else 45, if m.writable then 119 else 45, if m.executable then 120 else 45,
    if m.shared then 115 else 112]

def offsetText : List UInt8 := numberText 16 8 m.offset.toNat

def dev : List UInt8 := numberText 16 2 m.major ++ [58] ++ numberText 16 2 m.minor

def inodeText : List UInt8 := numberText 10 1 m.inode

/-- **The line**: `start-end perms offset dev inode pathname`. -/
def text : List UInt8 :=
  numberText 16 8 m.start.toNat ++ [45] ++ numberText 16 8 m.stop.toNat ++ [32] ++ m.perms ++ [32] ++
    m.offsetText ++ [32] ++ m.dev ++ [32] ++ m.inodeText ++
    List.replicate (m.padding + 1) 32 ++ m.pathname ++ [10]

/-- The first word of the path. -/
def firstWord : List UInt8 := m.pathname.takeWhile fun c => !isspace c

/-- The hexadecimal digits of the offset are decimal ones. -/
def DecimalOffset : Prop := ∀ c ∈ m.offsetText, isDigit 10 c = true

end Mapping

/-! ### What is scanned -/

/-- Digits are no white space. -/
theorem numberText_noSpace {base : ℕ} (hbase : 1 < base) (hle : base ≤ 16) (width n : ℕ) :
    ∀ c ∈ numberText base width n, isspace c = false :=
  fun c hc => isspace_of_isDigit hle (isDigit_numberText hbase hle width n c hc)

theorem isspace_replicate (k : ℕ) : ∀ c ∈ List.replicate k (32 : UInt8), isspace c = true := by
  intro c hc
  rw [List.eq_of_mem_replicate hc]
  rfl

theorem isspace_space : ∀ c ∈ [(32 : UInt8)], isspace c = true := isspace_replicate 1

section
variable (m : Mapping)

theorem Mapping.perms_noSpace : ∀ c ∈ m.perms, isspace c = false := by
  intro c hc
  simp only [perms, List.mem_cons, List.not_mem_nil, or_false] at hc
  rcases hc with rfl | rfl | rfl | rfl <;> split <;> rfl

theorem Mapping.dev_noSpace : ∀ c ∈ m.dev, isspace c = false := by
  intro c hc
  simp only [dev, List.mem_append, List.mem_singleton] at hc
  rcases hc with (hc | rfl) | hc
  · exact numberText_noSpace (by decide) le_rfl _ _ c hc
  · rfl
  · exact numberText_noSpace (by decide) le_rfl _ _ c hc

theorem Mapping.dev_ne_nil : m.dev ≠ [] := by
  rw [dev, List.append_assoc]
  exact List.append_ne_nil_of_left_ne_nil (numberText_ne_nil 16 (by decide) _) _

/-- What is behind the permissions. -/
def Mapping.rest : List UInt8 :=
  [32] ++ (m.offsetText ++ ([32] ++ (m.dev ++ ([32] ++ (m.inodeText ++
    (List.replicate (m.padding + 1) 32 ++ (m.pathname ++ [10])))))))

/-- The addresses are read, and the permissions are skipped. -/
theorem sscanf_text :
    sscanf mapsFormat m.text = .number m.start :: .number m.stop ::
      sscanf [.white, .long, .white, .skipWord, .white, .skipWord, .white, .word] m.rest := by
  have haddress : ∀ x : UInt64,
      toUnsignedLong false (number 16 (numberText 16 8 x.toNat)) = x := by
    intro x
    have hlt := x.toNat_lt
    rw [number_numberText (by decide) le_rfl, toUnsignedLong, if_neg (by omega)]
    exact UInt64.ofNat_toNat
  have hminus : ∀ s, (Directive.literal 45).scan ([45] ++ s) = some ([], s) := fun _ => rfl
  simp only [Mapping.text, mapsFormat, List.append_assoc]
  rw [sscanf_hex (numberText_ne_nil 16 (by decide) _) (isDigit_numberText (by decide) le_rfl _ _)
    (stops_separator rfl) (by rintro _ ⟨⟩; decide), haddress, sscanf_cons (hminus _), List.nil_append]
  rw [sscanf_hex (numberText_ne_nil 16 (by decide) _) (isDigit_numberText (by decide) le_rfl _ _)
    (stops_separator rfl) (by rintro _ ⟨⟩; decide), haddress]
  rw [sscanf_skipWord isspace_space (by simp [Mapping.perms]) m.perms_noSpace (stops_separator rfl)]
  rfl

theorem numberAt_text : numberAt (sscanf mapsFormat m.text) 0 = m.start := by
  rw [sscanf_text]
  rfl

theorem Mapping.offsetText_ne_nil : m.offsetText ≠ [] := numberText_ne_nil 16 (by decide) _

theorem Mapping.inodeText_ne_nil : m.inodeText ≠ [] := numberText_ne_nil 10 (by decide) _

theorem Mapping.inodeText_noSpace : ∀ c ∈ m.inodeText, isspace c = false :=
  numberText_noSpace (by decide) (by decide) _ _

theorem stops_padding (s : List UInt8) :
    Stops (fun c => !isspace c) (List.replicate (m.padding + 1) 32 ++ s) := by
  rw [List.replicate_succ]
  exact stops_separator (s := List.replicate m.padding 32 ++ s) rfl

/-- Where the digits of the offset are decimal, the first word of the path is read. -/
theorem wordAt_of_decimal (h : m.DecimalOffset) :
    wordAt (sscanf mapsFormat m.text) 3 = m.firstWord := by
  rw [sscanf_text, Mapping.rest, sscanf_long isspace_space m.offsetText_ne_nil h (stops_separator rfl)
      (by rintro _ ⟨⟩; decide),
    sscanf_skipWord isspace_space m.dev_ne_nil m.dev_noSpace (stops_separator rfl),
    sscanf_skipWord isspace_space m.inodeText_ne_nil m.inodeText_noSpace (stops_padding m _)]
  by_cases hnil : m.pathname = []
  · have hall : ∀ c ∈ List.replicate (m.padding + 1) (32 : UInt8) ++ [10], isspace c = true := by
      intro c hc
      rcases List.mem_append.mp hc with hc | hc
      · exact isspace_replicate _ c hc
      · rw [List.mem_singleton.mp hc]
        rfl
    rw [Mapping.firstWord, hnil, List.nil_append, ← List.append_nil (List.replicate _ _ ++ [10]),
      sscanf_white hall (by rintro _ ⟨⟩)]
    rfl
  · have hsplit : m.pathname ++ [10] =
        m.firstWord ++ (m.pathname.dropWhile (fun c => !isspace c) ++ [10]) := by
      rw [Mapping.firstWord, ← List.append_assoc, List.takeWhile_append_dropWhile]
    have hne : m.firstWord ≠ [] := by
      obtain ⟨c, s, hs⟩ := List.exists_cons_of_ne_nil hnil
      have hc := m.pathname_head c (by rw [hs]; rfl)
      rw [Mapping.firstWord, hs, List.takeWhile_cons_of_pos (by rw [hc]; rfl)]
      exact List.cons_ne_nil _ _
    have hword : ∀ c ∈ m.firstWord, isspace c = false := by
      intro c hc
      simpa using List.mem_takeWhile_imp hc
    have hbreak : Stops (fun c => !isspace c) [10] := by
      rintro _ ⟨⟩
      rfl
    rw [hsplit, sscanf_word (isspace_replicate _) hne hword (stops_dropWhile _ hbreak)]
    rfl

/-- Where they are not, there is a first letter, which is hexadecimal. -/
theorem exists_letter (h : ¬ m.DecimalOffset) : ∃ digits c letters,
    m.offsetText = digits ++ c :: letters ∧ (∀ d ∈ digits, isDigit 10 d = true) ∧
      isDigit 10 c = false ∧ isDigit 16 c = true := by
  have hoffset : m.offsetText =
      m.offsetText.takeWhile (isDigit 10) ++ m.offsetText.dropWhile (isDigit 10) :=
    List.takeWhile_append_dropWhile.symm
  have hhead := List.head?_dropWhile_not (isDigit 10) m.offsetText
  have hdigits : ∀ d ∈ m.offsetText.takeWhile (isDigit 10), isDigit 10 d = true :=
    fun d hd => List.mem_takeWhile_imp hd
  rcases hletters : m.offsetText.dropWhile (isDigit 10) with _ | ⟨c, letters⟩
  · rw [hletters, List.append_nil] at hoffset
    refine absurd (fun c hc => hdigits c ?_) h
    rw [← hoffset]
    exact hc
  · rw [hletters] at hoffset hhead
    refine ⟨_, c, letters, hoffset, hdigits, hhead, ?_⟩
    refine isDigit_numberText (by decide) le_rfl 8 m.offset.toNat c ?_
    rw [show numberText 16 8 m.offset.toNat = m.offsetText from rfl, hoffset]
    exact List.mem_append_right _ List.mem_cons_self

/-- The word that is read then does not belong to the path. -/
theorem wordAt_of_not_decimal (h : ¬ m.DecimalOffset) :
    wordAt (sscanf mapsFormat m.text) 3 = [] ∨
      wordAt (sscanf mapsFormat m.text) 3 = m.inodeText := by
  obtain ⟨digits, c, letters, hoffset, hdigits, hc, hhex⟩ := exists_letter m h
  have hspace : ∀ d ∈ m.offsetText, isspace d = false := numberText_noSpace (by decide) le_rfl _ _
  have hletters : ∀ d ∈ c :: letters, isspace d = false := fun d hd =>
    hspace d (hoffset ▸ List.mem_append_right digits hd)
  rw [sscanf_text, Mapping.rest]
  by_cases hnil : digits = []
  · left
    rw [hnil, List.nil_append] at hoffset
    rw [sscanf_white isspace_space (stops_word m.offsetText_ne_nil hspace), hoffset, List.cons_append,
      sscanf_of_none]
    · rfl
    · rw [Directive.scan, scanNumber_none (hletters c List.mem_cons_self)
        (le_of_isDigit le_rfl hhex) hc]
      rfl
  · right
    have hletter : ∀ s, Stops (isDigit 10) (c :: letters ++ s) := fun s => stops_separator hc
    have hmark : ∀ s d, (c :: letters ++ s).head? = some d → d ≠ 120 ∧ d ≠ 88 := by
      rintro s _ ⟨⟩
      constructor
      · rintro rfl
        exact absurd hhex (by decide)
      · rintro rfl
        exact absurd hhex (by decide)
    -- the letters are taken for the word that is skipped
    have hskip : ∀ format s, sscanf (.white :: .skipWord :: format) (c :: letters ++ ([32] ++ s)) =
        sscanf format ([32] ++ s) := fun format s =>
      sscanf_skipWord (fun _ hd => absurd hd List.not_mem_nil) (List.cons_ne_nil c letters) hletters
        (stops_separator rfl)
    rw [hoffset, List.append_assoc, sscanf_long isspace_space hnil hdigits (hletter _) (hmark _),
      hskip, sscanf_skipWord isspace_space m.dev_ne_nil m.dev_noSpace (stops_separator rfl),
      sscanf_word isspace_space m.inodeText_ne_nil m.inodeText_noSpace (stops_padding m _)]
    rfl

theorem length_wordAt_le : (wordAt (sscanf mapsFormat m.text) 3).length ≤ m.text.length := by
  have htext : m.inodeText.length + m.pathname.length ≤ m.text.length := by
    simp only [Mapping.text, List.length_append]
    omega
  by_cases h : m.DecimalOffset
  · have hword : m.firstWord.length ≤ m.pathname.length := (List.takeWhile_prefix _).length_le
    rw [wordAt_of_decimal m h]
    omega
  · rcases wordAt_of_not_decimal m h with hword | hword
    · rw [hword]
      exact Nat.zero_le _
    · rw [hword]
      omega

end

/-! ### The path of the executable -/

/-- An absolute path. -/
structure AbsolutePath where
  bytes : List UInt8
  absolute : bytes.head? = some 47
  noZero : 0 ∉ bytes

/-- The line is taken for that of the executable. -/
def Mapping.Taken (m : Mapping) (path : List UInt8) : Prop :=
  m.DecimalOffset ∧ path <+: m.firstWord

instance (m : Mapping) : Decidable m.DecimalOffset := List.decidableBAll _ _

instance (m : Mapping) (path : List UInt8) : Decidable (m.Taken path) :=
  inferInstanceAs (Decidable (_ ∧ _))

/-- The word that is read begins with the path if it is the first one of a path that does. -/
theorem prefix_wordAt_iff (m : Mapping) (path : AbsolutePath) :
    path.bytes <+: wordAt (sscanf mapsFormat m.text) 3 ↔ m.Taken path.bytes := by
  obtain ⟨p, hp⟩ : ∃ p, path.bytes = 47 :: p := by
    have hhead := path.absolute
    rcases h : path.bytes with _ | ⟨c, p⟩
    · rw [h] at hhead
      cases hhead
    · rw [h] at hhead
      cases hhead
      exact ⟨p, rfl⟩
  by_cases h : m.DecimalOffset
  · rw [wordAt_of_decimal m h, Mapping.Taken, and_iff_right h]
  · refine iff_of_false ?_ fun htaken => h htaken.1
    rw [hp]
    intro hprefix
    have hmem : (47 : UInt8) ∈ wordAt (sscanf mapsFormat m.text) 3 :=
      hprefix.subset List.mem_cons_self
    rcases wordAt_of_not_decimal m h with hword | hword
    · rw [hword] at hmem
      cases hmem
    · rw [hword] at hmem
      exact absurd (isDigit_numberText (by decide) (by decide) _ _ _ hmem) (by decide)

/-- The zeros behind the word do not count. -/
theorem memcmp_pathName {word path : List UInt8} {lineLen : ℕ} (hword : word.length ≤ lineLen)
    (hpath : 0 ∉ path) :
    memcmp (word ++ List.replicate (lineLen - word.length) 0) path path.length =
      if lineLen < path.length then .error .outOfBounds else .ok (decide (path <+: word)) := by
  have hlen : (word ++ List.replicate (lineLen - word.length) (0 : UInt8)).length = lineLen := by
    rw [List.length_append, List.length_replicate]
    omega
  have hzeros : path <+: word ++ List.replicate (lineLen - word.length) 0 ↔ path <+: word := by
    refine ⟨fun h => ?_, fun h => h.trans (List.prefix_append _ _)⟩
    rcases List.prefix_or_prefix_of_prefix h (List.prefix_append _ _) with hle | ⟨t, rfl⟩
    · exact hle
    · rw [List.prefix_append_right_inj] at h
      rcases t with _ | ⟨c, t⟩
      · rw [List.append_nil]
      · have hc : c = 0 := List.eq_of_mem_replicate (h.subset List.mem_cons_self)
        exact absurd (hc ▸ List.mem_append_right word List.mem_cons_self) hpath
  unfold memcmp
  rw [hlen, List.take_length]
  by_cases hlt : lineLen < path.length
  · rw [if_pos (.inl hlt), if_pos hlt]
  · have htake : (word ++ List.replicate (lineLen - word.length) 0).take path.length = path ↔
        path <+: word := by
      rw [← hzeros, List.prefix_iff_eq_take, eq_comm]
    rw [if_neg (by omega), if_neg hlt, decide_eq_decide.mpr htake]

/-! ### The listing -/

/-- A line of the kernel in the buffer of `getline`. -/
structure Entry where
  mapping : Mapping
  lineLen : ℕ
  lt : mapping.text.length < lineLen

/-- What `getline` returns. -/
def Entry.line (e : Entry) : MapsLine := ⟨e.mapping.text, e.lineLen, e.lt⟩

/-- **A listing**: the mappings of a process, in the order of their addresses. -/
structure Listing where
  entries : List Entry
  ascending : entries.Pairwise fun e e' => e.mapping.start < e'.mapping.start

/-- What the search is for: the start of the first mapping of the path, or that there is none. -/
def loadAddress (path : List UInt8) (entries : List Entry) (outLoadAddress : UInt64) :
    Bool × UInt64 :=
  match entries.find? fun e => e.mapping.pathname = path with
  | some e => (true, e.mapping.start)
  | none => (false, outLoadAddress)

/-- The line is taken if and only if it is one of the path, and the buffer is long enough to see it. -/
structure Recognised (path : List UInt8) (e : Entry) : Prop where
  fits : path.length ≤ e.lineLen
  own : e.mapping.pathname = path → e.mapping.DecimalOffset ∧ ∀ c ∈ path, isspace c = false
  other : e.mapping.pathname ≠ path → e.mapping.DecimalOffset → ¬ path <+: e.mapping.firstWord

/-- All lines are recognised up to the first one of the path. -/
def AllRecognised (path : List UInt8) (entries : List Entry) : Prop :=
  ∀ before e after, entries = before ++ e :: after →
    (∀ b ∈ before, b.mapping.pathname ≠ path) → Recognised path e

theorem allRecognised_cons {path : List UInt8} {e : Entry} {entries : List Entry} :
    AllRecognised path (e :: entries) ↔
      Recognised path e ∧ (e.mapping.pathname ≠ path → AllRecognised path entries) := by
  constructor
  · intro h
    refine ⟨h [] e entries rfl nofun, fun hne before e' after heq hbefore => ?_⟩
    refine h (e :: before) e' after (by rw [heq, List.cons_append]) fun b hb => ?_
    rcases List.mem_cons.mp hb with rfl | hb
    · exact hne
    · exact hbefore b hb
  · rintro ⟨hfirst, hrest⟩ before e' after heq hbefore
    rcases before with _ | ⟨b, before⟩
    · obtain ⟨rfl, rfl⟩ := List.cons.inj heq
      exact hfirst
    · obtain ⟨rfl, rfl⟩ := List.cons.inj heq
      exact hrest (hbefore e List.mem_cons_self) before e' after rfl
        fun b hb => hbefore b (List.mem_cons_of_mem _ hb)

theorem recognised_iff {path : List UInt8} {e : Entry} :
    Recognised path e ↔
      path.length ≤ e.lineLen ∧ (e.mapping.Taken path ↔ e.mapping.pathname = path) := by
  have hown : e.mapping.pathname = path →
      (path <+: e.mapping.firstWord ↔ ∀ c ∈ path, isspace c = false) := by
    rintro rfl
    unfold Mapping.firstWord
    constructor
    · intro h c hc
      simpa using List.mem_takeWhile_imp (h.subset hc)
    · intro h
      rw [List.takeWhile_eq_self_iff.mpr fun c hc => by rw [h c hc]; rfl]
  unfold Mapping.Taken
  constructor
  · rintro ⟨hfits, hself, hother⟩
    refine ⟨hfits, fun ⟨hdecimal, hprefix⟩ => ?_, fun heq => ?_⟩
    · by_contra hne
      exact hother hne hdecimal hprefix
    · exact ⟨(hself heq).1, (hown heq).mpr (hself heq).2⟩
  · rintro ⟨hfits, htaken⟩
    refine ⟨hfits, fun heq => ?_, fun hne hdecimal hprefix => hne (htaken.mp ⟨hdecimal, hprefix⟩)⟩
    have h := htaken.mpr heq
    exact ⟨h.1, (hown heq).mp h.2⟩

section
variable (path : AbsolutePath)

/-- One line. -/
theorem getLoadAddress_cons (e : Entry) (lines : List MapsLine) (outLoadAddress : UInt64) :
    getLoadAddress path.bytes (e.line :: lines) outLoadAddress =
      if e.lineLen < path.bytes.length then .error .outOfBounds
      else if e.mapping.Taken path.bytes then .ok (true, e.mapping.start)
      else getLoadAddress path.bytes lines outLoadAddress := by
  have hword : (wordAt (sscanf mapsFormat e.mapping.text) 3).length ≤ e.lineLen :=
    (length_wordAt_le e.mapping).trans e.lt.le
  rw [getLoadAddress]
  dsimp only [Entry.line]
  rw [memcmp_pathName hword path.noZero, numberAt_text]
  by_cases hfits : e.lineLen < path.bytes.length
  · rw [if_pos hfits, if_pos hfits]
    rfl
  · rw [if_neg hfits, if_neg hfits, except_bind_of_ok rfl]
    simp only [decide_eq_true_eq, prefix_wordAt_iff]
    rfl

/-- An address that is found is the start of a line. -/
theorem exists_of_getLoadAddress {outLoadAddress address : UInt64} :
    ∀ {entries : List Entry},
      getLoadAddress path.bytes (entries.map Entry.line) outLoadAddress = .ok (true, address) →
        ∃ e ∈ entries, e.mapping.start = address
  | [], h => by cases h
  | e :: entries, h => by
    rw [List.map_cons, getLoadAddress_cons] at h
    split at h
    · cases h
    split at h
    · cases h
      exact ⟨e, List.mem_cons_self, rfl⟩
    · obtain ⟨e', he', hstart⟩ := exists_of_getLoadAddress h
      exact ⟨e', List.mem_cons_of_mem _ he', hstart⟩

theorem exists_of_loadAddress {path : List UInt8} {entries : List Entry}
    {outLoadAddress address : UInt64} (h : loadAddress path entries outLoadAddress = (true, address)) :
    ∃ e ∈ entries, e.mapping.start = address := by
  unfold loadAddress at h
  split at h
  · rename_i e he
    cases h
    exact ⟨e, List.mem_of_find?_eq_some he, rfl⟩
  · cases h

theorem loadAddress_cons (path : List UInt8) (e : Entry) (entries : List Entry)
    (outLoadAddress : UInt64) :
    loadAddress path (e :: entries) outLoadAddress =
      if e.mapping.pathname = path then (true, e.mapping.start)
      else loadAddress path entries outLoadAddress := by
  unfold loadAddress
  by_cases h : e.mapping.pathname = path
  · rw [List.find?_cons_of_pos (by simpa using h), if_pos h]
  · rw [List.find?_cons_of_neg (by simpa using h), if_neg h]

/-- The search, over lines in the order of their addresses. -/
theorem getLoadAddress_eq_iff (outLoadAddress : UInt64) : ∀ {entries : List Entry},
    (entries.Pairwise fun e e' => e.mapping.start < e'.mapping.start) →
      (getLoadAddress path.bytes (entries.map Entry.line) outLoadAddress =
          .ok (loadAddress path.bytes entries outLoadAddress) ↔
        AllRecognised path.bytes entries)
  | [], _ => iff_of_true rfl fun before e after heq => by simp at heq
  | e :: entries, h => by
    obtain ⟨hfirst, hrest⟩ := List.pairwise_cons.mp h
    have hother : ¬ ∃ e' ∈ entries, e'.mapping.start = e.mapping.start := by
      rintro ⟨e', he', heq⟩
      have hlt := hfirst e' he'
      rw [heq] at hlt
      exact UInt64.lt_irrefl _ hlt
    have ih := getLoadAddress_eq_iff outLoadAddress hrest
    rw [List.map_cons, getLoadAddress_cons, loadAddress_cons, allRecognised_cons, recognised_iff]
    by_cases hfits : e.lineLen < path.bytes.length
    · rw [if_pos hfits]
      refine iff_of_false (by rintro ⟨⟩) fun hall => ?_
      exact absurd hall.1.1 (Nat.not_le.mpr hfits)
    rw [if_neg hfits]
    have hle : path.bytes.length ≤ e.lineLen := Nat.not_lt.mp hfits
    by_cases htaken : e.mapping.Taken path.bytes <;>
      by_cases hown : e.mapping.pathname = path.bytes
    · rw [if_pos htaken, if_pos hown]
      exact iff_of_true rfl ⟨⟨hle, iff_of_true htaken hown⟩, fun hne => absurd hown hne⟩
    · -- the line of another path is taken
      rw [if_pos htaken, if_neg hown]
      refine iff_of_false (fun heq => hother ?_) fun hall => hown (hall.1.2.mp htaken)
      exact exists_of_loadAddress (Except.ok.inj heq).symm
    · -- the line of the path is not
      rw [if_neg htaken, if_pos hown]
      refine iff_of_false (fun heq => hother ?_) fun hall => htaken (hall.1.2.mpr hown)
      exact exists_of_getLoadAddress path heq
    · rw [if_neg htaken, if_neg hown, ih, and_iff_right ⟨hle, iff_of_false htaken hown⟩]
      exact ⟨fun hall _ => hall, fun hall => hall hown⟩

end

/-- **The load address is that of the executable's first mapping** if and only if all lines up to it are
recognised. -/
theorem getLoadAddress_finds_iff (path : AbsolutePath) (listing : Listing) (outLoadAddress : UInt64) :
    getLoadAddress path.bytes (listing.entries.map Entry.line) outLoadAddress =
        .ok (loadAddress path.bytes listing.entries outLoadAddress) ↔
      AllRecognised path.bytes listing.entries :=
  getLoadAddress_eq_iff path outLoadAddress listing.ascending

/-- The path `/a b`. -/
def spacedPath : AbsolutePath := ⟨[47, 97, 32, 98], rfl, by decide⟩

/-- Its line, `00400000-00401000 r-xp 00000000 08:02 7 /a b`. -/
def spacedEntry : Entry where
  mapping := {
    start := 0x400000
    stop := 0x401000
    readable := true
    writable := false
    executable := true
    shared := false
    offset := 0
    major := 8
    minor := 2
    inode := 7
    padding := 0
    pathname := spacedPath.bytes
    pathname_head := by
      rintro _ ⟨⟩
      rfl
    noZero := by decide
    noLineBreak := by decide }
  lineLen := 120
  lt := by decide +kernel

def spacedListing : Listing := ⟨[spacedEntry], List.pairwise_singleton _ _⟩

/-- An executable with a space in its path is not found. -/
theorem getLoadAddress_spaced :
    loadAddress spacedPath.bytes spacedListing.entries 0 = (true, 0x400000) ∧
      getLoadAddress spacedPath.bytes (spacedListing.entries.map Entry.line) 0 = .ok (false, 0) := by
  constructor
  · decide +kernel
  · decide +kernel

end Dabugger.Debug.Maps
