import Dabugger.Debug.StoreExact

/-! # Toggles

What the two lists say together: who has the breakpoint at an address (`owners`), nobody, the address
itself, or a source line. A toggle changes this at one address, its target, whatever there is
elsewhere (`Toggle.apply_owners`). So a toggle undoes itself (`toggle_toggle`), and toggles of
different targets commute (`toggle_comm`). -/

namespace Dabugger.Debug.Toggles

open Dabugger.Lib.Runs Dabugger.Lib.Keyed Dabugger.Base Dabugger.Dwarf.Types Dabugger.Debug.Session
  Dabugger.Debug.Store Dabugger.Debug.StoreRuns Dabugger.Debug.Events Dabugger.Debug.StoreExact

/-! ### Owners -/

/-- Who has the breakpoint at an address: nobody, the address itself (`some none`), or a line. -/
abbrev Owner := Option (Option (ℕ × ℕ))

/-- The owners in a session. -/
def owners (session : DebugSession) (address : UInt64) : Owner :=
  if Listed session address then
    some ((session.srcBreakpoints.find? fun sb => decide (sb.address = address)).map lineKey)
  else none

section
variable {session : DebugSession}

theorem owners_eq_none {address : UInt64} :
    owners session address = none ↔ ¬ Listed session address := by
  unfold owners
  split_ifs with h <;> simp [h]

theorem owners_of_mem (hi : StoreInv session) {sb : SourceBreakpoint}
    (hsb : sb ∈ session.srcBreakpoints) :
    owners session sb.address = some (some (lineKey sb)) := by
  have hfind : session.srcBreakpoints.find? (fun sb' => decide (sb'.address = sb.address)) =
      some sb := hi.srcAddresses.find?_eq_some hsb
  have hlisted : Listed session sb.address := hi.src_mem sb hsb
  rw [owners, if_pos hlisted, hfind]
  rfl

/-- A line has the breakpoint at the address of its source breakpoint. -/
theorem owners_eq_line (hi : StoreInv session) {address : UInt64} {line : ℕ × ℕ} :
    owners session address = some (some line) ↔
      ∃ sb ∈ session.srcBreakpoints, sb.address = address ∧ lineKey sb = line := by
  constructor
  · intro h
    unfold owners at h
    split_ifs at h
    obtain ⟨sb, hfind, hkey⟩ := Option.map_eq_some_iff.mp (Option.some.inj h)
    exact ⟨sb, List.mem_of_find?_eq_some hfind, by simpa using List.find?_some hfind, hkey⟩
  · rintro ⟨sb, hsb, rfl, rfl⟩
    exact owners_of_mem hi hsb

/-- The breakpoints are those that have an owner, with the bytes of `.text`. -/
theorem mem_breakpoints (hi : StoreInv session) {bp : Breakpoint} :
    bp ∈ session.breakpoints ↔
      owners session bp.address ≠ none ∧ textByte session bp.address = some bp.originalByte := by
  rw [ne_eq, owners_eq_none, not_not]
  constructor
  · intro hbp
    exact ⟨⟨bp, hbp, rfl⟩, hi.originalByte bp hbp⟩
  · rintro ⟨⟨bp', hbp', ha⟩, hbyte⟩
    have hbyte' := hi.originalByte bp' hbp'
    rw [ha, hbyte] at hbyte'
    obtain ⟨address, originalByte⟩ := bp
    obtain ⟨_, _⟩ := bp'
    obtain rfl : _ = address := ha
    obtain rfl : originalByte = _ := Option.some.inj hbyte'
    exact hbp'

/-- The source breakpoints are the owners that are lines. -/
theorem mem_srcBreakpoints (hi : StoreInv session) {sb : SourceBreakpoint} :
    sb ∈ session.srcBreakpoints ↔ owners session sb.address = some (some (lineKey sb)) := by
  rw [owners_eq_line hi]
  constructor
  · intro hsb
    exact ⟨sb, hsb, rfl, rfl⟩
  · rintro ⟨sb', hsb', ha, hkey⟩
    obtain ⟨address, compUnitIndex, lineNum⟩ := sb
    obtain ⟨_, _, _⟩ := sb'
    obtain rfl : _ = address := ha
    obtain ⟨rfl, rfl⟩ : _ = compUnitIndex ∧ _ = lineNum := Prod.mk.inj hkey
    exact hsb'

end

/-! ### What is done to the owners -/

section
variable (session : DebugSession) (address : UInt64)

/-- Without the breakpoints at an address nobody has it. -/
theorem owners_without :
    owners (without address session) = Function.update (owners session) address none := by
  funext a
  by_cases ha : a = address
  · subst ha
    rw [Function.update_self, owners_eq_none, listed_without]
    exact fun h => h.2 rfl
  · have hfind : (without address session).srcBreakpoints.find? (fun sb => decide (sb.address = a)) =
        session.srcBreakpoints.find? fun sb => decide (sb.address = a) := by
      rw [without, List.find?_filter]
      congr 1
      funext sb
      have : sb.address = a → sb.address ≠ address := fun e => e ▸ ha
      simpa using this
    rw [Function.update_of_ne ha, owners, owners, hfind]
    exact if_congr (listed_without.trans (and_iff_left ha)) rfl rfl

variable (originalByte : UInt8)

/-- A breakpoint that is added belongs to its address, or to the source line added with it. -/
theorem owners_append (srcs : List SourceBreakpoint) {owner : Option (ℕ × ℕ)}
    (hsrcs : ∀ sb ∈ srcs, sb.address = address)
    (hfind : ((session.srcBreakpoints ++ srcs).find? fun sb => decide (sb.address = address)).map
      lineKey = owner) :
    owners { session with
        breakpoints := session.breakpoints ++ [⟨address, originalByte⟩]
        srcBreakpoints := session.srcBreakpoints ++ srcs } =
      Function.update (owners session) address (some owner) := by
  funext a
  by_cases ha : a = address
  · have hlisted : Listed { session with
        breakpoints := session.breakpoints ++ [⟨address, originalByte⟩]
        srcBreakpoints := session.srcBreakpoints ++ srcs } address :=
      ⟨_, List.mem_append_right _ (List.mem_singleton_self _), rfl⟩
    rw [ha, Function.update_self, owners, if_pos hlisted, hfind]
  · have hlisted : Listed { session with
        breakpoints := session.breakpoints ++ [⟨address, originalByte⟩]
        srcBreakpoints := session.srcBreakpoints ++ srcs } a ↔ Listed session a := by
      constructor
      · rintro ⟨bp, hbp, rfl⟩
        rcases List.mem_append.mp hbp with hbp | hbp
        · exact ⟨bp, hbp, rfl⟩
        · exact absurd (congrArg Breakpoint.address (List.mem_singleton.mp hbp)) ha
      · rintro ⟨bp, hbp, rfl⟩
        exact ⟨bp, List.mem_append_left _ hbp, rfl⟩
    have hnone : srcs.find? (fun sb => decide (sb.address = a)) = none :=
      List.find?_eq_none.mpr fun sb hsb e =>
        ha ((of_decide_eq_true e).symm.trans (hsrcs sb hsb))
    rw [Function.update_of_ne ha, owners, owners]
    refine if_congr hlisted ?_ rfl
    dsimp only
    rw [List.find?_append, hnone, Option.or_none]

end

/-! ### Toggles -/

/-- The toggles of `debug.h`. -/
inductive Toggle where
  | breakpoint (address : UInt64)
  | sourceBreakpoint (compUnitIndex lineNum : ℕ)

namespace Toggle

/-- The session after a toggle. -/
def apply (host : Host) : Toggle → DebugSession → Except Fault DebugSession
  | breakpoint address, session => toggleBreakpoint host session address
  | sourceBreakpoint compUnitIndex lineNum, session =>
    toggleSourceBreakpoint host session compUnitIndex lineNum

/-- Its target; none for a line without a statement. -/
def target (session : DebugSession) : Toggle → Option UInt64
  | breakpoint address => some address
  | sourceBreakpoint compUnitIndex lineNum =>
    (firstStmtRow session compUnitIndex lineNum).map LineInfoEntry.address

/-- Its arguments make sense: the target is in `.text`, and the unit and the line are there. -/
def Valid (session : DebugSession) : Toggle → Prop
  | breakpoint address => InText session address
  | sourceBreakpoint compUnitIndex lineNum => LineInText session compUnitIndex lineNum

/-- What it makes of the owner of its target. A line does not take an address from another owner. -/
def flip : Toggle → Owner → Owner
  | breakpoint _, none => some none
  | breakpoint _, some _ => none
  | sourceBreakpoint compUnitIndex lineNum, none => some (some (compUnitIndex, lineNum))
  | sourceBreakpoint compUnitIndex lineNum, some owner =>
    if owner = some (compUnitIndex, lineNum) then none else some owner

/-- What it does to the owners: it flips the one of its target. -/
def act (t : Toggle) (target : Option UInt64) (o : UInt64 → Owner) : UInt64 → Owner :=
  match target with
  | none => o
  | some address => Function.update o address (t.flip (o address))

end Toggle

/-! ### What a toggle does to the owners -/

section
variable {host : Host} {session session' : DebugSession}

theorem toggleBreakpoint_owners (hi : StoreInv session) {address : UInt64}
    (h : toggleBreakpoint host session address = .ok session') :
    owners session' = (Toggle.breakpoint address).act (some address) (owners session) := by
  rw [Toggle.act]
  unfold toggleBreakpoint at h
  split at h
  · rename_i hany
    have hlisted : Listed session address := by simpa [Listed] using hany
    rw [hi.toStoreKeys.removeBreakpoint_eq] at h
    cases h
    rw [owners_without, owners, if_pos hlisted, Toggle.flip]
  · rename_i hany
    have hlisted : ¬ Listed session address := by simpa [Listed] using hany
    obtain ⟨⟨_, isSet⟩, hadd, h⟩ := except_bind_ok h
    cases h
    rcases addBreakpoint_ok hadd with ⟨-, -, hmem⟩ | ⟨-, -, byte, -, rfl⟩
    · exact absurd hmem hlisted
    have hsrc : session.srcBreakpoints.find? (fun sb => decide (sb.address = address)) = none :=
      List.find?_eq_none.mpr fun sb hsb e =>
        hlisted (of_decide_eq_true e ▸ hi.src_mem sb hsb)
    have happend := owners_append session address byte [] (by simp)
      (by rw [List.append_nil, hsrc, Option.map_none])
    rw [List.append_nil] at happend
    rw [owners_eq_none.mpr hlisted, Toggle.flip]
    exact happend

/-- To set a source breakpoint at a line that has none. -/
theorem setSourceBreakpoint_owners (hi : StoreInv session) {compUnitIndex lineNum : ℕ}
    (hline : ∀ sb ∈ session.srcBreakpoints, lineKey sb ≠ (compUnitIndex, lineNum)) {isSet : Bool}
    (h : setSourceBreakpoint host session compUnitIndex lineNum = .ok (session', isSet)) :
    owners session' = (Toggle.sourceBreakpoint compUnitIndex lineNum).act
      ((firstStmtRow session compUnitIndex lineNum).map LineInfoEntry.address)
      (owners session) := by
  cases hrow : firstStmtRow session compUnitIndex lineNum with
  | none =>
    rcases setSourceBreakpoint_ok h with ⟨-, rfl⟩ | ⟨-, -, row, -, hrow', -⟩
    · rfl
    · rw [hrow] at hrow'
      cases hrow'
  | some row =>
    rw [Option.map_some, Toggle.act]
    by_cases hlisted : Listed session row.address
    -- the address is taken, by an owner that is not this line
    · have hsame : session' = session := by
        rcases setSourceBreakpoint_ok h with ⟨-, he⟩ | ⟨-, -, row', -, hrow', hnew, -⟩
        · exact he
        · rw [hrow] at hrow'
          cases hrow'
          obtain ⟨bp, hbp, ha⟩ := hlisted
          exact absurd ha (hnew bp hbp)
      obtain ⟨owner, howner⟩ : ∃ owner, owners session row.address = some owner :=
        Option.ne_none_iff_exists'.mp fun e => owners_eq_none.mp e hlisted
      have hother : owner ≠ some (compUnitIndex, lineNum) := by
        rintro rfl
        obtain ⟨sb, hsb, -, hkey⟩ := (owners_eq_line hi).mp howner
        exact hline sb hsb hkey
      rw [howner, Toggle.flip, if_neg hother, ← howner, Function.update_eq_self, hsame]
    -- it is free, and the line gets it
    · have hset : isSet = true :=
        CanSet.isSet ⟨hline, row, hrow, fun bp hbp ha => hlisted ⟨bp, hbp, ha⟩⟩ h
      rcases setSourceBreakpoint_ok h with ⟨hf, -⟩ | ⟨-, -, row', byte, hrow', -, -, rfl⟩
      · rw [hset] at hf
        cases hf
      rw [hrow] at hrow'
      cases hrow'
      have hsrc : session.srcBreakpoints.find? (fun sb => decide (sb.address = row.address)) = none :=
        List.find?_eq_none.mpr fun sb hsb e =>
          hlisted (of_decide_eq_true e ▸ hi.src_mem sb hsb)
      rw [owners_eq_none.mpr hlisted, Toggle.flip]
      refine owners_append session row.address byte [_] (fun sb hsb => ?_) ?_
      · rw [List.mem_singleton.mp hsb]
      · rw [List.find?_append, hsrc, Option.none_or, List.find?_singleton, if_pos (by simp)]
        rfl

theorem toggleSourceBreakpoint_owners (hi : StoreInv session) {compUnitIndex lineNum : ℕ}
    (h : toggleSourceBreakpoint host session compUnitIndex lineNum = .ok session') :
    owners session' = (Toggle.sourceBreakpoint compUnitIndex lineNum).act
      ((firstStmtRow session compUnitIndex lineNum).map LineInfoEntry.address)
      (owners session) := by
  unfold toggleSourceBreakpoint at h
  split at h
  · rename_i hany
    obtain ⟨sb, hsb, he⟩ := List.any_eq_true.mp hany
    obtain ⟨rfl, rfl⟩ := of_decide_eq_true he
    rw [hi.toStoreKeys.removeSourceBreakpoint_of_mem hsb] at h
    cases h
    rw [hi.src_row sb hsb, Toggle.act, owners_without, owners_of_mem hi hsb, Toggle.flip, lineKey,
      if_pos rfl]
  · rename_i hany
    have hline := any_line_eq_false hany
    obtain ⟨⟨_, isSet⟩, hset, h⟩ := except_bind_ok h
    cases h
    exact setSourceBreakpoint_owners hi hline hset

end

namespace Toggle

section
variable {host : Host} {session session' : DebugSession} {t : Toggle}

/-- A toggle is one of the operations of the store. -/
theorem apply_step (hk : StoreKeys session) (h : t.apply host session = .ok session') :
    StoreStep session session' := by
  cases t with
  | breakpoint address => exact toggleBreakpoint_step hk h
  | sourceBreakpoint compUnitIndex lineNum => exact toggleSourceBreakpoint_step hk h

theorem apply_returns (host : Host) (hk : StoreKeys session) (hv : t.Valid session) :
    ∃ session', t.apply host session = .ok session' := by
  cases t with
  | breakpoint address =>
    have hop : (StoreOp.toggleBreakpoint address).Inside session := hv
    exact StoreOp.apply_returns host hk hop
  | sourceBreakpoint compUnitIndex lineNum =>
    have hop : (StoreOp.toggleSourceBreakpoint compUnitIndex lineNum).Inside session := hv
    exact StoreOp.apply_returns host hk hop

/-- **A toggle flips the owner of its target.** -/
theorem apply_owners (hi : StoreInv session) (h : t.apply host session = .ok session') :
    owners session' = t.act (t.target session) (owners session) := by
  cases t with
  | breakpoint address => exact toggleBreakpoint_owners hi h
  | sourceBreakpoint compUnitIndex lineNum => exact toggleSourceBreakpoint_owners hi h

end

/-! ### Toggles on the owners alone -/

theorem flip_flip_sourceBreakpoint (compUnitIndex lineNum : ℕ) (owner : Owner) :
    (sourceBreakpoint compUnitIndex lineNum).flip
      ((sourceBreakpoint compUnitIndex lineNum).flip owner) = owner := by
  rcases owner with _ | owner
  · rw [flip, flip, if_pos rfl]
  · rw [flip]
    split_ifs with h
    · rw [flip, h]
    · rw [flip, if_neg h]

/-- The second toggle of an address gives it an owner of its own. -/
theorem flip_flip_breakpoint (address : UInt64) (owner : Owner) :
    (breakpoint address).flip ((breakpoint address).flip owner) = owner.map fun _ => none := by
  cases owner <;> rfl

theorem act_act (t : Toggle) (target : Option UInt64) (o : UInt64 → Owner) :
    t.act target (t.act target o) = match target with
      | none => o
      | some address => Function.update o address (t.flip (t.flip (o address))) := by
  cases target with
  | none => rfl
  | some address =>
    rw [act, act]
    dsimp only
    rw [Function.update_self, Function.update_idem]

/-- **Toggles of different targets** change different owners. -/
theorem act_comm (t t' : Toggle) {target target' : Option UInt64}
    (h : ∀ address, target = some address → target' ≠ some address) (o : UInt64 → Owner) :
    t.act target (t'.act target' o) = t'.act target' (t.act target o) := by
  cases target with
  | none => rfl
  | some address =>
    cases target' with
    | none => rfl
    | some address' =>
      have hne : address ≠ address' := fun e => h address rfl (congrArg some e.symm)
      unfold act
      dsimp only
      rw [Function.update_of_ne hne, Function.update_of_ne hne.symm, Function.update_comm hne]

end Toggle

/-! ### One toggle after another -/

/-- The two lists are the same sets. -/
structure SameBreakpoints (session session' : DebugSession) : Prop where
  breakpoints : ∀ bp, bp ∈ session'.breakpoints ↔ bp ∈ session.breakpoints
  srcBreakpoints : ∀ sb, sb ∈ session'.srcBreakpoints ↔ sb ∈ session.srcBreakpoints

section
variable {host : Host} {session session' : DebugSession} {t t' : Toggle}

theorem textByte_congr (h : session'.programData = session.programData) (address : UInt64) :
    textByte session' address = textByte session address := by
  rw [textByte, h, textByte]

/-- Two sessions of one program with the same owners have the same breakpoints. -/
theorem sameBreakpoints_of_owners (hi : StoreInv session) (hi' : StoreInv session')
    (hp : session'.programData = session.programData) (ho : owners session' = owners session) :
    SameBreakpoints session session' where
  breakpoints bp := by rw [mem_breakpoints hi', mem_breakpoints hi, ho, textByte_congr hp]
  srcBreakpoints sb := by rw [mem_srcBreakpoints hi', mem_srcBreakpoints hi, ho]

/-- Targets and arguments are those of the program. -/
theorem Toggle.target_congr (h : SameProgram session session') (t : Toggle) :
    t.target session' = t.target session := by
  cases t with
  | breakpoint address => rfl
  | sourceBreakpoint compUnitIndex lineNum =>
    rw [target, firstStmtRow, h.lineInfo, target, firstStmtRow]

theorem Toggle.valid_congr (h : SameProgram session session') (hv : t.Valid session) :
    t.Valid session' := by
  cases t with
  | breakpoint address => simpa only [Valid, InText, h.programData] using hv
  | sourceBreakpoint compUnitIndex lineNum =>
    simpa only [Valid, LineInText, InText, firstStmtRow, h.programData, h.lineInfo] using hv

theorem Toggle.apply_sameProgram (hi : StoreInv session) (h : t.apply host session = .ok session') :
    SameProgram session session' :=
  have step := Toggle.apply_step hi.toStoreKeys h
  ⟨step.inv hi, step.programData, step.lineInfo⟩

/-- **Two toggles** return, and flip the owners of their targets. -/
theorem Toggle.apply_apply (host : Host) (hi : StoreInv session) (hv : t.Valid session)
    (hv' : t'.Valid session) :
    ∃ session', (t.apply host session >>= t'.apply host) = .ok session' ∧
      SameProgram session session' ∧ owners session' =
        t'.act (t'.target session) (t.act (t.target session) (owners session)) := by
  obtain ⟨s, hs⟩ := Toggle.apply_returns host hi.toStoreKeys hv
  have hp := Toggle.apply_sameProgram hi hs
  obtain ⟨s', hs'⟩ := Toggle.apply_returns host hp.inv.toStoreKeys (Toggle.valid_congr hp hv')
  refine ⟨s', (except_bind_of_ok hs).trans hs', hp.trans (Toggle.apply_sameProgram hp.inv hs'), ?_⟩
  rw [Toggle.apply_owners hp.inv hs', Toggle.apply_owners hi hs, Toggle.target_congr hp]

/-- **A toggle undoes itself.** In every session that is reached, a source line that is toggled twice
leaves the breakpoints and the source breakpoints as they were, as sets. An address that is toggled
twice leaves the breakpoints as they were, and of the source breakpoints takes out the one that had
the address. -/
theorem toggle_toggle (h : Reachable host session) (hrows : RowsInText session) :
    (∀ compUnitIndex lineNum, compUnitIndex < session.lineInfo.compUnits.length → 1 ≤ lineNum →
      ∃ session', (toggleSourceBreakpoint host session compUnitIndex lineNum >>= fun session =>
          toggleSourceBreakpoint host session compUnitIndex lineNum) = .ok session' ∧
        SameBreakpoints session session') ∧
    ∀ address, InText session address →
      ∃ session', (toggleBreakpoint host session address >>= fun session =>
          toggleBreakpoint host session address) = .ok session' ∧
        (∀ bp, bp ∈ session'.breakpoints ↔ bp ∈ session.breakpoints) ∧
        ∀ sb, sb ∈ session'.srcBreakpoints ↔
          sb ∈ session.srcBreakpoints ∧ sb.address ≠ address := by
  have hi := h.inv
  constructor
  · intro compUnitIndex lineNum hu hn
    have hv : (Toggle.sourceBreakpoint compUnitIndex lineNum).Valid session :=
      hrows.lineInText hu hn
    obtain ⟨session', hs, hp, ho⟩ := Toggle.apply_apply host hi hv hv
    refine ⟨session', hs, sameBreakpoints_of_owners hi hp.inv hp.programData (ho.trans ?_)⟩
    rw [Toggle.act_act]
    split
    · rfl
    · rw [Toggle.flip_flip_sourceBreakpoint, Function.update_eq_self]
  · intro address ha
    have hv : (Toggle.breakpoint address).Valid session := ha
    obtain ⟨session', hs, hp, ho⟩ := Toggle.apply_apply host hi hv hv
    rw [Toggle.act_act, Toggle.target] at ho
    dsimp only at ho
    rw [Toggle.flip_flip_breakpoint] at ho
    refine ⟨session', hs, fun bp => ?_, fun sb => ?_⟩
    · rw [mem_breakpoints hp.inv, mem_breakpoints hi, textByte_congr hp.programData, ho]
      refine and_congr_left fun _ => not_congr ?_
      by_cases hb : bp.address = address
      · rw [hb, Function.update_self, Option.map_eq_none_iff]
      · rw [Function.update_of_ne hb]
    · rw [mem_srcBreakpoints hp.inv, mem_srcBreakpoints hi, ho]
      by_cases hb : sb.address = address
      · rw [hb, Function.update_self]
        refine iff_of_false (fun e => ?_) fun e => e.2 rfl
        obtain ⟨_, -, he⟩ := Option.map_eq_some_iff.mp e
        cases he
      · rw [Function.update_of_ne hb, and_iff_left hb]

end

/-- Line 7 is toggled twice, with a breakpoint at another address. -/
theorem toggle_toggle_sample : ∃ session',
    (toggleSourceBreakpoint (.zeroed true) sampleSet 0 7 >>= fun session =>
      toggleSourceBreakpoint (.zeroed true) session 0 7) = .ok session' ∧
    SameBreakpoints sampleSet session' :=
  (toggle_toggle sampleSet_reachable sampleSet_rowsInText).1 0 7 (by decide) (by decide)

section
variable {host : Host} {session session' : DebugSession} {t t' : Toggle}

/-- **Toggles of different targets commute.** In every session that is reached, two toggles that do
not have one target give the same breakpoints and the same source breakpoints, as sets, in either
order. -/
theorem toggle_comm (h : Reachable host session) (hv : t.Valid session) (hv' : t'.Valid session)
    (hne : ∀ address, t.target session = some address → t'.target session ≠ some address) :
    ∃ session₁ session₂, (t.apply host session >>= t'.apply host) = .ok session₁ ∧
      (t'.apply host session >>= t.apply host) = .ok session₂ ∧
      SameBreakpoints session₁ session₂ := by
  have hi := h.inv
  obtain ⟨session₁, hs₁, hp₁, ho₁⟩ := Toggle.apply_apply host hi hv hv'
  obtain ⟨session₂, hs₂, hp₂, ho₂⟩ := Toggle.apply_apply host hi hv' hv
  refine ⟨session₁, session₂, hs₁, hs₂, ?_⟩
  refine sameBreakpoints_of_owners hp₁.inv hp₂.inv (hp₂.programData.trans hp₁.programData.symm) ?_
  rw [ho₁, ho₂, Toggle.act_comm t t' hne]

end

/-- Line 7 and the address `0x1008` are toggled in either order. -/
theorem toggle_comm_sample : ∃ session₁ session₂,
    (toggleSourceBreakpoint (.zeroed true) sampleSet 0 7 >>= fun session =>
      toggleBreakpoint (.zeroed true) session 0x1008) = .ok session₁ ∧
    (toggleBreakpoint (.zeroed true) sampleSet 0x1008 >>= fun session =>
      toggleSourceBreakpoint (.zeroed true) session 0 7) = .ok session₂ ∧
    SameBreakpoints session₁ session₂ := by
  have hline : (Toggle.sourceBreakpoint 0 7).Valid sampleSet :=
    sampleSet_rowsInText.lineInText (by decide) (by decide)
  have haddress : InText sampleSet 0x1008 := by decide
  have hvalid : (Toggle.breakpoint 0x1008).Valid sampleSet := haddress
  refine toggle_comm sampleSet_reachable hline hvalid ?_
  rintro _ ⟨⟩
  decide

end Dabugger.Debug.Toggles
