import ClaudeC99.Control.Routes
import ClaudeC99.Lib.X86Jumps
import ClaudeC99.Values.BitFields

/-! Where the dispatch of a switch goes, against the section that C designates. -/

namespace ClaudeC99

open X86 StateExcept
open IntArith (IntType)

def caseConstants (cs : List Section) : List Int := cs.filterMap Section.caseValue

def Section.isDefault (c : Section) : Bool := c.caseValue.isNone

/-- A case whose constant passes the test. -/
def Section.passes (p : Int → Bool) (c : Section) : Bool := c.caseValue.any p

/-- The first case whose constant passes the test, or else the first default. -/
def selected (p : Int → Bool) (cs : List Section) : Option Section :=
  (cs.find? (Section.passes p)).or (cs.find? Section.isDefault)

/-- The section that C designates for the value `v` of a controlling expression of type `t`. -/
def designated (t : IntType) (v : Int) (cs : List Section) : Option Section :=
  selected (fun k => t.promote.convert k = v) cs

/-- What C demands of the sections of a switch. -/
structure Constraints (t : IntType) (cs : List Section) : Prop where
  distinct : ((caseConstants cs).map t.promote.convert).Nodup
  oneDefault : (cs.filter Section.isDefault).length ≤ 1

/-- The label in front of a section, or the one behind the body of the switch. -/
def targetLabel (ctx : SwitchCtx) (id : Nat) : Option Section → Label
  | some c => .numbered .switchSec (switchLookupLabel ctx c.node)
  | none => .numbered .switchEnd id

/-- The comparison for the constant `k` is made in `w` bits, with an encoded immediate. -/
def matchesCase (w : Width) (x : BitVec 64) (k : Int) : Bool :=
  x.setWidth w.bits == BitVec.ofInt w.bits (k.bmod (2 ^ 32))

/-- Every constant that some value of type `t` selects is compared at the width of the promoted
type, and a 64-bit one is the sign extension of its low 32 bits. -/
def ComparesExactly (w : Width) (t : IntType) (cs : List Section) : Prop :=
  ∀ k ∈ caseConstants cs, t.Holds (t.promote.convert k) →
    w = regWidth t ∧ (t.width = 64 → k % 2 ^ 64 = k.bmod (2 ^ 32) % 2 ^ 64)

/-! ### The dispatch -/

section dispatch

variable {env : Env Symbol} {σ : State} {w : Width}

/-- Where the dispatch goes when the comparisons come out as `p` says. -/
def jumpLabel (ctx : SwitchCtx) (id : Nat) (p : Int → Bool) : Label :=
  ((ctx.entries.find? fun e => e.caseValue.any p).map fun e =>
    Label.numbered .switchSec e.label).getD
      (if ctx.defaultLabel ≠ -1 then .numbered .switchSec ctx.defaultLabel
        else .numbered .switchEnd id)

theorem load_top (σ : State) (w : Width) :
    BitVec.ofNat w.bits (σ.mem.loadNat (σ.reg .rsp) w.bytes) = (topWord σ).setWidth w.bits := by
  apply BitVec.eq_of_getLsbD_eq
  intro i inside
  have bound := w.bits_le
  have wide : i < 64 := by omega
  rw [getLsbD_loadNat _ _ inside inside, BitVec.getLsbD_setWidth, topWord,
    getLsbD_loadNat _ _ (by omega) wide, decide_eq_true inside, Bool.true_and]

theorem get_set_rax (σ : State) (wide : w = .dword ∨ w = .qword) (v : BitVec w.bits) :
    (σ.set w .rax v).get w .rax = v := by
  rcases wide with rfl | rfl
  · exact low32_setFull σ .rax v
  · exact (BitVec.setWidth_setWidth_of_le _ (by decide)).trans (BitVec.setWidth_eq v)

theorem topWord_set (σ : State) (wide : w = .dword ∨ w = .qword) (v : BitVec w.bits)
    (flags : Flags) : topWord { σ.set w .rax v with flags := flags } = topWord σ := by
  rcases wide with rfl | rfl <;> rfl

/-- One case of the dispatch, up to its jump. -/
theorem runs_compare (env : Env Symbol) (σ : State) (wide : w = .dword ∨ w = .qword) (k : Int) :
    ∃ τ touched, Runs env [movMem w .rax (stackArg 0), (aluImm .cmp w .rax k).encoded] σ τ touched ∧
      topWord τ = topWord σ ∧ τ.flags.zf = matchesCase w (topWord σ) k := by
  let loaded := BitVec.ofNat w.bits (σ.mem.loadNat (σ.ea env (stackArg 0)) w.bytes)
  let immediate := BitVec.ofInt w.bits (k.bmod (2 ^ 32))
  let σ₁ := σ.set w .rax loaded
  have top : loaded = (topWord σ).setWidth w.bits := by
    have address : σ.ea env (stackArg 0) = σ.reg .rsp := by simp [stackArg, State.ea]
    rw [← load_top, ← address]
  refine ⟨{ σ₁ with flags := Alu.cmp.flags (σ₁.get w .rax) immediate }, _, ⟨rfl, rfl⟩,
    topWord_set σ wide loaded _, ?_⟩
  change (σ₁.get w .rax - immediate == 0) = ((topWord σ).setWidth w.bits == immediate)
  rw [get_set_rax σ wide, top, Bool.eq_iff_iff, beq_iff_eq, beq_iff_eq]
  exact sub_eq_zero

/-- The comparisons, one after the other. -/
theorem jumpsTo_cases (env : Env Symbol) (wide : w = .dword ∨ w = .qword)
    (entries : List SwitchLabel) (rest : List Asm) (σ : State) :
    ∃ τ, topWord τ = topWord σ ∧
      jumpsTo env ((entries.flatMap (dispatchCase w)).map Instr.encoded ++ rest) σ =
        ((entries.find? fun e => e.caseValue.any (matchesCase w (topWord σ))).map fun e =>
          (Label.numbered .switchSec e.label, τ)).or (jumpsTo env rest τ) := by
  induction entries generalizing σ with
  | nil => exact ⟨σ, rfl, rfl⟩
  | cons e entries ih =>
    obtain ⟨node, value, label⟩ := e
    cases value with
    | none => exact ih σ
    | some k =>
      obtain ⟨τ, touched, run, top, zf⟩ := runs_compare env σ wide k
      have jump (rest : List Asm) :
          jumpsTo env (([movMem w .rax (stackArg 0), (aluImm .cmp w .rax k).encoded] : List Asm) ++
            .jcc .e (.numbered .switchSec label) :: rest) σ =
          if τ.flags.zf then some (.numbered .switchSec label, τ) else jumpsTo env rest τ :=
        jumpsTo_append run
      by_cases found : matchesCase w (topWord σ) k = true
      · refine ⟨τ, top, ?_⟩
        rw [List.find?_cons_of_pos (by simpa using found)]
        exact (jump _).trans (if_pos (zf.trans found))
      · obtain ⟨τ', top', rest⟩ := ih τ
        refine ⟨τ', top'.trans top, ?_⟩
        rw [List.find?_cons_of_neg (by simpa using found), ← top]
        exact ((jump _).trans (if_neg (by rwa [zf]))).trans rest

/-- The dispatch, started with the value in `rax`, jumps as the comparisons say. -/
theorem jumpsTo_dispatch (env : Env Symbol) (wide : w = .dword ∨ w = .qword) (ctx : SwitchCtx)
    (id : Nat) (rest : List Asm) (σ : State) :
    ∃ τ, jumpsTo env ((.push .rax :: (ctx.entries.flatMap (dispatchCase w) ++
        switchDefault ctx id :: rest)).map Instr.encoded) σ =
      some (jumpLabel ctx id (matchesCase w (σ.reg .rax)), τ) := by
  let pushed := (σ.store .qword (σ.reg .rsp - 8) (σ.reg .rax)).setFull .rsp (σ.reg .rsp - 8)
  have top : topWord pushed = σ.reg .rax := by
    apply BitVec.eq_of_getLsbD_eq
    intro i inside
    rw [topWord, getLsbD_loadNat _ _ inside inside]
    exact bit_store σ .qword _ .rax inside
  obtain ⟨τ, -, cases_done⟩ := jumpsTo_cases env wide ctx.entries
    (switchDefault ctx id :: rest.map Instr.encoded) pushed
  refine ⟨τ, ?_⟩
  rw [top] at cases_done
  have default : jumpsTo env (switchDefault ctx id :: rest.map Instr.encoded) τ =
      some (if ctx.defaultLabel ≠ -1 then .numbered .switchSec ctx.defaultLabel
        else .numbered .switchEnd id, τ) := by
    unfold switchDefault
    split <;> rfl
  have code : (.push .rax :: (ctx.entries.flatMap (dispatchCase w) ++
      switchDefault ctx id :: rest)).map Instr.encoded = .push .rax ::
        ((ctx.entries.flatMap (dispatchCase w)).map Instr.encoded ++
          switchDefault ctx id :: rest.map Instr.encoded) := by
    have same : (switchDefault ctx id).encoded = switchDefault ctx id := by
      unfold switchDefault
      split <;> rfl
    rw [List.map_cons, List.map_append, List.map_cons, same]
    rfl
  have first : jumpsTo env (.push .rax ::
        ((ctx.entries.flatMap (dispatchCase w)).map Instr.encoded ++
          switchDefault ctx id :: rest.map Instr.encoded)) σ = jumpsTo env
        ((ctx.entries.flatMap (dispatchCase w)).map Instr.encoded ++
          switchDefault ctx id :: rest.map Instr.encoded) pushed := rfl
  rw [code, first, cases_done, default, jumpLabel]
  cases ctx.entries.find? fun e => e.caseValue.any (matchesCase w (σ.reg .rax)) <;> rfl

end dispatch

/-! ### The table -/

section table

variable {cs : List Section} {first : Nat} {p q : Int → Bool} {t : IntType}

theorem find_numberFrom (distinct : DistinctNodes cs) (default : Int) (p : Option Int → Bool) :
    ((numberFrom first cs).find? fun e => p e.caseValue).map SwitchLabel.label =
      (cs.find? fun c => p c.caseValue).map fun c =>
        switchLookupLabel ⟨numberFrom first cs, default⟩ c.node := by
  have pairs := congrArg (fun l => (l.find? fun x => p x.1).map Prod.snd)
    (@map_numberFrom _ first cs distinct default fun value label => (value, label))
  simpa only [List.find?_map, Option.map_map, Function.comp_def] using pairs

theorem lastDefault_eq (before : Int) (one : (cs.filter Section.isDefault).length ≤ 1) :
    lastDefault before first cs =
      (((numberFrom first cs).find? fun e => e.caseValue.isNone).map SwitchLabel.label).getD
        before := by
  induction cs generalizing before first with
  | nil => rfl
  | cons c cs ih =>
    rw [lastDefault, numberFrom]
    by_cases default : c.isDefault = true
    · rw [List.filter_cons_of_pos default, List.length_cons] at one
      have none : cs.filter Section.isDefault = [] :=
        List.eq_nil_of_length_eq_zero (by omega)
      have later : ((numberFrom (first + 1) cs).find? fun e => e.caseValue.isNone) = Option.none := by
        rw [List.find?_eq_none]
        intro e member
        obtain ⟨⟨d, own, -, same⟩, -⟩ := mem_numberFrom member
        rw [same]
        exact List.filter_eq_nil_iff.mp none d own
      have found : c.caseValue.isNone = true := default
      rw [if_pos found, List.find?_cons_of_pos (p := fun e : SwitchLabel => e.caseValue.isNone) found,
        ih _ (by rw [none]; decide), later]
      rfl
    · rw [List.filter_cons_of_neg default] at one
      have other : ¬ c.caseValue.isNone = true := default
      rw [if_neg other, List.find?_cons_of_neg (p := fun e : SwitchLabel => e.caseValue.isNone) other,
        ih _ one]

/-- The dispatch goes to the section that the comparisons select. -/
theorem jumpLabel_eq (distinct : DistinctNodes cs)
    (one : (cs.filter Section.isDefault).length ≤ 1) {ctx : SwitchCtx}
    (entries : ctx.entries = numberFrom first cs)
    (default : ctx.defaultLabel = lastDefault (-1) first cs) (id : Nat) (p : Int → Bool) :
    jumpLabel ctx id p = targetLabel ctx id (selected p cs) := by
  obtain ⟨_, _⟩ := ctx
  obtain rfl := entries
  obtain rfl := default
  have case_label := @find_numberFrom cs first distinct (lastDefault (-1) first cs)
    (Option.any p)
  have default_label := @find_numberFrom cs first distinct (lastDefault (-1) first cs)
    Option.isNone
  have same := @lastDefault_eq cs first (-1) one
  have first_case (entries : List SwitchLabel) : ((entries.find? fun e => e.caseValue.any p).map
      fun e => Label.numbered .switchSec e.label) = ((entries.find? fun e => e.caseValue.any p).map
      SwitchLabel.label).map (Label.numbered .switchSec) := by
    rw [Option.map_map]
    rfl
  unfold jumpLabel selected
  rw [first_case, case_label]
  cases found : cs.find? (Section.passes p) with
  | some c =>
    have found : cs.find? (fun c => c.caseValue.any p) = some c := found
    rw [found]
    rfl
  | none =>
    have found : cs.find? (fun c => c.caseValue.any p) = none := found
    rw [found, Option.none_or]
    change (if lastDefault (-1) first cs ≠ -1 then _ else _) = _
    rw [same, default_label]
    cases other : cs.find? Section.isDefault with
    | none =>
      have other : cs.find? (fun c => c.caseValue.isNone) = none := other
      rw [other]
      rfl
    | some d =>
      have other : cs.find? (fun c => c.caseValue.isNone) = some d := other
      rw [other] at default_label ⊢
      obtain ⟨e, member, label⟩ := Option.map_eq_some_iff.mp default_label
      have numbered := (mem_numberFrom (List.mem_of_find?_eq_some member)).2.1
      rw [if_pos]
      · rfl
      · change switchLookupLabel _ d.node ≠ -1
        dsimp only at label
        omega

/-- Different sections have different labels. -/
theorem targetLabel_inj (distinct : DistinctNodes cs) {ctx : SwitchCtx}
    (entries : ctx.entries = numberFrom first cs) {id : Nat} {x y : Option Section}
    (own : ∀ c, x = some c → c ∈ cs) (own' : ∀ c, y = some c → c ∈ cs)
    (same : targetLabel ctx id x = targetLabel ctx id y) : x = y := by
  obtain ⟨_, default⟩ := ctx
  obtain rfl := entries
  have labels : (cs.map fun c => switchLookupLabel ⟨numberFrom first cs, default⟩ c.node).Nodup := by
    rw [← @map_numberFrom _ first cs distinct default fun _ label => label]
    exact labels_numberFrom_nodup first cs
  cases x with
  | none =>
    cases y with
    | none => rfl
    | some d => cases same
  | some c =>
    cases y with
    | none => cases same
    | some d =>
      simp only [targetLabel, Label.numbered.injEq, true_and] at same
      rw [List.inj_on_of_nodup_map labels (own c rfl) (own' d rfl) same]

theorem selected_mem {c : Section} (found : selected p cs = some c) : c ∈ cs := by
  rcases Option.or_eq_some_iff.mp found with found | ⟨-, found⟩
  · exact List.mem_of_find?_eq_some found
  · exact List.mem_of_find?_eq_some found

theorem mem_caseConstants {k : Int} : k ∈ caseConstants cs ↔ ∃ c ∈ cs, c.caseValue = some k :=
  List.mem_filterMap

theorem selected_congr (same : ∀ k ∈ caseConstants cs, p k = q k) : selected p cs = selected q cs := by
  have passes : ∀ c ∈ cs, c.passes p = c.passes q := by
    intro c member
    unfold Section.passes
    cases value : c.caseValue with
    | none => rfl
    | some k => exact same k (mem_caseConstants.mpr ⟨c, member, value⟩)
  rw [selected, selected, List.find?_congr passes]

theorem Section.passes_iff {c : Section} : c.passes p = true ↔ ∃ k, c.caseValue = some k ∧ p k = true :=
  Option.any_eq_true p c.caseValue

/-- Where only the constant `k` passes, its case is selected. -/
theorem selected_case {k : Int} (own : k ∈ caseConstants cs) (passes : p k = true)
    (only : ∀ j ∈ caseConstants cs, p j = true → j = k) :
    ∃ d, selected p cs = some d ∧ d.caseValue = some k := by
  obtain ⟨c, member, value⟩ := mem_caseConstants.mp own
  cases found : cs.find? (Section.passes p) with
  | none =>
    exact absurd (Section.passes_iff.mpr ⟨k, value, passes⟩) (List.find?_eq_none.mp found c member)
  | some d =>
    obtain ⟨j, constant, passed⟩ := Section.passes_iff.mp (List.find?_some found)
    obtain rfl := only j (mem_caseConstants.mpr ⟨d, List.mem_of_find?_eq_some found, constant⟩) passed
    exact ⟨d, by rw [selected, found]; rfl, constant⟩

theorem passes_of_selected {k : Int} {d : Section} (found : selected p cs = some d)
    (value : d.caseValue = some k) : p k = true := by
  rcases Option.or_eq_some_iff.mp found with found | ⟨-, found⟩
  · obtain ⟨j, constant, passed⟩ := Section.passes_iff.mp (List.find?_some found)
    rw [value] at constant
    cases constant
    exact passed
  · have default : d.isDefault = true := List.find?_some found
    have default : d.caseValue.isNone = true := default
    rw [value] at default
    cases default

end table

/-! ### Exactness -/

section exactness

variable {cs : List Section} {t : IntType} {w : Width}

theorem promote_notBool (t : IntType) : t.promote.rank ≠ .bool := by
  unfold IntType.promote
  split
  · decide
  · rename_i high
    intro bool
    rw [bool] at high
    exact high (by decide)

theorem promote_width (t : IntType) : t.promote.width = if t.width = 64 then 64 else 32 := by
  obtain ⟨rank, signed, bool⟩ := t
  cases rank <;> rfl

theorem promote_of_wide (full : t.width = 64) : t.promote = t := by
  obtain ⟨rank, signed, bool⟩ := t
  cases rank <;> first | rfl | cases full

theorem holds_promote {v : Int} (holds : t.Holds v) : t.promote.Holds v := by
  obtain ⟨rank, signed, bool⟩ := t
  cases rank <;> cases signed <;>
    simp [IntType.promote, IntType.Holds, IntType.min, IntType.max, IntType.width,
      IntArith.Rank.level, IntType.int] at holds ⊢ <;>
    omega

/-- Conversion keeps the bits of the promoted type. -/
theorem ofInt_promote (t : IntType) {n : Nat} (width : t.promote.width = n) (k : Int) :
    BitVec.ofInt n (t.promote.convert k) = BitVec.ofInt n k := by
  subst width
  exact ofInt_reduce t.promote t.promote.width k (promote_notBool t)

/-- The constant is converted to the value when they have the same bits. -/
theorem convert_eq_iff {v : Int} (t : IntType) (k : Int) (holds : t.Holds v) :
    t.promote.convert k = v ↔
      BitVec.ofInt t.promote.width v = BitVec.ofInt t.promote.width k := by
  have notBool := promote_notBool t
  constructor
  · rintro rfl
    exact ofInt_promote t rfl k
  · intro same
    rw [← IntType.convert_of_holds (holds_promote holds), convert_eq_of_bits _ notBool,
      convert_eq_of_bits _ notBool v, same]

theorem matches_dword {x : BitVec 64} {k : Int} :
    matchesCase .dword x k = true ↔ x.setWidth 32 = BitVec.ofInt 32 k := by
  have low : BitVec.ofInt 32 (k.bmod (2 ^ 32)) = BitVec.ofInt 32 k := by
    rw [ofInt_eq_iff]
    exact Int.bmod_emod
  rw [← low]
  exact beq_iff_eq

theorem matches_qword {x : BitVec 64} {k : Int} :
    matchesCase .qword x k = true ↔ x = BitVec.ofInt 64 (k.bmod (2 ^ 32)) := by
  have full : x.setWidth 64 = x := BitVec.setWidth_eq x
  rw [← full]
  exact beq_iff_eq

/-- The bits of a sign-extended constant. -/
theorem encoded_eq_iff {k : Int} : BitVec.ofInt 64 (k.bmod (2 ^ 32)) = BitVec.ofInt 64 k ↔
    k % 2 ^ 64 = k.bmod (2 ^ 32) % 2 ^ 64 := by
  rw [ofInt_eq_iff]
  exact eq_comm

theorem matches_iff {σ : State} {v k : Int} (carries : Carries σ t v)
    (exact : t.Holds (t.promote.convert k) →
      w = regWidth t ∧ (t.width = 64 → k % 2 ^ 64 = k.bmod (2 ^ 32) % 2 ^ 64))
    (wide : w = .dword ∨ w = .qword) :
    matchesCase w (σ.reg .rax) k = true ↔ t.promote.convert k = v := by
  have width := promote_width t
  rw [convert_eq_iff t k carries.inType]
  by_cases full : t.width = 64
  · rw [if_pos full] at width
    have own : t.Holds (t.promote.convert k) := by
      rw [promote_of_wide full]
      exact t.holds_convert k
    obtain ⟨rfl, encoded⟩ := exact own
    have qword : regWidth t = .qword := if_pos full
    rw [qword, matches_qword, ((carries_wide full).mp carries).2, width,
      encoded_eq_iff.mpr (encoded full)]
  · rw [if_neg full] at width
    have low := ((carries_narrow full).mp carries).2
    rw [low32] at low
    rw [width, ← low]
    constructor
    · intro matched
      rcases wide with rfl | rfl
      · exact matches_dword.mp matched
      · rw [matches_qword.mp matched, setWidth_ofInt (by decide), ofInt_eq_iff]
        exact Int.bmod_emod
    · intro same
      have value : t.promote.convert k = v := by
        rw [convert_eq_iff t k carries.inType, width, ← low]
        exact same
      obtain ⟨rfl, -⟩ := exact (value ▸ carries.inType)
      have dword : regWidth t = .dword := if_neg full
      rw [dword]
      exact matches_dword.mpr same

/-- A state with a number in `rax`. -/
def stateRax (x : BitVec 64) : State := (stateWith 0 0 0).setFull .rax x

theorem stateRax_rax (x : BitVec 64) : (stateRax x).reg .rax = x := State.setFull_reg_self ..

/-- When the designated section is always selected, the case of a constant is jumped to for every
register that carries the constant. -/
theorem matches_of_selects (constraints : Constraints t cs)
    (selects : ∀ σ v, Carries σ t v →
      selected (matchesCase w (σ.reg .rax)) cs = designated t v cs)
    {k : Int} (own : k ∈ caseConstants cs) {σ : State}
    (carries : Carries σ t (t.promote.convert k)) :
    matchesCase w (σ.reg .rax) k = true ∧
      ∃ d, selected (matchesCase w (σ.reg .rax)) cs = some d ∧ d.caseValue = some k := by
  have only : ∀ j ∈ caseConstants cs,
      decide (t.promote.convert j = t.promote.convert k) = true → j = k := fun j other same =>
    List.inj_on_of_nodup_map constraints.distinct other own (of_decide_eq_true same)
  obtain ⟨d, found, value⟩ := selected_case
    (p := fun j => t.promote.convert j = t.promote.convert k) own (by simp) only
  have found : selected (matchesCase w (σ.reg .rax)) cs = some d :=
    (selects σ _ carries).trans found
  exact ⟨passes_of_selected found value, d, found, value⟩

theorem exact_of_selects (wide : w = .dword ∨ w = .qword) (constraints : Constraints t cs)
    (selects : ∀ σ v, Carries σ t v →
      selected (matchesCase w (σ.reg .rax)) cs = designated t v cs) : ComparesExactly w t cs := by
  intro k own holds
  have width := promote_width t
  by_cases full : t.width = 64
  · rw [if_pos full] at width
    have same : t.promote = t := promote_of_wide full
    have bits (x : Int) : BitVec.ofInt 64 (t.promote.convert x) = BitVec.ofInt 64 x :=
      ofInt_promote t width x
    have carries (x : Int) :
        Carries (stateRax (BitVec.ofInt 64 x)) t (t.promote.convert x) := by
      rw [carries_wide full, stateRax_rax, bits, same]
      exact ⟨t.holds_convert x, rfl⟩
    have qword : regWidth t = .qword := if_pos full
    obtain ⟨matched, d, found, value⟩ := matches_of_selects constraints selects own (carries k)
    rw [stateRax_rax] at matched found
    rcases wide with rfl | rfl
    · -- in 32 bits, the constant is not told from the number 2³² above it
      have above := selects _ _ (carries (k + 2 ^ 32))
      have low (j : Int) : matchesCase .dword (BitVec.ofInt 64 (k + 2 ^ 32)) j =
          matchesCase .dword (BitVec.ofInt 64 k) j := by
        rw [Bool.eq_iff_iff, matches_dword, matches_dword, setWidth_ofInt (by decide),
          setWidth_ofInt (by decide), ofInt_eq_iff, ofInt_eq_iff]
        omega
      rw [stateRax_rax, funext low, found] at above
      have equal := of_decide_eq_true (passes_of_selected above.symm value)
      have equal : BitVec.ofInt 64 k = BitVec.ofInt 64 (k + 2 ^ 32) := by
        rw [← bits k, equal, bits]
      rw [ofInt_eq_iff] at equal
      omega
    · refine ⟨qword.symm, fun _ => encoded_eq_iff.mp ?_⟩
      exact (matches_qword.mp matched).symm
  · rw [if_neg full] at width
    refine ⟨?_, fun wide => absurd wide full⟩
    have dword : regWidth t = .dword := if_neg full
    rcases wide with rfl | rfl
    · exact dword.symm
    · -- the upper half of the register takes part in a comparison of 64 bits
      let x := BitVec.ofInt 64 (k % 2 ^ 32 + 2 ^ 32)
      have carries : Carries (stateRax x) t (t.promote.convert k) := by
        rw [carries_narrow full, low32, stateRax_rax, setWidth_ofInt (by decide),
          ofInt_promote t width, ofInt_eq_iff]
        refine ⟨holds, ?_⟩
        omega
      have matched := (matches_of_selects constraints selects own carries).1
      rw [stateRax_rax, matches_qword, ofInt_eq_iff, Int.bmod_def] at matched
      split at matched <;> omega

/-- In exactly these switches the comparisons select the designated section for every value. -/
theorem selects_iff (wide : w = .dword ∨ w = .qword) (constraints : Constraints t cs) :
    (∀ σ v, Carries σ t v →
      selected (matchesCase w (σ.reg .rax)) cs = designated t v cs) ↔ ComparesExactly w t cs := by
  refine ⟨exact_of_selects wide constraints, fun exact σ v carries => selected_congr ?_⟩
  intro k own
  rw [Bool.eq_iff_iff, decide_eq_true_iff]
  exact matches_iff carries (exact k own) wide

end exactness

/-! ### The code of a switch -/

section code

variable {node : List Nat} {value : Expr} {body : Stmt} {cg cg' : CodeGen}

/-- The walk over the body, and the generator when the controlling expression's code begins. -/
def switchTable (node : List Nat) (body : Stmt) (cg : CodeGen) : Nat × SwitchCtx :=
  collectSwitchLabels (node ++ [1]) body (cg.labelCount + 1, ⟨[], -1⟩)

def CodeGen.enterSwitch (cg : CodeGen) (node : List Nat) (body : Stmt) : CodeGen :=
  { cg with
    labelCount := (switchTable node body cg).1
    switchStack := (switchTable node body cg).2 :: cg.switchStack }

/-- What is printed between the controlling expression and the body. -/
def dispatchCode (w : Width) (ctx : SwitchCtx) (id : Nat) : List Asm :=
  .push .rax :: (ctx.entries.flatMap (dispatchCase w) ++ [switchDefault ctx id])

theorem yields_newLabel {cg cg' : CodeGen} {id : Nat} : Yields newLabel cg id cg' ↔
    cg.labelCount = id ∧ { cg with labelCount := cg.labelCount + 1 } = cg' := by
  have run : newLabel cg = .ok (cg.labelCount, { cg with labelCount := cg.labelCount + 1 }) := rfl
  rw [Yields, run, Except.ok.injEq, Prod.mk.injEq]

theorem yields_beginSwitch {collect : Nat × SwitchCtx → Nat × SwitchCtx} {cg cg' : CodeGen}
    {ctx : SwitchCtx} : Yields (beginSwitch collect) cg ctx cg' ↔
      (collect (cg.labelCount, ⟨[], -1⟩)).2 = ctx ∧ { cg with
        labelCount := (collect (cg.labelCount, ⟨[], -1⟩)).1
        switchStack := (collect (cg.labelCount, ⟨[], -1⟩)).2 :: cg.switchStack } = cg' := by
  have run : beginSwitch collect cg = .ok ((collect (cg.labelCount, ⟨[], -1⟩)).2, { cg with
      labelCount := (collect (cg.labelCount, ⟨[], -1⟩)).1
      switchStack := (collect (cg.labelCount, ⟨[], -1⟩)).2 :: cg.switchStack }) := rfl
  rw [Yields, run, Except.ok.injEq, Prod.mk.injEq]

/-- The generator when the body's code begins. -/
def CodeGen.dispatched (mid : CodeGen) (w : Width) (ctx : SwitchCtx) (id : Nat) : CodeGen :=
  { (mid.pushed .rax).print (ctx.entries.flatMap (dispatchCase w) ++ [switchDefault ctx id]) with
    breakStack := ⟨id, -1⟩ :: mid.breakStack }

theorem output_dispatched (mid : CodeGen) (w : Width) (ctx : SwitchCtx) (id : Nat) :
    ∃ seg, (mid.dispatched w ctx id).output = mid.output ++ seg ∧
      seg.map Line.instr = dispatchCode w ctx id := by
  refine ⟨lines mid.pushDepth [.push .rax] ++ lines (mid.pushDepth + 1)
    (ctx.entries.flatMap (dispatchCase w) ++ [switchDefault ctx id]), ?_, ?_⟩
  · rw [← List.append_assoc]
    rfl
  · simp [dispatchCode, lines, Function.comp_def]

theorem switchWidth_wide (kind : TypeKind) : switchWidth kind = .dword ∨ switchWidth kind = .qword := by
  unfold switchWidth
  split
  · exact .inr rfl
  · exact .inl rfl

theorem switch_code (run : Yields (codegenStatement node (.switchStmt value body)) cg () cg') :
    ∃ a mid last, Yields (codegenExpression value) (cg.enterSwitch node body) a mid ∧
      Yields (codegenStatement (node ++ [1]) body) (mid.dispatched (switchWidth a.resultType)
        (switchTable node body cg).2 cg.labelCount) () last ∧
      cg'.output = last.output ++ lines last.pushDepth [.label (.numbered .switchEnd cg.labelCount),
        .label (.numbered .breakTo cg.labelCount), addRsp 8] := by
  change Yields (genSwitch (collectSwitchLabels (node ++ [1]) body) (codegen value)
    (codegenStatement (node ++ [1]) body)) cg () cg' at run
  obtain ⟨id, c₁, fresh, run⟩ := yields_bind.mp run
  obtain ⟨rfl, rfl⟩ := yields_newLabel.mp fresh
  obtain ⟨ctx, c₂, table, run⟩ := yields_bind.mp run
  obtain ⟨rfl, rfl⟩ := yields_beginSwitch.mp table
  obtain ⟨a, mid, expression, run⟩ := yields_bind.mp run
  simp only [yields_bind, yields_pushReg, yields_emitAll, yields_emit, pushBreak, popSwitch,
    popBreak, emitLabel, pushDepthDec, yields_modify, exists_eq_left', exists_const,
    CodeGen.print_append] at run
  obtain ⟨⟨⟩, last, statement, rfl⟩ := run
  exact ⟨a, mid, last, expression, statement, rfl⟩

theorem expression_output {e : Expr} {a : Ann} {start last : CodeGen}
    (run : Yields (codegenExpression e) start a last) :
    (∃ seg, last.output = start.output ++ seg) ∧ last.switchStack = start.switchStack := by
  have extension := neutral_codegenExpression (u := start) e start.pushDepth start a last rfl rfl run
  obtain ⟨seg, output, -⟩ := extension.code
  have kept := congrArg CodeGen.switchStack extension.context
  exact ⟨⟨seg, output⟩, kept⟩

/-- The body's code has a label for every section of the switch. -/
theorem body_labels {start last : CodeGen} {ctx : SwitchCtx} {outer : List SwitchCtx}
    {path : List Nat} (stack : start.switchStack = ctx :: outer)
    (run : Yields (codegenStatement path body) start () last) :
    ∃ seg, last.output = start.output ++ seg ∧ ∀ c ∈ body.sections path,
      .numbered .switchSec (switchLookupLabel ctx c.node) ∈ labelsOf seg := by
  obtain ⟨-, seg, -, -, output, -, code, -, -⟩ :=
    compiles_codegenStatement (u := start) path body start.scope start.labelCount start () last
      rfl rfl rfl run
  refine ⟨seg, output, fun c member => code.defines.mem ?_⟩
  have own : sectionLabels start.scope.switchStack (body.sections path) =
      (body.sections path).map fun c => .numbered .switchSec (switchLookupLabel ctx c.node) := by
    change sectionLabels start.switchStack _ = _
    rw [stack]
    rfl
  apply List.mem_append_left
  change _ ∈ sectionLabels start.scope.switchStack (body.sections path)
  rw [own]
  exact List.mem_map.mpr ⟨c, member, rfl⟩

/-- The parts of a switch's code: the controlling expression, the dispatch, and the body with the
labels that the dispatch may lead to. -/
theorem switch_layout {seg : List Line}
    (run : Yields (codegenStatement node (.switchStmt value body)) cg () cg')
    (printed : cg'.output = cg.output ++ seg) :
    ∃ a mid scrutinee dispatch rest,
      Yields (codegenExpression value) (cg.enterSwitch node body) a mid ∧
      mid.output = cg.output ++ scrutinee ∧ seg = scrutinee ++ (dispatch ++ rest) ∧
      dispatch.map Line.instr =
        dispatchCode (switchWidth a.resultType) (switchTable node body cg).2 cg.labelCount ∧
      ∀ target : Option Section, (∀ c, target = some c → c ∈ body.sections (node ++ [1])) →
        targetLabel (switchTable node body cg).2 cg.labelCount target ∈ labelsOf rest := by
  obtain ⟨a, mid, last, expression, statement, output⟩ := switch_code run
  obtain ⟨⟨scrutinee, before⟩, stack⟩ := expression_output expression
  obtain ⟨dispatch, dispatched, dispatch_code⟩ := output_dispatched mid
    (switchWidth a.resultType) (switchTable node body cg).2 cg.labelCount
  have stack : (mid.dispatched (switchWidth a.resultType) (switchTable node body cg).2
      cg.labelCount).switchStack = (cg.enterSwitch node body).switchStack := stack
  obtain ⟨bodySeg, body_output, sections⟩ := body_labels stack statement
  have before : mid.output = cg.output ++ scrutinee := before
  refine ⟨a, mid, scrutinee, dispatch, bodySeg ++ lines last.pushDepth
    [.label (.numbered .switchEnd cg.labelCount), .label (.numbered .breakTo cg.labelCount),
      addRsp 8], expression, before, ?_, dispatch_code, ?_⟩
  · rw [output, body_output, dispatched, before] at printed
    simpa only [List.append_assoc, List.append_cancel_left_eq] using printed.symm
  · intro target member
    rw [labelsOf_append]
    cases target with
    | some c => exact List.mem_append_left _ (sections c (member c rfl))
    | none => exact List.mem_append_right _ List.mem_cons_self

/-- The instructions that the machine runs. -/
def assembled (code : List Line) : List Asm := (code.map Line.instr).map Instr.encoded

/-- From line `q` on, the first jump taken leads to the label `l`, which stands at one line. -/
def GoesTo (env : Env Symbol) (code : List Line) (q : Nat) (σ : State) (l : Label) : Prop :=
  ∃ τ x, jumpsTo env ((assembled code).drop q) σ = some (l, τ) ∧
    Run env (assembled code) (q, σ) (x, τ) ∧ Has code x (.label l) ∧
    ∀ y, Has code y (.label l) → y = x

theorem goesTo_of_jumpsTo {env : Env Symbol} {code : List Line} {q : Nat} {σ τ : State} {l : Label}
    (nodup : (labelsOf code).Nodup) (own : l ∈ labelsOf code)
    (jumps : jumpsTo env ((assembled code).drop q) σ = some (l, τ)) : GoesTo env code q σ l := by
  obtain ⟨line, member, label⟩ := List.mem_filterMap.mp own
  obtain ⟨x, lt, rfl⟩ := List.getElem_of_mem member
  have has : Has code x (.label l) :=
    has_label (by rw [List.getElem?_map, List.getElem?_eq_getElem lt, Option.map_some, label])
  refine ⟨τ, x, jumps, run_of_jumpsTo jumps ?_, has, fun y other => once_of_nodup nodup other has⟩
  obtain ⟨d, line⟩ := has
  rw [assembled, List.getElem?_map, List.getElem?_map, line]
  rfl

/-- In a function that compiles, the dispatch of a switch goes where C says, for every value of the
controlling expression, and C accepts the labels, in exactly these cases. -/
theorem switch_iff (env : Env Symbol) {f : FunctionDef} {fcg fcg' : CodeGen} {code : List Line}
    (function : Yields (codegenFunction f) fcg () fcg') (text : fcg'.output = fcg.output ++ code)
    (nested : WellNested f.body) {seg : List Line} {p : Nat}
    (run : Yields (codegenStatement node (.switchStmt value body)) cg () cg')
    (printed : cg'.output = cg.output ++ seg) (occurs : Occurs code p seg) :
    ∃ a mid scrutinee, Yields (codegenExpression value) (cg.enterSwitch node body) a mid ∧
      mid.output = cg.output ++ scrutinee ∧ ∀ t,
        (Constraints t (body.sections (node ++ [1])) ∧ ∀ σ v, Carries σ t v →
          GoesTo env code (p + scrutinee.length) σ
            (targetLabel (switchTable node body cg).2 cg.labelCount
              (designated t v (body.sections (node ++ [1]))))) ↔
        Constraints t (body.sections (node ++ [1])) ∧
          ComparesExactly (switchWidth a.resultType) t (body.sections (node ++ [1])) := by
  obtain ⟨a, mid, scrutinee, dispatch, rest, expression, before, whole, dispatch_code, labels⟩ :=
    switch_layout run printed
  refine ⟨a, mid, scrutinee, expression, before, fun t => ?_⟩
  have wide := switchWidth_wide a.resultType
  generalize switchWidth a.resultType = w at *
  have table : collectSwitchLabels (node ++ [1]) body (cg.labelCount + 1, ⟨[], -1⟩) =
      ((switchTable node body cg).1, (switchTable node body cg).2) := rfl
  obtain ⟨-, entries, default⟩ := collectSwitchLabels_table table
  have distinct := distinct_sections body (node ++ [1])
  have nodup : (labelsOf code).Nodup := by
    obtain ⟨_, _, _, _, compiled⟩ := functionCode function
    rw [List.append_cancel_left (text.symm.trans compiled.output)]
    exact compiled.labels_nodup nested
  generalize (switchTable node body cg).2 = ctx at *
  generalize body.sections (node ++ [1]) = cs at *
  rw [whole] at occurs
  have here := occurs.split.2
  have own (target : Option Section) (member : ∀ c, target = some c → c ∈ cs) :
      targetLabel ctx cg.labelCount target ∈ labelsOf code := by
    refine here.split.2.labels _ (labels target member)
  have jumps (σ : State) (c : Constraints t cs) : ∃ τ,
      jumpsTo env ((assembled code).drop (p + scrutinee.length)) σ =
        some (targetLabel ctx cg.labelCount (selected (matchesCase w (σ.reg .rax)) cs), τ) := by
    rw [← jumpLabel_eq distinct c.oneDefault entries default]
    obtain ⟨after, code_rest⟩ := here
    obtain ⟨τ, jumps⟩ := jumpsTo_dispatch env wide ctx cg.labelCount
      ((rest ++ after).map Line.instr) σ
    refine ⟨τ, ?_⟩
    rw [← jumps, assembled, ← List.map_drop, ← List.map_drop, ← code_rest]
    congr 2
    simp only [List.map_append, dispatch_code, dispatchCode, List.cons_append, List.append_assoc,
      List.nil_append]
  refine and_congr_right fun constraints => ?_
  rw [← selects_iff wide constraints]
  constructor
  · intro goes σ v carries
    obtain ⟨τ, jumped⟩ := jumps σ constraints
    obtain ⟨τ', x, jumped', -⟩ := goes σ v carries
    rw [jumped] at jumped'
    have same := (Prod.mk.inj (Option.some.inj jumped')).1
    exact targetLabel_inj distinct entries (fun _ => selected_mem) (fun _ => selected_mem) same
  · intro selects σ v carries
    obtain ⟨τ, jumped⟩ := jumps σ constraints
    rw [selects σ v carries] at jumped
    exact goesTo_of_jumpsTo nodup (own _ fun _ => selected_mem) jumped

end code

/-- `void f(void) { switch (value) body }` -/
def switchFunction (value : Expr) (body : Stmt) : FunctionDef where
  name := "f"
  declType := .void
  fullType := none
  params := []
  isVariadic := false
  isNoPrototype := false
  storage := .none
  body := [.switchStmt value body]

def unitStart : CodeGen := codegenInit [] fun _ => []

/-- `case 5: ;` -/
def case5 : Stmt := .caseSection 5 (.block [])

/-- `void f() { switch (5) case 5: ; }` -/
def case5Function : FunctionDef := switchFunction (.intLiteral (.dec 5) .int false) case5

def case5Statement : Gen Unit :=
  codegenStatement [0] (.switchStmt (.intLiteral (.dec 5) .int false) case5)

def case5Start : CodeGen := { unitStart with labelCount := 1 }

theorem case5_function : ∃ cg', Yields (codegenFunction case5Function) unitStart () cg' ∧
    cg'.output = outputOf (codegenFunction case5Function) unitStart := exists_output (by decide +kernel)

theorem case5_statement : ∃ cg', Yields case5Statement case5Start () cg' ∧
    cg'.output = outputOf case5Statement case5Start := exists_output (by decide +kernel)

theorem case5_occurs : Occurs (outputOf (codegenFunction case5Function) unitStart) 8
    (outputOf case5Statement case5Start) := by
  unfold Occurs
  decide +kernel

theorem case5_label : targetLabel (switchTable [0] case5 case5Start).2 case5Start.labelCount
    (designated .int 5 (case5.sections ([0] ++ [1]))) = .numbered .switchSec 2 := by
  decide +kernel

theorem literal_recorded {value : NumText} {isUnsigned : Bool} {cg cg' : CodeGen} {a : Ann}
    (run : Yields (codegenExpression (.intLiteral value .int isUnsigned)) cg a cg') :
    a.resultType = .int := by
  obtain ⟨_, _, -, done⟩ := yields_bind.mp run
  rw [← (yields_pure.mp done).1]

theorem case5_selected : ∃ q, ∀ σ, Carries σ .int 5 → GoesTo sampleEnv
    (outputOf (codegenFunction case5Function) unitStart) q σ (.numbered .switchSec 2) := by
  obtain ⟨fcg', function, text⟩ := case5_function
  obtain ⟨cg', run, printed⟩ := case5_statement
  have nested : WellNested case5Function.body := by decide +kernel
  obtain ⟨a, mid, scrutinee, expression, -, exact⟩ := switch_iff sampleEnv function
    (text.trans (List.nil_append _).symm) nested run (printed.trans (List.nil_append _).symm)
    case5_occurs
  have compares : ComparesExactly (switchWidth a.resultType) .int (case5.sections ([0] ++ [1])) := by
    rw [literal_recorded expression]
    exact fun k _ _ => ⟨rfl, fun wide => absurd wide (by decide)⟩
  have goes := ((exact .int).mpr ⟨⟨by decide, by decide⟩, compares⟩).2
  refine ⟨8 + scrutinee.length, fun σ carries => ?_⟩
  have reached := goes σ 5 carries
  rw [case5_label] at reached
  exact reached

/-- `switch (5) { case 5: ; case 5: ; default: ; default: ; }` -/
def twiceLabelled : FunctionDef := switchFunction (.intLiteral (.dec 5) .int false)
  (.block [case5, case5, .defaultSection (.block []), .defaultSection (.block [])])

/-- `switch (4294967296L) case 4294967296: ;` -/
def bigCase : FunctionDef := switchFunction (.intLiteral (.dec 4294967296) .long false)
  (.caseSection 4294967296 (.block []))

/-- A second `case 5` and a second `default` are accepted, and `case 4294967296` is passed by. -/
theorem labels_not_right :
    (∃ cg', Yields (codegenFunction twiceLabelled) unitStart () cg') ∧
    ∃ cg', Yields (codegenFunction bigCase) unitStart () cg' ∧
      Carries (stateRax 4294967296) { rank := .long, signed := true } 4294967296 ∧
      (jumpsTo sampleEnv ((assembled cg'.output).drop 9) (stateRax 4294967296)).map Prod.fst =
        some (.numbered .switchEnd 1) := by
  refine ⟨?_, ?_⟩
  · obtain ⟨cg', function, -⟩ := exists_output
      (show (codegenFunction twiceLabelled unitStart).isOk = true by decide +kernel)
    exact ⟨cg', function⟩
  · obtain ⟨cg', function, text⟩ := exists_output
      (show (codegenFunction bigCase unitStart).isOk = true by decide +kernel)
    refine ⟨cg', function, ⟨by decide, by decide⟩, ?_⟩
    rw [text]
    decide +kernel

end ClaudeC99
